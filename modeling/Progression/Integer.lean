/-!
# Integers of 64 bits

The integers of rules and settings have 64 bits.  Arithmetic on them is exact:
an operation whose result does not fit has none.

## Main definitions

* `Integer.fits` — whether an integer fits in 64 bits.
* `ArithOp` — the operations that rules can write.
* `ArithOp.eval?`, `Integer.negate?` — their results.
-/

namespace Progression

namespace Integer

/-- The least integer of 64 bits. -/
def least : Int := -9223372036854775808

/-- The greatest integer of 64 bits. -/
def greatest : Int := 9223372036854775807

/-- Whether an integer fits in 64 bits. -/
def fits (n : Int) : Bool := decide (least ≤ n) && decide (n ≤ greatest)

/-- An integer, if it fits. -/
def checked (n : Int) : Option Int := if fits n then some n else none

/-- The opposite of an integer, if it fits. -/
def negate? (n : Int) : Option Int := checked (-n)

end Integer

/-- An arithmetic operation. -/
inductive ArithOp where
  | add
  | sub
  | mul
  /-- Division, rounded towards minus infinity. -/
  | floorDiv
  /-- The remainder of that division, which has the sign of the divisor. -/
  | mod
  deriving DecidableEq, Inhabited

namespace ArithOp

/-- The written form of an operation. -/
def symbol : ArithOp → String
  | .add => "+"
  | .sub => "-"
  | .mul => "*"
  | .floorDiv => "//"
  | .mod => "%"

/-- The result of an operation.  There is none when it does not fit, when the
divisor is zero, and for a remainder whose quotient does not fit. -/
def eval? : ArithOp → Int → Int → Option Int
  | .add, a, b => Integer.checked (a + b)
  | .sub, a, b => Integer.checked (a - b)
  | .mul, a, b => Integer.checked (a * b)
  | .floorDiv, a, b => if b = 0 then none else Integer.checked (a.fdiv b)
  | .mod, a, b =>
    if b = 0 then none else (Integer.checked (a.fdiv b)).map fun _ => a.fmod b

end ArithOp

end Progression
