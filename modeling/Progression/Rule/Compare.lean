import Progression.Rule.Term
import Progression.Value

/-!
# Comparisons

Values are compared as integers or as texts, whichever both of them are; truth
values count as integers, except inside lists and maps.  A comparison that the
two kinds of value do not support has no result.

## Main definitions

* `Scalar` — what is compared.
* `Scalar.order?`, `Scalar.same`, `Scalar.within?` — the tests.
* `Comparator.holds?` — the result of a comparison.
-/

namespace Progression.Rule

/-- A value as it is compared. -/
inductive Scalar where
  /-- No value, such as the age of nobody. -/
  | missing
  | int (n : Int)
  | str (s : String)
  | list (items : List Value)
  | map (entries : List (String × Value))
  deriving DecidableEq, Inhabited

namespace Scalar

/-- A value as it is compared. -/
def ofValue : Value → Scalar
  | .bool b => .int (if b then 1 else 0)
  | .int n => .int n
  | .str s => .str s
  | .list items => .list items
  | .map entries => .map entries

/-- The order of two integers or two texts. -/
def order? : Scalar → Scalar → Option Ordering
  | .int a, .int b => some (Ord.compare a b)
  | .str a, .str b => some (Ord.compare a b)
  | _, _ => none

/-- Whether two values are equal; values of different kinds are not. -/
def same : Scalar → Scalar → Bool
  | .missing, .missing => true
  | .int a, .int b => a == b
  | .str a, .str b => a == b
  | .list a, .list b => a == b
  | .map a, .map b => a == b
  | _, _ => false

/-- Whether a text occurs in another. -/
def occursIn (needle : List Char) : List Char → Bool
  | [] => needle.isEmpty
  | c :: cs => needle.isPrefixOf (c :: cs) || occursIn needle cs

/-- Whether the first value is in the second: a text in a text, a value in a
list, a key in a map. -/
def within? : Scalar → Scalar → Option Bool
  | .str needle, .str s => some (occursIn needle.toList s.toList)
  | x, .list items => some (items.any fun v => x.same (ofValue v))
  | .str key, .map entries => some (entries.any fun e => e.1 == key)
  | _, .map _ => some false
  | _, _ => none

end Scalar

/-- The result of a comparison. -/
def Comparator.holds? : Comparator → Scalar → Scalar → Option Bool
  | .eq, a, b => some (a.same b)
  | .ne, a, b => some (!a.same b)
  | .lt, a, b => (a.order? b).map Ordering.isLT
  | .le, a, b => (a.order? b).map Ordering.isLE
  | .gt, a, b => (a.order? b).map Ordering.isGT
  | .ge, a, b => (a.order? b).map Ordering.isGE
  | .mem, a, b => a.within? b
  | .notMem, a, b => (a.within? b).map not

end Progression.Rule
