import Progression.Rule.SyntaxError
import Progression.Rule.Term
import Progression.Value

/-!
# What can be wrong with a rule

An error names the spot whose rule is at fault and quotes the term that could
not be given a meaning.

## Main definitions

* `CountFault`, `ArgumentFault`, `UseFault` — the causes, by kind of error.
* `RuleError` — the errors.
* `RuleError.message` — their wording.
-/

namespace Progression.Rule

/-- What is wrong with a pair of an item and a count. -/
inductive CountFault where
  | notAPair
  | notAnItem
  | notAnIntegerSetting
  | notANumber
  deriving DecidableEq

/-- What is wrong with the arguments of a call. -/
inductive ArgumentFault where
  | notAnItem
  | notAnInteger
  | notAName
  | notHearts
  | noItems
  | notARegion
  | noSpot
  deriving DecidableEq

/-- How a term is used for what it cannot be. -/
inductive UseFault where
  /-- A name whose value is only known while rules are evaluated. -/
  | notACondition (word : String)
  | conditionDue
  | operandDue
  /-- An operation on values that do not support it. -/
  | undefined (left : Value) (symbol : String) (right : Value)
  | keyNotConstant
  | noEntry (table : String) (key : Value)
  | negatedNonNumber
  | overflow
  | operandNotConstant
  | noResult
  deriving DecidableEq

/-- Why a rule has no meaning. -/
inductive RuleError where
  | malformed (e : SyntaxError)
  | arity (spot name : String) (due found : Nat) (term : Term)
  | countTuple (spot : String) (fault : CountFault) (term : Term)
  | unknownName (spot name : String) (term : Term)
  | unknownFunction (spot name : String) (term : Term)
  | invalidArgument (spot name : String) (fault : ArgumentFault) (term : Term)
  | unsupported (spot : String) (fault : UseFault) (term : Term)
  | recursionLimit (spot : String) (limit : Nat) (term : Term)
  | unknownRegion (spot region : String)
  | templateSignature (signature : String)
  deriving DecidableEq

/-! ### Wording -/

/-- The wording of a fault in a pair of an item and a count. -/
def CountFault.message : CountFault → String
  | .notAPair => "expected exactly two values"
  | .notAnItem => "first value must be an item"
  | .notAnIntegerSetting => "second value must be an integer setting"
  | .notANumber => "second value must be a number"

/-- The wording of a fault in the arguments of a call. -/
def ArgumentFault.message : ArgumentFault → String
  | .notAnItem => "expected an item name"
  | .notAnInteger => "expected an integer"
  | .notAName => "expected a name"
  | .notHearts => "expected a number of hearts"
  | .noItems => "expected at least one item"
  | .notARegion => "first argument must be a region name"
  | .noSpot => "no spot to anchor to"

/-- A text between backquotes. -/
def ticked (s : String) : String := "`" ++ s ++ "`"

/-- The wording of a wrong use. -/
def UseFault.message : UseFault → String
  | .notACondition word => ticked word ++ " is not a condition"
  | .conditionDue => "expected a condition"
  | .operandDue => "comparison operands must be literals, `age` or counts"
  | .undefined left symbol right =>
    "cannot evaluate " ++ ticked (left.text ++ " " ++ symbol ++ " " ++ right.text)
  | .keyNotConstant => "non-literal subscript"
  | .noEntry table key => ticked table ++ " has no entry " ++ key.text
  | .negatedNonNumber => "cannot negate a non-number"
  | .overflow => "overflow"
  | .operandNotConstant => "arithmetic on a non-literal operand"
  | .noResult => "invalid arithmetic"

/-- The wording of an error. -/
def RuleError.message : RuleError → String
  | .malformed e => e.message
  | .arity spot name due found term =>
    spot ++ ": " ++ ticked name ++ " expects " ++ toString due ++ " argument(s), got " ++
      toString found ++ " in " ++ ticked term.text
  | .countTuple spot fault term =>
    spot ++ ": malformed count tuple (" ++ fault.message ++ ") in " ++ ticked term.text
  | .unknownName spot name term =>
    spot ++ ": unknown identifier " ++ ticked name ++ " in " ++ ticked term.text
  | .unknownFunction spot name term =>
    spot ++ ": unknown function " ++ ticked name ++ " in " ++ ticked term.text
  | .invalidArgument spot name fault term =>
    spot ++ ": bad arguments to " ++ ticked name ++ " (" ++ fault.message ++ ") in " ++
      ticked term.text
  | .unsupported spot fault term => spot ++ ": " ++ fault.message ++ " in " ++ ticked term.text
  | .recursionLimit spot limit term =>
    spot ++ ": helper expansion deeper than " ++ toString limit ++ " levels in " ++
      ticked term.text
  | .unknownRegion spot region => spot ++ ": unknown region " ++ ticked region
  | .templateSignature signature => "invalid helper signature " ++ ticked signature

end Progression.Rule
