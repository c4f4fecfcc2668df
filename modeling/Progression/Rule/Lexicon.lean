import Progression.Profile
import Progression.Rule.Template

/-!
# What the names of a rule can mean

Names of settings and attributes stand for their values, and arithmetic,
subscripts and tuples of such values are worked out once and for all.

## Main definitions

* `Anchor` — the spot that a rule belongs to.
* `Lexicon` — all that a rule's names are looked up in, but for the items.
* `Lexicon.literal?` — the value of a term that is made of constants.
-/

namespace Progression.Rule

/-- The spot that a rule belongs to. -/
structure Anchor where
  name : String
  /-- The name of the region that the spot is in. -/
  region : String
  /-- The kind of a location; exits have none. -/
  kind : Option String
  deriving DecidableEq, Inhabited

/-- What the names of a rule are looked up in, but for the items. -/
structure Lexicon where
  profile : Profile
  templates : Templates
  anchor : Option Anchor
  deriving Inhabited

namespace Lexicon

/-- The name of the spot, as messages give it. -/
def spot (lx : Lexicon) : String := lx.anchor.elim "<no spot>" Anchor.name

/-- The value of a setting or attribute. -/
def constant? (lx : Lexicon) (name : String) : Option Value := lx.profile.constant? name

/-- The value that a bare name has as a subscript: its own text, unless it is a constant. -/
def bareKey? (lx : Lexicon) : Term → Option Value
  | .name word => if (lx.constant? word).isNone then some (.str (Name.unescape word)) else none
  | _ => none

/-- The entry of a table under a key: by name in a map, by position in a list. -/
def entry? : Value → Value → Option Value
  | .map entries, .str key => Table.find? key entries
  | .list items, .int i => if 0 ≤ i then items[i.toNat]? else none
  | _, _ => none

mutual

/-- The value of a term that is made of literals and constants; other terms have
none.  A term that cannot have a value, although it is made of them, is an error. -/
def literal? (lx : Lexicon) : Term → Except RuleError (Option Value)
  | .int n => .ok (some (.int n))
  | .bool b => .ok (some (.bool b))
  | .str s => .ok (some (.str s))
  | .name word => .ok (lx.constant? word)
  | .tuple items => do return (← lx.literals? items).map .list
  | .subscript table key => do
    let term := Term.subscript table key
    let some container := lx.constant? table
      | throw (.unknownName lx.spot table term)
    let key ← match lx.bareKey? key with
      | some key => pure key
      | none =>
        match ← lx.literal? key with
        | some key => pure key
        | none => throw (.unsupported lx.spot .keyNotConstant term)
    let some found := entry? container key
      | throw (.unsupported lx.spot (.noEntry table key) term)
    return some found
  | .neg operand => do
    let term := Term.neg operand
    let some v ← lx.literal? operand
      | throw (.unsupported lx.spot .operandNotConstant term)
    let some n := v.int?
      | throw (.unsupported lx.spot .negatedNonNumber term)
    let some m := Integer.negate? n
      | throw (.unsupported lx.spot .overflow term)
    return some (.int m)
  | .arith op left right => do
    let term := Term.arith op left right
    let l ← lx.literal? left
    let r ← lx.literal? right
    let (some l, some r) := (l, r)
      | throw (.unsupported lx.spot .operandNotConstant term)
    let (some a, some b) := (l.int?, r.int?)
      | throw (.unsupported lx.spot (.undefined l op.symbol r) term)
    let some n := op.eval? a b
      | throw (.unsupported lx.spot .noResult term)
    return some (.int n)
  | .decimal _ | .call .. | .group .. | .not _ | .compare .. => .ok none

/-- The values of a list of terms, up to the first that has none. -/
def literals? (lx : Lexicon) : List Term → Except RuleError (Option (List Value))
  | [] => .ok (some [])
  | t :: ts => do
    let some v ← lx.literal? t | return none
    return (← lx.literals? ts).map (v :: ·)

end

end Lexicon

end Progression.Rule
