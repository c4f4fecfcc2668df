import Progression.Rule.Fold

/-!
# Rulebooks

A rulebook hands out one rule for each formula, so that equal formulas share a
rule.  The rule that always holds is also shared outside all rulebooks.

## Main definitions

* `Guard` — the rule of a spot: a formula and the book that it comes from.
* `Rulebook`, `Rulebook.issue` — the rules handed out so far, and the next.
-/

namespace Progression.Rule

/-- A rule that guards a spot. -/
structure Guard where
  formula : Formula
  /-- The number of the rulebook that handed the rule out. -/
  book : Option Nat
  deriving DecidableEq, Inhabited

namespace Guard

/-- The rule of spots without rule text, which always holds. -/
def always : Guard := ⟨.const true, none⟩

/-- Whether a rule always holds, by its formula. -/
def isAlways (g : Guard) : Bool := g.formula == .const true

/-- Whether a rule never holds, by its formula. -/
def isNever (g : Guard) : Bool := g.formula == .const false

end Guard

/-- The formulas whose rules were handed out, under the number of the book. -/
structure Rulebook where
  number : Nat
  formulas : List Formula
  deriving DecidableEq, Inhabited

namespace Rulebook

/-- The rulebook with the given number before it hands out rules. -/
def blank (number : Nat) : Rulebook := ⟨number, []⟩

/-- The number of rules handed out. -/
def size (b : Rulebook) : Nat := b.formulas.length

/-- Hand out the rule of a formula. -/
def issue (b : Rulebook) (f : Formula) : Guard × Rulebook :=
  (⟨f, some b.number⟩, if b.formulas.contains f then b else ⟨b.number, f :: b.formulas⟩)

end Rulebook

end Progression.Rule
