import Progression.Rule.Resolve
import Progression.Rule.Rulebook

/-!
# Compiling rules

A rule is compiled by resolving it and taking the rule of its formula from a
rulebook.  Text without anything but a comment is the rule that always holds.

## Main definitions

* `isBlankRule` — whether rule text says nothing.
* `resolveText` — the formula of rule text.
* `Workshop` — what compiling adds to.
* `Workshop.compile` — the rule that a resolution gives.
-/

namespace Progression.Rule

/-- Whether rule text says nothing before its first comment. -/
def isBlankRule (text : String) : Bool :=
  Text.isBlankText (text.toList.takeWhile (· != '#'))

/-- The formula of rule text. -/
def resolveText (lx : Lexicon) (text : String) : Resolve Formula :=
  if isBlankRule text then return .const true
  else
    match parse text with
    | .ok term => resolve lx term
    | .error e => throw (.malformed e)

/-- What compiling rules adds to. -/
structure Workshop where
  registry : Registry
  book : Rulebook
  deriving Inhabited

namespace Workshop

/-- Resolve something, keeping what was registered also on an error. -/
def resolving {α : Type} (w : Workshop) (action : Resolve α) : Except RuleError α × Workshop :=
  let (result, registry) := action.run.run w.registry
  (result, { w with registry })

/-- Take the rule of a formula from the rulebook. -/
def issue (w : Workshop) (f : Formula) : Guard × Workshop :=
  let (g, book) := w.book.issue f
  (g, { w with book })

/-- The rule of the formula that a resolution gives. -/
def compile (w : Workshop) (action : Resolve Formula) : Except RuleError Guard × Workshop :=
  match w.resolving action with
  | (.ok f, w) =>
    let (g, w) := w.issue f
    (.ok g, w)
  | (.error e, w) => (.error e, w)

end Workshop

end Progression.Rule
