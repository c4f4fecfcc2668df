import Progression.Value

/-!
# Settings

Named values that are fixed for a whole world.  Rules never read them while
they are evaluated: every mention is replaced by the value beforehand.

## Main definitions

* `Settings` — the named values.
* `Settings.set`, `Settings.ofList` — bind names.
* `Settings.get?`, `Settings.flag`, `Settings.int?`, `Settings.str?` — look names up.
-/

namespace Progression

/-- Named values, in ascending order of the names. -/
structure Settings where
  values : Table String Value
  deriving DecidableEq, Inhabited

namespace Settings

/-- No settings at all. -/
def empty : Settings := ⟨[]⟩

/-- The settings of a list of bindings; a later binding of a name wins. -/
def ofList (bindings : List (String × Value)) : Settings := ⟨Table.ofList bindings⟩

/-- Bind a name, replacing what it was bound to. -/
def set (s : Settings) (name : String) (value : Value) : Settings :=
  ⟨s.values.insert name value⟩

/-- The value of a name. -/
def get? (s : Settings) (name : String) : Option Value := s.values.find? name

/-- Whether a name is bound. -/
def contains (s : Settings) (name : String) : Bool := s.values.contains name

/-- The condition that a name stands for; an unbound name is false. -/
def flag (s : Settings) (name : String) : Bool := (s.get? name).any Value.truthy

/-- The integer that a name stands for. -/
def int? (s : Settings) (name : String) : Option Int := (s.get? name).bind Value.int?

/-- The text that a name stands for. -/
def str? (s : Settings) (name : String) : Option String := (s.get? name).bind Value.str?

end Settings

end Progression
