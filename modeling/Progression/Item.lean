import Progression.Count
import Progression.Name

/-!
# Items

## Main definitions

* `ItemId` — the number of an item in its catalog.
* `ItemClass` — the groups that an item belongs to.
* `ItemDef` — what is declared about an item.
* `ItemEntry` — what a catalog knows about an item.
* `keyRingDungeon?` — the dungeon whose key ring a name names.
-/

namespace Progression

/-- The number of an item in its catalog. -/
structure ItemId where
  index : Nat
  deriving DecidableEq, Inhabited

instance : LT ItemId := ⟨fun a b => a.index < b.index⟩

instance : DecidableLT ItemId := fun a b => inferInstanceAs (Decidable (a.index < b.index))

/-- The groups that an item belongs to. -/
structure ItemClass where
  bottle : Bool
  medallion : Bool
  stone : Bool
  ocarinaButton : Bool
  deriving DecidableEq, Inhabited

namespace ItemClass

/-- No group. -/
def none : ItemClass := ⟨false, false, false, false⟩

end ItemClass

/-- What is declared about an item. -/
structure ItemDef where
  name : String
  /-- Whether the item can open a rule. -/
  advancement : Bool
  junk : Bool
  /-- Collecting the item counts as a number of copies of another one. -/
  countsAs : Option (String × Count)
  classes : ItemClass
  /-- The note that the item plays, for an ocarina button. -/
  note : Option Char
  deriving DecidableEq, Inhabited

namespace ItemDef

/-- An item that can open a rule. -/
def advancing (name : String) : ItemDef := ⟨name, true, false, Option.none, .none, Option.none⟩

/-- An item that opens nothing. -/
def worthless (name : String) : ItemDef := ⟨name, false, true, Option.none, .none, Option.none⟩

end ItemDef

/-- What a catalog knows about an item. -/
structure ItemEntry where
  id : ItemId
  name : String
  /-- The identifier form of the name. -/
  escaped : String
  advancement : Bool
  junk : Bool
  /-- Whether the item was declared by a rule or an event. -/
  event : Bool
  /-- Collecting the item counts as a number of copies of another one. -/
  countsAs : Option (ItemId × Count)
  classes : ItemClass
  note : Option Char
  /-- The dungeon of a small key ring. -/
  keyRing : Option String
  deriving DecidableEq, Inhabited

/-- The dungeon of a name of the form `Small Key Ring (<dungeon>)`. -/
def keyRingDungeon? (name : String) : Option String :=
  let opening := "Small Key Ring (".toList
  if opening.isPrefixOf name.toList then
    match (name.toList.drop opening.length).reverse with
    | ')' :: dungeon =>
      if dungeon.isEmpty || dungeon.contains '\n' then none
      else some (String.ofList dungeon.reverse)
    | _ => none
  else none

end Progression
