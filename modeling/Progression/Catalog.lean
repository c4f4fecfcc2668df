import Progression.Item
import Progression.Table

/-!
# Catalogs

A catalog numbers the items that rules can mention, in the order in which they
are first named.  Two names with the same identifier form are one item, whose
display name is the one that came first.

Items are found through an index of the identifier forms.  The index is kept up
as entries are added, and never searches them: that it finds the entries, and
nothing else, is part of what a catalog is.

## Main definitions

* `Catalog` — the entries with their index.
* `Catalog.add`, `Catalog.modify` — add an entry, or change one.
* `Catalog.lookup` — the item that a name names.
* `Catalog.declare`, `Catalog.declareEvent` — declare an item, or an event.
* `Catalog.groups` — the items that inventories ask for as a group or by name.
-/

namespace Progression

/-- The known items; the entry of an item stands at its number. -/
structure Catalog where
  entries : Array ItemEntry
  /-- The items by the identifier forms of their names. -/
  byForm : Table String ItemId
  /-- What an identifier form finds is an entry of that form. -/
  found : ∀ form id, byForm.find? form = some id →
    ∃ e, entries[id.index]? = some e ∧ e.escaped = form
  /-- The identifier form of every entry finds something. -/
  bound : ∀ e ∈ entries, byForm.contains e.escaped = true
  /-- An identifier form is its own identifier form. -/
  canonical : ∀ e ∈ entries, Name.escape e.escaped = e.escaped
  deriving DecidableEq

/-- The items that inventories ask for as a group or by name. -/
structure ItemGroups where
  bottles : List ItemId
  medallions : List ItemId
  stones : List ItemId
  ocarinaButtons : List ItemId
  rutosLetter : Option ItemId
  pieceOfHeart : Option ItemId
  triforce : Option ItemId
  triforcePiece : Option ItemId
  deriving DecidableEq, Inhabited

/-- The medallions, then the stones. -/
def ItemGroups.dungeonRewards (g : ItemGroups) : List ItemId := g.medallions ++ g.stones

namespace Catalog

/-- A catalog without items. -/
def empty : Catalog where
  entries := #[]
  byForm := []
  found _ _ h := nomatch h
  bound _ h := nomatch h
  canonical _ h := nomatch h

instance : Inhabited Catalog := ⟨empty⟩

/-- The number of items. -/
def size (c : Catalog) : Nat := c.entries.size

/-- The entry of an item. -/
def get? (c : Catalog) (id : ItemId) : Option ItemEntry := c.entries[id.index]?

/-- The item that a display name or identifier names. -/
def lookup (c : Catalog) (name : String) : Option ItemId :=
  (c.byForm.find? name).or (c.byForm.find? (Name.escape name))

/-! ### Changing entries -/

/-- The entry of a name that is new to the catalog. -/
def freshEntry (c : Catalog) (name : String) : ItemEntry where
  id := ⟨c.size⟩
  name
  escaped := Name.escape name
  advancement := true
  junk := false
  event := false
  countsAs := none
  classes := .none
  note := none
  keyRing := keyRingDungeon? name

/-- Add the entry of a name behind the others, and its identifier form to the index. -/
def add (c : Catalog) (name : String) (event : Bool) : Catalog where
  entries := c.entries.push { c.freshEntry name with event }
  byForm := c.byForm.insert (Name.escape name) ⟨c.size⟩
  found form id h := by
    rw [Table.find?_insert] at h
    split at h
    · next hform =>
      cases h
      exact ⟨_, Array.getElem?_push_size, hform⟩
    · obtain ⟨e, he, hform⟩ := c.found form id h
      have hlt := (Array.getElem?_eq_some_iff.1 he).1
      exact ⟨e, by rw [Array.getElem?_push_lt hlt, ← he, Array.getElem?_eq_getElem hlt], hform⟩
  bound e he := by
    rw [Table.contains, Table.find?_insert]
    split
    · rfl
    · next hform =>
      rcases Array.mem_push.1 he with hold | rfl
      · exact c.bound e hold
      · exact absurd rfl hform
  canonical e he := by
    rcases Array.mem_push.1 he with hold | rfl
    · exact c.canonical e hold
    · exact Name.escape_escape name

theorem escaped_of_mem_modify {entries : Array ItemEntry} {i : Nat} {f : ItemEntry → ItemEntry}
    (hf : ∀ e, (f e).escaped = e.escaped) {e' : ItemEntry} (he' : e' ∈ entries.modify i f) :
    ∃ e ∈ entries, e'.escaped = e.escaped := by
  obtain ⟨j, hj, rfl⟩ := Array.mem_iff_getElem.1 he'
  rw [Array.size_modify] at hj
  refine ⟨entries[j], Array.getElem_mem hj, ?_⟩
  rw [Array.getElem_modify]
  split
  · exact hf _
  · rfl

/-- Change the entry of an item, but for its identifier form. -/
def modify (c : Catalog) (id : ItemId) (f : ItemEntry → ItemEntry)
    (hf : ∀ e, (f e).escaped = e.escaped) : Catalog where
  entries := c.entries.modify id.index f
  byForm := c.byForm
  found form id' h := by
    obtain ⟨e, he, hform⟩ := c.found form id' h
    rw [Array.getElem?_modify, he]
    split
    · exact ⟨f e, rfl, (hf e).trans hform⟩
    · exact ⟨e, rfl, hform⟩
  bound e' he' := by
    obtain ⟨e, he, hform⟩ := escaped_of_mem_modify hf he'
    rw [hform]
    exact c.bound e he
  canonical e' he' := by
    obtain ⟨e, he, hform⟩ := escaped_of_mem_modify hf he'
    rw [hform]
    exact c.canonical e he

/-! ### Declarations -/

/-- The item of a name; a new name is added to the catalog. -/
def intern (c : Catalog) (name : String) : ItemId × Catalog :=
  match c.byForm.find? (Name.escape name) with
  | some id => (id, c)
  | none => (⟨c.size⟩, c.add name false)

/-- Add the item that another one counts as to the catalog. -/
def internTarget (c : Catalog) : Option (String × Count) → Option (ItemId × Count) × Catalog
  | none => (none, c)
  | some (target, n) =>
    let (id, c) := c.intern target
    (some (id, n), c)

/-- What a declaration makes of an entry, which keeps its number and its names. -/
def revised (d : ItemDef) (target : Option (ItemId × Count)) (e : ItemEntry) : ItemEntry :=
  { e with
    advancement := d.advancement, junk := d.junk, event := false
    countsAs := target, classes := d.classes, note := d.note }

theorem escaped_revised (d : ItemDef) (target : Option (ItemId × Count)) (e : ItemEntry) :
    (revised d target e).escaped = e.escaped := rfl

/-- Declare an item.  What was declared about it before is replaced, but for its
display name and the dungeon read off that name. -/
def declare (c : Catalog) (d : ItemDef) : ItemId × Catalog :=
  let (target, c) := c.internTarget d.countsAs
  let (id, c) := c.intern d.name
  (id, c.modify id (revised d target) (escaped_revised d target))

/-- Declare an event.  A name that is already known keeps its entry. -/
def declareEvent (c : Catalog) (name : String) : ItemId × Catalog :=
  match c.lookup name with
  | some id => (id, c)
  | none => (⟨c.size⟩, c.add name true)

/-- The items whose entry satisfies `p`. -/
def idsWhere (c : Catalog) (p : ItemEntry → Bool) : List ItemId :=
  (c.entries.toList.filter p).map ItemEntry.id

/-- The items that inventories ask for as a group or by name. -/
def groups (c : Catalog) : ItemGroups where
  bottles := c.idsWhere (·.classes.bottle)
  medallions := c.idsWhere (·.classes.medallion)
  stones := c.idsWhere (·.classes.stone)
  ocarinaButtons := c.idsWhere (·.classes.ocarinaButton)
  rutosLetter := c.lookup "Rutos Letter"
  pieceOfHeart := c.lookup "Piece of Heart"
  triforce := c.lookup "Triforce"
  triforcePiece := c.lookup "Triforce Piece"

/-- The ocarina button that plays a note: the first one declared. -/
def ocarinaButton? (c : Catalog) (note : Char) : Option ItemId :=
  (c.entries.find? fun e => e.note == some note).map ItemEntry.id

/-- The boss key of a dungeon. -/
def bossKey? (c : Catalog) (dungeon : String) : Option ItemId :=
  c.lookup ("Boss Key (" ++ dungeon ++ ")")

end Catalog

end Progression
