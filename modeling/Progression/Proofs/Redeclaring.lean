import Progression.Proofs.Cataloguing

/-!
# Declaring what is known already

A declaration replaces whatever was declared about an item before, and what an event, a rule or
another item's worth made of it.  Only what is read off the display name stays: the display name
itself, and the dungeon of a key ring.  So an entry is what it would be in an empty catalog, but
for the numbers, if and only if the name by which the item first became known is the name that it
would get there.  A key ring that some rule has spelled as an identifier before it is declared
keeps a name that is not the name of a key ring.

## Main definitions

* `Catalog.known?` — the entry that a name finds.
* `Catalog.ReadsRings` — the dungeons of key rings are read off the display names.
* `ItemEntry.unnumbered` — an entry without the numbers of items.
* `ItemDef.ownName`, `ItemDef.entryAs` — the name and the entry that a definition asks for.
* `Catalog.nameFor` — the name by which an item goes once it is declared.

## Main results

* `Catalog.known?_intern` — what a name finds once another name is known.
* `Catalog.ReadsRings.ofCalls` — whatever is done, dungeons are read off the display names.
* `Catalog.unnumbered_declare` — the entry of a declared item, but for the numbers.
* `Catalog.declare_afresh_iff` — **when a declaration leaves no trace of what was known.**
-/

namespace Progression

open Rule

namespace Catalog

/-! ### Entries that names find -/

/-- The entry that a name finds. -/
def known? (c : Catalog) (name : String) : Option ItemEntry := (c.lookup name).bind c.get?

theorem known?_eq_some_iff {c : Catalog} {name : String} {e : ItemEntry} :
    c.known? name = some e ↔ ∃ id, c.lookup name = some id ∧ c.get? id = some e :=
  Option.bind_eq_some_iff

theorem known?_eq_none_iff {c : Catalog} {name : String} :
    c.known? name = none ↔ c.lookup name = none := by
  rw [known?, Option.bind_eq_none_iff]
  constructor
  · intro h
    cases hid : c.lookup name with
    | none => rfl
    | some id =>
      obtain ⟨e, he, -⟩ := lookup_eq_some hid
      rw [h id hid] at he
      cases he
  · intro h id hid
    rw [h] at hid
    cases hid

/-- The item of a name has the entry that the name finds, or a new one. -/
theorem get?_intern (c : Catalog) (name : String) :
    (c.intern name).2.get? (c.intern name).1 =
      some ((c.known? name).getD (c.freshEntry name)) := by
  rw [intern_eq]
  split
  · next id hid =>
    obtain ⟨e, he, -⟩ := lookup_eq_some hid
    rw [known?_eq_some_iff.2 ⟨id, hid, he⟩, he, Option.getD_some]
  · next hnone =>
    rw [known?_eq_none_iff.2 hnone, get?_add, if_pos rfl, Option.getD_none]
    rfl

/-- What a name finds once another name is in the catalog. -/
theorem known?_intern (c : Catalog) (target name : String) :
    (c.intern target).2.known? name =
      if Name.escape target = Name.escape name then
        some ((c.known? name).getD (c.freshEntry target))
      else c.known? name := by
  rw [intern_eq]
  split
  · next id hid =>
    split
    · next hform =>
      obtain ⟨e, he, -⟩ := lookup_eq_some hid
      rw [lookup_congr c hform] at hid
      rw [known?_eq_some_iff.2 ⟨id, hid, he⟩, Option.getD_some]
    · rfl
  · next hnone =>
    rw [known?, lookup_add]
    split
    · next hform =>
      rw [lookup_congr c hform] at hnone
      rw [known?_eq_none_iff.2 hnone, Option.getD_none, Option.bind_some, get?_add, if_pos rfl]
      rfl
    · cases hid : c.lookup name with
      | none => rw [known?_eq_none_iff.2 hid, Option.bind_none]
      | some id =>
        rw [Option.bind_some, get?_add, if_neg (Nat.ne_of_lt (index_lt_of_lookup hid)), known?, hid,
          Option.bind_some]

/-- The item of a name is what the name finds from then on. -/
theorem lookup_intern (c : Catalog) (name : String) :
    (c.intern name).2.lookup name = some (c.intern name).1 := by
  rw [intern_eq]
  split
  · assumption
  · exact (lookup_add ..).trans (if_pos rfl)

/-! ### Key rings by their names -/

/-- The dungeons of key rings are read off the display names. -/
def ReadsRings (c : Catalog) : Prop :=
  ∀ id e, c.get? id = some e → e.keyRing = keyRingDungeon? e.name

namespace ReadsRings

variable {c : Catalog}

theorem empty : Catalog.empty.ReadsRings := fun _ _ h => nomatch h

theorem add (h : c.ReadsRings) (name : String) (event : Bool) :
    (c.add name event).ReadsRings := by
  intro id e he
  rw [get?_add] at he
  split at he
  · cases he
    rfl
  · exact h id e he

theorem modify (h : c.ReadsRings) (id : ItemId) {f : ItemEntry → ItemEntry}
    (hescaped : ∀ e, (f e).escaped = e.escaped)
    (hf : ∀ e, (f e).keyRing = e.keyRing ∧ (f e).name = e.name) :
    (c.modify id f hescaped).ReadsRings := by
  intro id' e' he'
  rw [get?_modify] at he'
  split at he'
  · obtain ⟨e, he, rfl⟩ := Option.map_eq_some_iff.1 he'
    rw [(hf e).1, (hf e).2]
    exact h id' e he
  · exact h id' e' he'

theorem intern (h : c.ReadsRings) (name : String) : (c.intern name).2.ReadsRings := by
  unfold Catalog.intern
  split
  · exact h
  · exact h.add name _

theorem internTarget (h : c.ReadsRings) (target : Option (String × Count)) :
    (c.internTarget target).2.ReadsRings := by
  cases target with
  | none => exact h
  | some p => exact h.intern p.1

theorem declare (h : c.ReadsRings) (d : ItemDef) : (c.declare d).2.ReadsRings :=
  ((h.internTarget d.countsAs).intern d.name).modify _ (escaped_revised d _) fun _ => ⟨rfl, rfl⟩

theorem declareEvent (h : c.ReadsRings) (name : String) : (c.declareEvent name).2.ReadsRings := by
  unfold Catalog.declareEvent
  split
  · exact h
  · exact h.add name _

/-- Whatever is done, the dungeons of key rings are read off the display names. -/
theorem ofCalls (calls : List Call) : (ofCalls calls).ReadsRings :=
  keeps_calls (fun _ d h => h.declare d) (fun _ name h => h.declareEvent name) .empty calls

end ReadsRings

end Catalog

/-! ### What is declared -/

/-- An entry without the numbers of items: its own, and that of what it counts as. -/
def ItemEntry.unnumbered (e : ItemEntry) : ItemEntry :=
  { e with id := ⟨0⟩, countsAs := e.countsAs.map fun p => (⟨0⟩, p.2) }

namespace ItemDef

/-- The name under which a definition makes its item known: its own, unless it names the item
before that as what the item counts as. -/
def ownName (d : ItemDef) : String :=
  match d.countsAs with
  | none => d.name
  | some (target, _) => if Name.escape target = Name.escape d.name then target else d.name

/-- The entry that a definition asks for, for an item that goes by some name. -/
def entryAs (d : ItemDef) (name : String) : ItemEntry where
  id := ⟨0⟩
  name
  escaped := Name.escape d.name
  advancement := d.advancement
  junk := d.junk
  event := false
  countsAs := d.countsAs.map fun p => (⟨0⟩, p.2)
  classes := d.classes
  note := d.note
  keyRing := keyRingDungeon? name

theorem entryAs_inj {d : ItemDef} {a b : String} : d.entryAs a = d.entryAs b ↔ a = b :=
  ⟨fun h => congrArg ItemEntry.name h, fun h => congrArg d.entryAs h⟩

end ItemDef

namespace Catalog

/-- The name by which an item goes once it is declared: the one by which it became known. -/
def nameFor (c : Catalog) (d : ItemDef) : String :=
  ((c.known? d.name).map ItemEntry.name).getD d.ownName

theorem nameFor_empty (d : ItemDef) : empty.nameFor d = d.ownName := by
  have hnone : empty.known? d.name = none := by
    rw [known?_eq_none_iff]
    rfl
  rw [nameFor, hnone, Option.map_none, Option.getD_none]

/-- What an item counts as is made known before the item itself. -/
theorem name_known?_internTarget (c : Catalog) (d : ItemDef) :
    (((c.internTarget d.countsAs).2.known? d.name).getD
      ((c.internTarget d.countsAs).2.freshEntry d.name)).name = c.nameFor d := by
  cases hd : d.countsAs with
  | none =>
    rw [nameFor, ItemDef.ownName, hd]
    cases h : c.known? d.name <;> simp [internTarget, h, freshEntry]
  | some p =>
    rw [nameFor, ItemDef.ownName, hd]
    simp only [internTarget, known?_intern]
    split <;> cases c.known? d.name <;> rfl

/-- The entry that a declaration changes has its names already. -/
theorem get?_internTarget_intern {c : Catalog} (h : c.ReadsRings) (d : ItemDef) :
    ∃ e, ((c.internTarget d.countsAs).2.intern d.name).2.get?
        ((c.internTarget d.countsAs).2.intern d.name).1 = some e ∧
      e.name = c.nameFor d ∧ e.escaped = Name.escape d.name ∧
      e.keyRing = keyRingDungeon? (c.nameFor d) := by
  have hentry := get?_intern (c.internTarget d.countsAs).2 d.name
  have hname := name_known?_internTarget c d
  obtain ⟨e, he, hform⟩ := lookup_eq_some (lookup_intern (c.internTarget d.countsAs).2 d.name)
  rw [← Option.some_inj.1 (he.symm.trans hentry)] at hname
  refine ⟨e, he, hname, hform, ?_⟩
  rw [← hname]
  exact (h.internTarget d.countsAs).intern d.name _ _ he

theorem declare_eq (c : Catalog) (d : ItemDef) :
    c.declare d =
      (((c.internTarget d.countsAs).2.intern d.name).1,
        ((c.internTarget d.countsAs).2.intern d.name).2.modify
          ((c.internTarget d.countsAs).2.intern d.name).1
          (revised d (c.internTarget d.countsAs).1) (escaped_revised d _)) := rfl

/-- **The entry of a declared item** says what its definition says, under the name by which the
item became known. -/
theorem unnumbered_declare {c : Catalog} (h : c.ReadsRings) (d : ItemDef) :
    ∃ e, (c.declare d).2.get? (c.declare d).1 = some e ∧
      e.countsAs = (c.internTarget d.countsAs).1 ∧ e.unnumbered = d.entryAs (c.nameFor d) := by
  obtain ⟨e, he, hname, hform, hring⟩ := get?_internTarget_intern h d
  have hworth : (c.internTarget d.countsAs).1.map (fun p => ((⟨0⟩ : ItemId), p.2)) =
      d.countsAs.map fun p => (⟨0⟩, p.2) := by
    cases d.countsAs <;> rfl
  refine ⟨revised d (c.internTarget d.countsAs).1 e, ?_, rfl, ?_⟩
  · rw [declare_eq, get?_modify, if_pos rfl, he, Option.map_some]
  · simp only [revised, ItemEntry.unnumbered, ItemDef.entryAs, hworth, hname, hform, hring]

/-- What an item counts as is found under its name. -/
theorem lookup_of_internTarget (c : Catalog) (d : ItemDef) {id : ItemId} {n : Count}
    (h : (c.internTarget d.countsAs).1 = some (id, n)) :
    ∃ target, d.countsAs = some (target, n) ∧ (c.declare d).2.lookup target = some id := by
  cases hd : d.countsAs with
  | none =>
    rw [hd] at h
    cases h
  | some p =>
    rw [hd] at h
    cases h
    refine ⟨p.1, rfl, ?_⟩
    rw [declare_eq, lookup_modify _ _ (fun _ => by rfl), hd]
    exact extends_intern _ d.name _ _ (lookup_intern c p.1)

/-- **When a declaration leaves no trace of what was known.**  Whatever was done with a catalog,
the entry of an item that is declared in it stands at the number that the declaration returns,
counts as an item that the target's name finds, and otherwise is the entry of the same
declaration in an empty catalog, but for the display name and the dungeon read off it: the name
is the one by which the item became known.  So the two are alike, numbers aside, just when that
is the name that the item gets in an empty catalog. -/
theorem declare_afresh_iff (calls : List Call) (d : ItemDef) :
    ∃ e e₀, ((ofCalls calls).declare d).2.get? ((ofCalls calls).declare d).1 = some e ∧
      (empty.declare d).2.get? (empty.declare d).1 = some e₀ ∧
      e.id = ((ofCalls calls).declare d).1 ∧
      (∀ id n, e.countsAs = some (id, n) → ∃ target, d.countsAs = some (target, n) ∧
        ((ofCalls calls).declare d).2.lookup target = some id) ∧
      e.name = (((ofCalls calls).known? d.name).map ItemEntry.name).getD e₀.name ∧
      e.unnumbered =
        { e₀.unnumbered with name := e.name, keyRing := keyRingDungeon? e.name } ∧
      (e.unnumbered = e₀.unnumbered ↔
        ∀ known, (ofCalls calls).known? d.name = some known → known.name = e₀.name) := by
  have hindexed : (ofCalls calls).Indexed := Indexed.empty.foldl calls
  obtain ⟨e, he, hworth, heq⟩ := unnumbered_declare (ReadsRings.ofCalls calls) d
  obtain ⟨e₀, he₀, -, heq₀⟩ := unnumbered_declare ReadsRings.empty d
  rw [nameFor_empty] at heq₀
  have hname : e.name = (ofCalls calls).nameFor d := congrArg ItemEntry.name heq
  have hname₀ : e₀.name = d.ownName := congrArg ItemEntry.name heq₀
  refine ⟨e, e₀, he, he₀, (hindexed.declare d).number _ _ he, ?_, ?_, ?_, ?_⟩
  · intro id n hid
    exact lookup_of_internTarget _ d (hworth.symm.trans hid)
  · rw [hname, hname₀, nameFor]
  · rw [heq, heq₀, hname]
    rfl
  · rw [heq, heq₀, ItemDef.entryAs_inj, hname₀, nameFor]
    cases (ofCalls calls).known? d.name <;> simp

-- a key ring that is an event first is known under a name that is not the name of a key ring
example :
    let c := ofCalls [.declareEvent "Small Key Ring Forest Temple"]
    let ring := ItemDef.advancing "Small Key Ring (Forest Temple)"
    ((c.declare ring).2.get? (c.declare ring).1).bind ItemEntry.keyRing = none ∧
      ((empty.declare ring).2.get? (empty.declare ring).1).bind ItemEntry.keyRing =
        some "Forest Temple" := by
  decide

end Catalog

end Progression
