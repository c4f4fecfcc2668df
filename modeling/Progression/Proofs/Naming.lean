import Progression.Catalog

/-!
# What names name

A catalog finds an item by the identifier form of its name.  The item that a name has
found is found under it for good: declaring more items or events only ever adds entries
behind, or changes entries in other parts than the identifier form.

## Main definitions

* `Catalog.Extends` — every name keeps the item that it had.

## Main results

* `Catalog.lookup_eq_iff` — two names of known items name one item just when they have
  one identifier form.
* `Catalog.extends_declare`, `Catalog.extends_declareEvent` — declaring extends.
-/

namespace Progression

namespace Name

theorem toList_escape (name : String) : (escape name).toList = escapeChars name.toList := by
  simp [escape]

theorem escapeChars_append (cs ds : List Char) :
    escapeChars (cs ++ ds) = escapeChars cs ++ escapeChars ds := by
  simp [escapeChars]

/-- Digits stay in the identifier form. -/
theorem escapeChars_of_digits {cs : List Char} (h : ∀ c ∈ cs, c.isDigit = true) :
    escapeChars cs = cs := by
  induction cs with
  | nil => rfl
  | cons c cs ih =>
    obtain ⟨hc, hcs⟩ := List.forall_mem_cons.1 h
    have hblank : c ≠ ' ' := by
      rintro rfl
      cases hc
    have hkept : isDropped c = false := by
      refine Bool.eq_false_iff.2 fun hd => ?_
      simp only [isDropped, Bool.or_eq_true, beq_iff_eq] at hd
      rcases hd with ((((rfl | rfl) | rfl) | rfl) | rfl) | rfl <;> cases hc
    have hcons : escapeChars (c :: cs) = c :: escapeChars cs := by
      simp [escapeChars, joinWords, hblank, hkept]
    rw [hcons, ih hcs]

end Name

namespace Catalog

/-! ### Looking names up -/

/-- A name may be tried as it is first: if it finds anything, it is its own identifier form. -/
theorem lookup_eq_find? (c : Catalog) (name : String) :
    c.lookup name = c.byForm.find? (Name.escape name) := by
  unfold lookup
  cases hraw : c.byForm.find? name with
  | none => rfl
  | some id =>
    obtain ⟨e, he, rfl⟩ := c.found name id hraw
    rw [c.canonical e (Array.mem_of_getElem? he), hraw]
    rfl

/-- Names with one identifier form name the same. -/
theorem lookup_congr (c : Catalog) {a b : String} (h : Name.escape a = Name.escape b) :
    c.lookup a = c.lookup b := by
  rw [lookup_eq_find?, lookup_eq_find?, h]

theorem lookup_eq_some {c : Catalog} {name : String} {id : ItemId} (h : c.lookup name = some id) :
    ∃ e, c.get? id = some e ∧ e.escaped = Name.escape name :=
  c.found _ id (c.lookup_eq_find? name ▸ h)

/-- Two names of known items name one item just when they have one identifier form. -/
theorem lookup_eq_iff {c : Catalog} {a b : String} {i j : ItemId} (ha : c.lookup a = some i)
    (hb : c.lookup b = some j) : i = j ↔ Name.escape a = Name.escape b := by
  constructor
  · rintro rfl
    -- both names are found at one entry, which has one identifier form
    obtain ⟨e, he, hea⟩ := lookup_eq_some ha
    obtain ⟨e', he', heb⟩ := lookup_eq_some hb
    rw [he, Option.some_inj] at he'
    rw [← hea, he', heb]
  · intro h
    rw [lookup_congr c h, hb, Option.some_inj] at ha
    exact ha.symm

/-! ### Extending a catalog -/

/-- Every name keeps the item that it has in `c`. -/
def Extends (c c' : Catalog) : Prop :=
  ∀ name id, c.lookup name = some id → c'.lookup name = some id

theorem Extends.refl (c : Catalog) : c.Extends c := fun _ _ h => h

theorem Extends.trans {a b c : Catalog} (hab : a.Extends b) (hbc : b.Extends c) : a.Extends c :=
  fun name id h => hbc name id (hab name id h)

/-- A new entry comes behind the others. -/
theorem get?_add (c : Catalog) (name : String) (event : Bool) (id : ItemId) :
    (c.add name event).get? id =
      if id.index = c.size then some { c.freshEntry name with event } else c.get? id :=
  Array.getElem?_push

theorem size_add (c : Catalog) (name : String) (event : Bool) :
    (c.add name event).size = c.size + 1 :=
  Array.size_push _

/-- The identifier form of a new entry finds the entry. -/
theorem lookup_add (c : Catalog) (name other : String) (event : Bool) :
    (c.add name event).lookup other =
      if Name.escape name = Name.escape other then some ⟨c.size⟩ else c.lookup other := by
  rw [lookup_eq_find?, lookup_eq_find?]
  exact Table.find?_insert ..

/-- A new entry takes the place of no other one if its name found nothing before. -/
theorem extends_add {c : Catalog} {name : String} (hnew : c.lookup name = none) (event : Bool) :
    c.Extends (c.add name event) := by
  intro other id h
  rw [lookup_add, if_neg]
  · exact h
  · intro hform
    rw [lookup_congr c hform, h] at hnew
    cases hnew

/-- A name is looked up before it is added. -/
theorem intern_eq (c : Catalog) (name : String) :
    c.intern name =
      match c.lookup name with
      | some id => (id, c)
      | none => (⟨c.size⟩, c.add name false) := by
  rw [lookup_eq_find?]
  rfl

theorem extends_intern (c : Catalog) (name : String) : c.Extends (c.intern name).2 := by
  rw [intern_eq]
  split
  · exact .refl c
  · next hnew => exact extends_add hnew _

/-- The identifier forms do not change when other parts of an entry do. -/
theorem lookup_modify (c : Catalog) (id : ItemId) {f : ItemEntry → ItemEntry}
    (hf : ∀ e, (f e).escaped = e.escaped) (name : String) :
    (c.modify id f hf).lookup name = c.lookup name := rfl

theorem extends_declare (c : Catalog) (d : ItemDef) : c.Extends (c.declare d).2 := by
  have target : c.Extends (c.internTarget d.countsAs).2 := by
    unfold internTarget
    split
    · exact .refl c
    · exact extends_intern c _
  exact target.trans ((extends_intern _ d.name).trans fun _ _ h => h)

/-! ### Declaring events -/

theorem extends_declareEvent (c : Catalog) (name : String) :
    c.Extends (c.declareEvent name).2 := by
  unfold declareEvent
  split
  · exact .refl c
  · next hnew => exact extends_add hnew _

/-- A declared event is what its name names. -/
theorem lookup_declareEvent (c : Catalog) (name : String) :
    (c.declareEvent name).2.lookup name = some (c.declareEvent name).1 := by
  unfold declareEvent
  split
  · assumption
  · rw [lookup_add]
    exact if_pos rfl

end Catalog

end Progression
