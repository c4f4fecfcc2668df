import Progression.Proofs.Ledgers

/-!
# The order in a catalog

Items and events are declared, and rules are resolved and compiled, which declares events too
and may fail half-way.  Whatever is done, an entry stays at its number under the name that it
was made with, and no second entry gets the same identifier form.  So an identifier form is as
good as a number, and a name finds its entry whether it is given as it is displayed or as it is
spelled in rules.

## Main definitions

* `Catalog.Indexed` — numbers and identifier forms both identify the entries.
* `Catalog.KeepsNames` — the entries keep their numbers and names.
* `Catalog.GainsOnlyEvents` — nothing changes but that events are added behind.
* `Catalog.Call`, `Catalog.ofCalls` — what is done with a catalog, and what becomes of it.

## Main results

* `Catalog.Indexed.find?_byForm_iff`, `Catalog.Indexed.lookup_eq_some_iff` — the index finds the
  entries, and a name the entry of its identifier form.
* `Catalog.gainsOnlyEvents_resolve`, `Catalog.gainsOnlyEvents_compile` — resolving and compiling
  rules adds events only.
* `Catalog.indexed_ofCalls` — **every catalog is in order, whatever was done with it**, and what
  is done further keeps its entries under their names.
-/

namespace Progression

open Rule

namespace Catalog

/-! ### Entries by number -/

theorem get?_modify (c : Catalog) (id id' : ItemId) {f : ItemEntry → ItemEntry}
    (hf : ∀ e, (f e).escaped = e.escaped) :
    (c.modify id f hf).get? id' = if id = id' then (c.get? id').map f else c.get? id' := by
  rcases id with ⟨i⟩
  rcases id' with ⟨j⟩
  simp [get?, modify, Array.getElem?_modify]

theorem index_lt_of_get? {c : Catalog} {id : ItemId} {e : ItemEntry} (h : c.get? id = some e) :
    id.index < c.size :=
  (Array.getElem?_eq_some_iff.1 h).1

theorem index_lt_of_lookup {c : Catalog} {name : String} {id : ItemId}
    (h : c.lookup name = some id) : id.index < c.size := by
  obtain ⟨e, he, -⟩ := lookup_eq_some h
  exact index_lt_of_get? he

/-- A name that finds nothing has the identifier form of no entry. -/
theorem escaped_ne_of_lookup_eq_none {c : Catalog} {name : String} (h : c.lookup name = none)
    {id : ItemId} {e : ItemEntry} (he : c.get? id = some e) : e.escaped ≠ Name.escape name := by
  intro hform
  have hbound := c.bound e (Array.mem_of_getElem? he)
  rw [hform, Table.contains, ← lookup_eq_find?, h] at hbound
  cases hbound

/-! ### Catalogs in order -/

/-- Numbers and identifier forms both identify the entries of a catalog. -/
structure Indexed (c : Catalog) : Prop where
  /-- An entry stands at its number. -/
  number : ∀ id e, c.get? id = some e → e.id = id
  form : ∀ id e, c.get? id = some e → e.escaped = Name.escape e.name
  distinct : ∀ id id' e e', c.get? id = some e → c.get? id' = some e' →
    e.escaped = e'.escaped → id = id'
  /-- What an item counts as is an item of the catalog. -/
  target : ∀ id e, c.get? id = some e → ∀ p ∈ e.countsAs, p.1.index < c.size

namespace Indexed

variable {c : Catalog}

theorem empty : Indexed .empty := by
  have hnone : ∀ id, Catalog.empty.get? id = none := fun id => rfl
  constructor <;> intro id <;> simp [hnone]

/-- **The index finds the entries, and nothing else.** -/
theorem find?_byForm_iff (h : c.Indexed) {form : String} {id : ItemId} :
    c.byForm.find? form = some id ↔ ∃ e, c.get? id = some e ∧ e.escaped = form := by
  refine ⟨c.found form id, ?_⟩
  rintro ⟨e, he, rfl⟩
  obtain ⟨id', hid'⟩ := Option.isSome_iff_exists.1 (c.bound e (Array.mem_of_getElem? he))
  obtain ⟨e', he', hform⟩ := c.found _ _ hid'
  rw [hid', h.distinct id' id e' e he' he hform]

/-- **A name finds the entry of its identifier form**, and there is only one. -/
theorem lookup_eq_some_iff (h : c.Indexed) {name : String} {id : ItemId} :
    c.lookup name = some id ↔ ∃ e, c.get? id = some e ∧ e.escaped = Name.escape name := by
  rw [lookup_eq_find?, h.find?_byForm_iff]

/-- A new entry is put behind the others under a name that found nothing before. -/
theorem add (h : c.Indexed) {name : String} (hnew : c.lookup name = none) (event : Bool) :
    (c.add name event).Indexed := by
  have hne : ∀ id e, c.get? id = some e → e.escaped ≠ Name.escape name :=
    fun id e he => escaped_ne_of_lookup_eq_none hnew he
  constructor
  case number =>
    intro id e he
    rw [get?_add] at he
    split at he
    · next hi =>
      cases he
      exact congrArg ItemId.mk hi.symm
    · exact h.number id e he
  case form =>
    intro id e he
    rw [get?_add] at he
    split at he
    · cases he
      rfl
    · exact h.form id e he
  case distinct =>
    intro id id' e₁ e₂ h₁ h₂ heq
    rw [get?_add] at h₁ h₂
    split at h₁ <;> split at h₂
    · next hi hi' => exact congrArg ItemId.mk (hi.trans hi'.symm)
    · cases h₁
      exact absurd heq.symm (hne id' e₂ h₂)
    · cases h₂
      exact absurd heq (hne id e₁ h₁)
    · exact h.distinct id id' e₁ e₂ h₁ h₂ heq
  case target =>
    intro id e he p hp
    rw [get?_add] at he
    rw [size_add]
    split at he
    · cases he
      cases hp
    · exact Nat.lt_succ_of_lt (h.target id e he p hp)

/-- An entry changes in other parts than its number and its names. -/
theorem modify (h : c.Indexed) (id : ItemId) {f : ItemEntry → ItemEntry}
    (hid : ∀ e, (f e).id = e.id) (hname : ∀ e, (f e).name = e.name)
    (hescaped : ∀ e, (f e).escaped = e.escaped)
    (htarget : ∀ e, ∀ p ∈ (f e).countsAs, p.1.index < c.size) :
    (c.modify id f hescaped).Indexed := by
  -- every entry is what it was but for what `f` did to it
  have hback : ∀ id' e', (c.modify id f hescaped).get? id' = some e' →
      ∃ e, c.get? id' = some e ∧ (e' = f e ∨ e' = e) := by
    intro id' e' he'
    rw [get?_modify] at he'
    split at he'
    · obtain ⟨e, he, rfl⟩ := Option.map_eq_some_iff.1 he'
      exact ⟨e, he, .inl rfl⟩
    · exact ⟨e', he', .inr rfl⟩
  have hsize : (c.modify id f hescaped).size = c.size := Array.size_modify
  constructor
  case number =>
    intro id' e' he'
    obtain ⟨e, he, rfl | rfl⟩ := hback id' e' he'
    · exact (hid e).trans (h.number id' e he)
    · exact h.number id' _ he
  case form =>
    intro id' e' he'
    obtain ⟨e, he, rfl | rfl⟩ := hback id' e' he'
    · rw [hescaped, hname]
      exact h.form id' e he
    · exact h.form id' _ he
  case distinct =>
    intro id₁ id₂ e₁ e₂ h₁ h₂ heq
    have hescaped' : ∀ id' e', (c.modify id f hescaped).get? id' = some e' →
        ∃ e, c.get? id' = some e ∧ e'.escaped = e.escaped := by
      intro id' e' he'
      obtain ⟨e, he, rfl | rfl⟩ := hback id' e' he'
      · exact ⟨e, he, hescaped e⟩
      · exact ⟨_, he, rfl⟩
    obtain ⟨e, he, hform⟩ := hescaped' id₁ e₁ h₁
    obtain ⟨e', he', hform'⟩ := hescaped' id₂ e₂ h₂
    exact h.distinct id₁ id₂ e e' he he' (hform.symm.trans (heq.trans hform'))
  case target =>
    intro id' e' he' p hp
    rw [hsize]
    obtain ⟨e, he, rfl | rfl⟩ := hback id' e' he'
    · exact htarget e p hp
    · exact h.target id' _ he p hp

theorem intern (h : c.Indexed) (name : String) : (c.intern name).2.Indexed := by
  rw [intern_eq]
  split
  · exact h
  · next hnew => exact h.add hnew false

theorem internTarget (h : c.Indexed) (target : Option (String × Count)) :
    (c.internTarget target).2.Indexed := by
  cases target with
  | none => exact h
  | some p => exact h.intern p.1

/-- An event is declared as an entry of its own, or it is found. -/
theorem declareEvent (h : c.Indexed) (name : String) : (c.declareEvent name).2.Indexed := by
  unfold Catalog.declareEvent
  split
  · exact h
  · next hnew => exact h.add hnew true

end Indexed

/-! ### What is added -/

theorem size_le_intern (c : Catalog) (name : String) : c.size ≤ (c.intern name).2.size := by
  unfold intern
  split
  · exact Nat.le_refl _
  · exact Nat.le_of_lt (Nat.lt_of_lt_of_eq (Nat.lt_succ_self _) (size_add ..).symm)

theorem intern_lt (c : Catalog) (name : String) :
    (c.intern name).1.index < (c.intern name).2.size := by
  rw [intern_eq]
  split
  · next id hid => exact index_lt_of_lookup hid
  · exact Nat.lt_of_lt_of_eq (Nat.lt_succ_self _) (size_add ..).symm

/-- What another item counts as is in the catalog from then on. -/
theorem internTarget_lt (c : Catalog) (target : Option (String × Count)) :
    ∀ p ∈ (c.internTarget target).1, p.1.index < (c.internTarget target).2.size := by
  cases target with
  | none => exact fun p hp => nomatch hp
  | some q =>
    intro p hp
    cases hp
    exact intern_lt c q.1

/-- **An item is declared without disturbing the order.**  What it counts as is added first, so
that it is there when it is noted. -/
theorem Indexed.declare {c : Catalog} (h : c.Indexed) (d : ItemDef) :
    (c.declare d).2.Indexed := by
  have hname := (h.internTarget d.countsAs).intern d.name
  refine hname.modify (f := revised d (c.internTarget d.countsAs).1) _ (fun _ => rfl)
    (fun _ => rfl) (escaped_revised d _) fun _ p hp => ?_
  exact Nat.lt_of_lt_of_le (internTarget_lt c d.countsAs p hp) (size_le_intern _ d.name)

/-- The entries keep their numbers and names. -/
def KeepsNames (c c' : Catalog) : Prop :=
  ∀ id e, c.get? id = some e →
    ∃ e', c'.get? id = some e' ∧ e'.id = e.id ∧ e'.name = e.name ∧ e'.escaped = e.escaped

namespace KeepsNames

variable {c c' c'' : Catalog}

theorem refl (c : Catalog) : c.KeepsNames c := fun _ e h => ⟨e, h, rfl, rfl, rfl⟩

theorem trans (h : c.KeepsNames c') (h' : c'.KeepsNames c'') : c.KeepsNames c'' := by
  intro id e he
  obtain ⟨e', he', hid, hname, hform⟩ := h id e he
  obtain ⟨e'', he'', hid', hname', hform'⟩ := h' id e' he'
  exact ⟨e'', he'', hid'.trans hid, hname'.trans hname, hform'.trans hform⟩

theorem add (c : Catalog) (name : String) (event : Bool) : c.KeepsNames (c.add name event) := by
  intro id e he
  refine ⟨e, ?_, rfl, rfl, rfl⟩
  rwa [get?_add, if_neg (Nat.ne_of_lt (index_lt_of_get? he))]

theorem intern (c : Catalog) (name : String) : c.KeepsNames (c.intern name).2 := by
  unfold Catalog.intern
  split
  · exact .refl c
  · exact .add c name _

theorem modify (c : Catalog) (id : ItemId) {f : ItemEntry → ItemEntry}
    (hescaped : ∀ e, (f e).escaped = e.escaped)
    (hf : ∀ e, (f e).id = e.id ∧ (f e).name = e.name) :
    c.KeepsNames (c.modify id f hescaped) := by
  intro id' e he
  rw [get?_modify]
  split
  · exact ⟨f e, by rw [he]; rfl, (hf e).1, (hf e).2, hescaped e⟩
  · exact ⟨e, he, rfl, rfl, rfl⟩

theorem declareEvent (c : Catalog) (name : String) : c.KeepsNames (c.declareEvent name).2 := by
  unfold Catalog.declareEvent
  split
  · exact .refl c
  · exact .add c name _

theorem declare (c : Catalog) (d : ItemDef) : c.KeepsNames (c.declare d).2 := by
  have htarget : c.KeepsNames (c.internTarget d.countsAs).2 := by
    cases d.countsAs with
    | none => exact .refl c
    | some p => exact .intern c p.1
  refine htarget.trans ((intern _ d.name).trans ?_)
  exact modify _ _ (escaped_revised d _) fun _ => ⟨rfl, rfl⟩

end KeepsNames

/-- Nothing changes but that events are added behind, which can open rules. -/
def GainsOnlyEvents (c c' : Catalog) : Prop :=
  ∃ events : Array ItemEntry, c'.entries = c.entries ++ events ∧
    ∀ e ∈ events, e.event = true ∧ e.advancement = true

namespace GainsOnlyEvents

variable {c c' : Catalog}

theorem refl (c : Catalog) : c.GainsOnlyEvents c := ⟨#[], by simp, by simp⟩

theorem declareEvent (h : c.GainsOnlyEvents c') (name : String) :
    c.GainsOnlyEvents (c'.declareEvent name).2 := by
  unfold Catalog.declareEvent
  split
  · exact h
  · obtain ⟨events, hentries, hevents⟩ := h
    refine ⟨events.push { c'.freshEntry name with event := true }, ?_, ?_⟩
    · rw [← Array.push_append, ← hentries]
      rfl
    · intro e he
      rcases Array.mem_push.1 he with he | rfl
      · exact hevents e he
      · exact ⟨rfl, rfl⟩

end GainsOnlyEvents

/-! ### Rules -/

/-- What declaring events keeps, resolving rules keeps. -/
theorem stable_of_declareEvent {P : Catalog → Prop}
    (hP : ∀ c name, P c → P (c.declareEvent name).2) :
    Registry.Stable fun r => P r.catalog where
  declareEvent r name h := hP r.catalog name h
  registerSubrule r region body h := by
    unfold Registry.registerSubrule
    split
    · exact h
    · exact hP r.catalog _ h

theorem stable_gainsOnlyEvents (c : Catalog) :
    Registry.Stable fun r => c.GainsOnlyEvents r.catalog :=
  stable_of_declareEvent fun _ name h => h.declareEvent name

theorem stable_indexed : Registry.Stable fun r => r.catalog.Indexed :=
  stable_of_declareEvent fun _ name h => h.declareEvent name

/-- **Resolving a rule only adds events to a catalog**, also if it fails, and leaves it in
order. -/
theorem gainsOnlyEvents_resolve (lx : Lexicon) (r : Registry) (term : Term) :
    r.catalog.GainsOnlyEvents (Action.result (resolve lx term) r).2.catalog ∧
      (r.catalog.Indexed → (Action.result (resolve lx term) r).2.catalog.Indexed) := by
  have hkeeps : ∀ {P}, Registry.Stable P → P r → P (Action.result (resolve lx term) r).2 :=
    fun hP h => ((keeps_resolve (p := fun _ => true) hP rfl rfl term).run r h).1
  exact ⟨hkeeps (stable_gainsOnlyEvents _) (.refl _), hkeeps stable_indexed⟩

/-- Compiling rule text does no more to a catalog than resolving a rule. -/
theorem gainsOnlyEvents_compile (lx : Lexicon) (w : Workshop) (text : String) :
    w.registry.catalog.GainsOnlyEvents
        (w.compile (resolveText lx text)).2.registry.catalog ∧
      (w.registry.catalog.Indexed →
        (w.compile (resolveText lx text)).2.registry.catalog.Indexed) := by
  have hkeeps : ∀ {P}, Registry.Stable P → P w.registry →
      P (Action.result (resolveText lx text) w.registry).2 := fun hP h =>
    ((keeps_resolveText (p := fun _ => true) hP rfl rfl text).run w.registry h).1
  rw [registry_compile]
  exact ⟨hkeeps (stable_gainsOnlyEvents _) (.refl _), hkeeps stable_indexed⟩

/-! ### Whatever is done -/

/-- What can be done with a catalog.  Rules are resolved with some ledger, and compiled with
some book of rules. -/
inductive Call where
  | declare (d : ItemDef)
  | declareEvent (name : String)
  | resolve (lx : Lexicon) (ledger : Ledger) (term : Term)
  | compile (lx : Lexicon) (ledger : Ledger) (book : Rulebook) (text : String)

/-- The catalog after a call, whether or not it succeeds. -/
def Call.apply (c : Catalog) : Call → Catalog
  | declare d => (c.declare d).2
  | declareEvent name => (c.declareEvent name).2
  | resolve lx ledger term => (Action.result (Rule.resolve lx term) ⟨c, ledger⟩).2.catalog
  | compile lx ledger book text =>
    (Workshop.compile ⟨⟨c, ledger⟩, book⟩ (resolveText lx text)).2.registry.catalog

/-- The catalog after a list of calls. -/
def ofCalls (calls : List Call) : Catalog := calls.foldl Call.apply empty

section Kept

variable {P : Catalog → Prop} (hdeclare : ∀ c d, P c → P (c.declare d).2)
  (hdeclareEvent : ∀ c name, P c → P (c.declareEvent name).2)
include hdeclare hdeclareEvent

/-- What declaring items and events keeps, every call keeps: rules declare events, and do no more
to a catalog. -/
theorem Call.keeps {c : Catalog} (h : P c) (call : Call) : P (call.apply c) := by
  have hstable : Registry.Stable fun r => P r.catalog := stable_of_declareEvent hdeclareEvent
  cases call with
  | declare d => exact hdeclare c d h
  | declareEvent name => exact hdeclareEvent c name h
  | resolve lx ledger term =>
    exact ((keeps_resolve (p := fun _ => true) hstable rfl rfl term).run ⟨c, ledger⟩ h).1
  | compile lx ledger book text =>
    rw [Call.apply, registry_compile]
    exact ((keeps_resolveText (p := fun _ => true) hstable rfl rfl text).run ⟨c, ledger⟩ h).1

theorem keeps_calls {c : Catalog} (h : P c) (calls : List Call) : P (calls.foldl Call.apply c) := by
  induction calls generalizing c with
  | nil => exact h
  | cons call calls ih => exact ih (call.keeps hdeclare hdeclareEvent h)

end Kept

theorem Indexed.foldl {c : Catalog} (h : c.Indexed) (calls : List Call) :
    (calls.foldl Call.apply c).Indexed :=
  keeps_calls (fun _ d h => h.declare d) (fun _ name h => h.declareEvent name) h calls

theorem KeepsNames.foldl (c : Catalog) (calls : List Call) :
    c.KeepsNames (calls.foldl Call.apply c) :=
  keeps_calls (fun _ d h => h.trans (.declare _ d)) (fun _ name h => h.trans (.declareEvent _ name))
    (.refl c) calls

/-- **Every catalog is in order, whatever was done with it**: numbers and identifier forms both
identify its entries, the index that is kept up on the way finds the entry of each identifier form
and nothing else, and so do names, which are tried in it as they are before they are turned into
identifier forms.  What is done further keeps the entries under their numbers and names, and
resolving and compiling rules adds events and changes nothing else. -/
theorem indexed_ofCalls (calls : List Call) :
    (ofCalls calls).Indexed ∧
      (∀ form id, (ofCalls calls).byForm.find? form = some id ↔
        ∃ e, (ofCalls calls).get? id = some e ∧ e.escaped = form) ∧
      (∀ name id, (ofCalls calls).lookup name = some id ↔
        ∃ e, (ofCalls calls).get? id = some e ∧ e.escaped = Name.escape name) ∧
      (∀ further, (ofCalls calls).KeepsNames (ofCalls (calls ++ further))) ∧
      ∀ lx ledger,
        (∀ term, (ofCalls calls).GainsOnlyEvents
          ((Call.resolve lx ledger term).apply (ofCalls calls))) ∧
        ∀ book text, (ofCalls calls).GainsOnlyEvents
          ((Call.compile lx ledger book text).apply (ofCalls calls)) := by
  have hindexed : (ofCalls calls).Indexed := Indexed.empty.foldl calls
  refine ⟨hindexed, fun _ _ => hindexed.find?_byForm_iff, fun _ _ => hindexed.lookup_eq_some_iff,
    fun further => ?_, fun lx ledger => ⟨fun term => ?_, fun book text => ?_⟩⟩
  · unfold ofCalls
    rw [List.foldl_append]
    exact .foldl _ further
  · exact (gainsOnlyEvents_resolve lx ⟨_, ledger⟩ term).1
  · exact (gainsOnlyEvents_compile lx ⟨⟨_, ledger⟩, book⟩ text).1

end Catalog

end Progression
