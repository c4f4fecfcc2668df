import Progression.Proofs.Naming
import Progression.Proofs.Resolving

/-!
# The items of subrules

Every subrule of a world has an event item, found by a name made of the region and a
number.  The numbers of a region are all different, but an item is found by the
identifier form of its name only: subrules of two regions share items as soon as the
names of the regions have one identifier form, and in no other case.

## Main definitions

* `Subrule.eventName` — the name of the event of a region's subrule.
* `Numbered` — the subrules of every region are numbered in the order of registration.
* `Registry.Sound` — they are, and their items are found by their events.
* `Grown` — the registries that a world can come to have.

## Main results

* `Registry.Sound.grown` — registries stay sound, whatever is resolved or declared.
* `Registry.Sound.item_eq_iff` — when two subrules of a world have one item.
* `distinct_items_iff` — **distinct subrules of a world have distinct items just when no
  two of its regions with subrules have one identifier form.**
-/

namespace Progression.Rule

/-! ### Event names -/

/-- The name of the event of the `n`th subrule of a region. -/
def Subrule.eventName (region : String) (n : Nat) : String :=
  region ++ " Subrule " ++ toString n

theorem toList_eventName (region : String) (n : Nat) :
    (Subrule.eventName region n).toList =
      region.toList ++ " Subrule ".toList ++ Nat.toDigits 10 n := by
  simp [Subrule.eventName]

theorem eventName_injective (region : String) {m n : Nat}
    (h : Subrule.eventName region m = Subrule.eventName region n) : m = n := by
  have h := congrArg String.toList h
  rw [toList_eventName, toList_eventName] at h
  have hdigits := congrArg (fun ds => Nat.ofDigitChars 10 ds 0) (List.append_cancel_left h)
  simpa using hdigits

theorem isDigit_toDigits {n : Nat} : ∀ c ∈ Nat.toDigits 10 n, c.isDigit = true :=
  fun _ hc => Nat.isDigit_of_mem_toDigits (by decide) (by decide) hc

/-- The identifier form of an event name: a blank ends the identifier form of the
region's name and of the text after it. -/
theorem escapeChars_eventName (region : String) (n : Nat) :
    Name.escapeChars (Subrule.eventName region n).toList =
      Name.escapeChars region.toList ++ "_Subrule_".toList ++ Nat.toDigits 10 n := by
  rw [toList_eventName, Name.escapeChars_append, Name.escapeChars_append,
    Name.escapeChars_of_digits isDigit_toDigits]
  rfl

/-- Lists that end in digits after a common text that no digit ends are equal only if
they agree before that text and in the digits. -/
theorem append_digits_inj (text : List Char) (c : Char) {as bs cs ds : List Char}
    (hc : c.isDigit = false) (hcs : ∀ d ∈ cs, d.isDigit = true)
    (hds : ∀ d ∈ ds, d.isDigit = true)
    (h : as ++ (text ++ [c]) ++ cs = bs ++ (text ++ [c]) ++ ds) : as = bs ∧ cs = ds := by
  -- read from behind, the digits end where the character before them begins
  have htail : cs = ds := by
    have h := congrArg (fun l => (l.reverse.takeWhile Char.isDigit).reverse) h
    simp only [List.reverse_append, List.reverse_cons, List.nil_append, List.append_assoc,
      List.cons_append] at h
    rwa [List.takeWhile_append_of_pos (by simpa using hcs),
      List.takeWhile_append_of_pos (by simpa using hds), List.takeWhile_cons_of_neg (by simp [hc]),
      List.takeWhile_cons_of_neg (by simp [hc]), List.append_nil, List.append_nil,
      List.reverse_reverse, List.reverse_reverse] at h
  subst htail
  exact ⟨List.append_cancel_right (List.append_cancel_right h), rfl⟩

/-- Two event names have one identifier form just when the names of the regions do and
the numbers agree. -/
theorem escape_eventName_eq_iff {r r' : String} {m n : Nat} :
    Name.escape (Subrule.eventName r m) = Name.escape (Subrule.eventName r' n) ↔
      Name.escape r = Name.escape r' ∧ m = n := by
  constructor
  · intro h
    have h := congrArg String.toList h
    rw [Name.toList_escape, Name.toList_escape, escapeChars_eventName,
      escapeChars_eventName] at h
    obtain ⟨hr, hn⟩ := append_digits_inj "_Subrule".toList '_' (by decide) isDigit_toDigits
      isDigit_toDigits h
    have hdigits := congrArg (fun ds => Nat.ofDigitChars 10 ds 0) hn
    exact ⟨congrArg String.ofList hr, by simpa using hdigits⟩
  · rintro ⟨hr, rfl⟩
    refine congrArg String.ofList ?_
    rw [escapeChars_eventName, escapeChars_eventName, ← Name.toList_escape, hr,
      Name.toList_escape]

/-! ### Numbered subrules -/

/-- The subrules of every region are numbered in the order of registration, and no
region has a rule twice.  The latest subrule comes first. -/
def Numbered : List Subrule → Prop
  | [] => True
  | s :: rest =>
    s.event = Subrule.eventName s.region ((rest.filter (·.region == s.region)).length + 1) ∧
      (∀ t ∈ rest, t.region = s.region → t.body ≠ s.body) ∧ Numbered rest

namespace Numbered

theorem exists_number {ss : List Subrule} (h : Numbered ss) {s : Subrule} (hs : s ∈ ss) :
    ∃ n, s.event = Subrule.eventName s.region n ∧
      n ≤ (ss.filter (·.region == s.region)).length := by
  induction ss with
  | nil => cases hs
  | cons t ss ih =>
    obtain ⟨ht, -, h⟩ := h
    rcases List.mem_cons.1 hs with rfl | hs
    · exact ⟨_, ht, by simp⟩
    · obtain ⟨n, hn, hle⟩ := ih h hs
      refine ⟨n, hn, Nat.le_trans hle ?_⟩
      exact ((List.sublist_cons_self t ss).filter _).length_le

/-- Two subrules of a region have different events. -/
theorem eq_of_event_eq {ss : List Subrule} (h : Numbered ss) {s t : Subrule} (hs : s ∈ ss)
    (ht : t ∈ ss) (hr : s.region = t.region) (he : s.event = t.event) : s = t := by
  induction ss with
  | nil => cases hs
  | cons u ss ih =>
    obtain ⟨hu, -, h⟩ := h
    -- an earlier subrule of the region has a smaller number than `u`
    have later : ∀ v ∈ ss, v.region = u.region → v.event ≠ u.event := by
      intro v hv hvr hve
      obtain ⟨n, hn, hle⟩ := exists_number h hv
      rw [hve, hu, hvr] at hn
      have := eventName_injective u.region hn
      rw [hvr] at hle
      omega
    rcases List.mem_cons.1 hs with rfl | hs'
    · rcases List.mem_cons.1 ht with rfl | ht'
      · rfl
      · exact absurd he.symm (later t ht' hr.symm)
    · rcases List.mem_cons.1 ht with rfl | ht'
      · exact absurd he (later s hs' hr)
      · exact ih h hs' ht'

/-- No rule is registered twice for a region. -/
theorem nodup {ss : List Subrule} (h : Numbered ss) :
    (ss.map fun s => (s.region, s.body)).Nodup := by
  induction ss with
  | nil => exact .nil
  | cons s ss ih =>
    obtain ⟨-, hfresh, h⟩ := h
    rw [List.map_cons, List.nodup_cons]
    refine ⟨fun hs => ?_, ih h⟩
    obtain ⟨t, ht, heq⟩ := List.mem_map.1 hs
    exact hfresh t ht (congrArg Prod.fst heq) (congrArg Prod.snd heq)

/-- A region with a subrule has a first one. -/
theorem exists_first {ss : List Subrule} (h : Numbered ss) {s : Subrule} (hs : s ∈ ss) :
    ∃ t ∈ ss, t.region = s.region ∧ t.event = Subrule.eventName s.region 1 := by
  induction ss generalizing s with
  | nil => cases hs
  | cons u ss ih =>
    obtain ⟨hu, -, h⟩ := h
    -- some earlier subrule of the region, or `s` is its first
    have earlier : ∀ v ∈ ss, v.region = s.region →
        ∃ t ∈ u :: ss, t.region = s.region ∧ t.event = Subrule.eventName s.region 1 := by
      intro v hv hvr
      obtain ⟨t, ht, htr, hte⟩ := ih h hv
      exact ⟨t, List.mem_cons_of_mem _ ht, htr.trans hvr, hvr ▸ hte⟩
    rcases List.mem_cons.1 hs with rfl | hs
    · cases hf : ss.filter (·.region == s.region) with
      | nil => exact ⟨s, List.mem_cons_self, rfl, by rw [hu, hf]; rfl⟩
      | cons v vs =>
        have hv : v ∈ ss.filter (·.region == s.region) := hf ▸ List.mem_cons_self
        rw [List.mem_filter, beq_iff_eq] at hv
        exact earlier v hv.1 hv.2
    · exact earlier s hs rfl

end Numbered

/-! ### Sound registries -/

/-- The subrules are numbered, and their items are those that their events name. -/
structure Registry.Sound (r : Registry) : Prop where
  numbered : Numbered r.ledger.registered
  named : ∀ s ∈ r.ledger.registered, r.catalog.lookup s.event = some s.item

namespace Registry.Sound

theorem fresh (c : Catalog) : Sound ⟨c, .empty⟩ := ⟨trivial, List.forall_mem_nil _⟩

/-- Soundness is about the registered subrules and about what names name. -/
theorem extend {r r' : Registry} (h : r.Sound)
    (hreg : r'.ledger.registered = r.ledger.registered) (hcat : r.catalog.Extends r'.catalog) :
    r'.Sound := by
  refine ⟨hreg ▸ h.numbered, fun s hs => hcat _ _ (h.named s ?_)⟩
  rwa [← hreg]

theorem declareEvent {r : Registry} (h : r.Sound) (name : String) :
    (r.declareEvent name).2.Sound :=
  h.extend rfl (Catalog.extends_declareEvent _ _)

theorem registerSubrule {r : Registry} (h : r.Sound) (region : String) (body : Term) :
    (r.registerSubrule region body).2.Sound := by
  unfold Registry.registerSubrule
  split
  · exact h
  · next hnew =>
    obtain ⟨hnum, hnamed⟩ := h.declareEvent
      (region ++ " Subrule " ++ toString ((r.ledger.ofRegion region).length + 1))
    refine ⟨⟨rfl, ?_, hnum⟩, List.forall_mem_cons.2 ⟨?_, hnamed⟩⟩
    · rintro t ht rfl rfl
      rw [Ledger.find?, List.find?_eq_none] at hnew
      exact hnew t ht (by simp)
    · exact Catalog.lookup_declareEvent _ _

theorem stable : Registry.Stable Registry.Sound where
  declareEvent _ name h := h.declareEvent name
  registerSubrule _ region body h := h.registerSubrule region body

end Registry.Sound

theorem stable_extends (c : Catalog) : Registry.Stable (fun r => c.Extends r.catalog) where
  declareEvent _ _ h := h.trans (Catalog.extends_declareEvent _ _)
  registerSubrule r region body h := by
    unfold Registry.registerSubrule
    split
    · exact h
    · exact h.trans (Catalog.extends_declareEvent _ _)

/-! ### The registries of a world -/

/-- The registries that a world can come to have, from any catalog and an empty ledger
on: rules are resolved in it, in any lexicon and also when they fail, pending subrules
are taken out, and meanwhile items and events are declared and the rules of worlds with
other ledgers are resolved in the same catalog. -/
inductive Grown : Registry → Prop where
  | fresh (c : Catalog) : Grown ⟨c, .empty⟩
  | resolve {r : Registry} (lx : Lexicon) (term : Term) (h : Grown r) :
    Grown (Action.result (Rule.resolve lx term) r).2
  | takePending {r : Registry} (h : Grown r) : Grown { r with ledger := r.ledger.takePending.2 }
  | declareEvent {r : Registry} (name : String) (h : Grown r) : Grown (r.declareEvent name).2
  | declare {r : Registry} (d : ItemDef) (h : Grown r) :
    Grown { r with catalog := (r.catalog.declare d).2 }
  | elsewhere {r : Registry} (other : Ledger) (lx : Lexicon) (term : Term) (h : Grown r) :
    Grown { r with
      catalog := (Action.result (Rule.resolve lx term) ⟨r.catalog, other⟩).2.catalog }

/-- Registries stay sound, whatever is resolved or declared. -/
theorem Registry.Sound.grown {r : Registry} (h : Grown r) : r.Sound := by
  induction h with
  | fresh c => exact .fresh c
  | resolve lx term _ ih =>
    exact ((keeps_resolve (p := fun _ => true) stable rfl rfl term).run _ ih).1
  | takePending _ ih => exact ih.extend rfl (.refl _)
  | declareEvent name _ ih => exact ih.declareEvent name
  | declare d _ ih => exact ih.extend rfl (Catalog.extends_declare _ d)
  | elsewhere other lx term _ ih =>
    exact ih.extend rfl
      ((keeps_resolve (p := fun _ => true) (stable_extends _) rfl rfl term).run ⟨_, other⟩
        (.refl _)).1

/-! ### Distinct items -/

/-- When two subrules of a world have one item: the names of their regions have one
identifier form, and they have one number there. -/
theorem Registry.Sound.item_eq_iff {r : Registry} (h : r.Sound) {s t : Subrule}
    (hs : s ∈ r.ledger.registered) (ht : t ∈ r.ledger.registered) {m n : Nat}
    (hm : s.event = Subrule.eventName s.region m) (hn : t.event = Subrule.eventName t.region n) :
    s.item = t.item ↔ Name.escape s.region = Name.escape t.region ∧ m = n := by
  rw [Catalog.lookup_eq_iff (h.named s hs) (h.named t ht), hm, hn, escape_eventName_eq_iff]

/-- **Distinct subrules of a world have distinct items just when no two of its regions
with subrules have one identifier form.** -/
theorem distinct_items_iff {r : Registry} (h : Grown r) :
    (∀ s ∈ r.ledger.registered, ∀ t ∈ r.ledger.registered,
        (s.region, s.body) ≠ (t.region, t.body) → s.item ≠ t.item) ↔
      ∀ s ∈ r.ledger.registered, ∀ t ∈ r.ledger.registered,
        Name.escape s.region = Name.escape t.region → s.region = t.region := by
  have hr : r.Sound := .grown h
  constructor
  · intro distinct s hs t ht hescape
    refine Classical.byContradiction fun hne => ?_
    -- the first subrules of the two regions have one number, and so one item
    obtain ⟨s', hs', hsr, hse⟩ := hr.numbered.exists_first hs
    obtain ⟨t', ht', htr, hte⟩ := hr.numbered.exists_first ht
    refine distinct s' hs' t' ht' (fun h => hne ?_) ?_
    · rw [← hsr, ← htr]
      exact congrArg Prod.fst h
    · refine (hr.item_eq_iff hs' ht' (hsr.symm ▸ hse) (htr.symm ▸ hte)).2 ⟨?_, rfl⟩
      rw [hsr, htr, hescape]
  · intro regions s hs t ht hne hitem
    obtain ⟨m, hm, -⟩ := hr.numbered.exists_number hs
    obtain ⟨n, hn, -⟩ := hr.numbered.exists_number ht
    obtain ⟨hescape, rfl⟩ := (hr.item_eq_iff hs ht hm hn).1 hitem
    have hregion := regions s hs t ht hescape
    have heq := hr.numbered.eq_of_event_eq hs ht hregion (by rw [hm, hn, hregion])
    rw [heq] at hne
    exact hne rfl

/-- The registry after the rule `at("<region>", <item>)` of a world without templates. -/
def askedAt (region item : String) (r : Registry) : Registry :=
  (Action.result (resolve ⟨.plain, .empty, none⟩ (.call "at" [.str region, .name item])) r).2

/-- Rules for two regions whose names differ in punctuation. -/
def lakes : Registry := askedAt "(Lake)" "Hookshot" (askedAt "Lake" "Bow" ⟨.empty, .empty⟩)

/-- The two lakes count as two regions, so their subrules cannot all have items of their own. -/
theorem lakes_share_an_item :
    Grown lakes ∧
      ¬ ∀ s ∈ lakes.ledger.registered, ∀ t ∈ lakes.ledger.registered,
        (s.region, s.body) ≠ (t.region, t.body) → s.item ≠ t.item := by
  have grown : Grown lakes := .resolve _ _ (.resolve _ _ (.fresh .empty))
  refine ⟨grown, fun distinct => ?_⟩
  have hregions := (distinct_items_iff grown).1 distinct
  have registered : lakes.ledger.registered =
      [⟨"(Lake)", .name "Hookshot", "(Lake) Subrule 1", ⟨0⟩⟩,
        ⟨"Lake", .name "Bow", "Lake Subrule 1", ⟨0⟩⟩] := by decide
  rw [registered] at hregions
  have hlake := hregions _ List.mem_cons_self _ (List.mem_cons_of_mem _ List.mem_cons_self)
    (by decide)
  exact absurd hlake (by decide)

end Progression.Rule
