import Progression.Proofs.Additions
import Progression.Proofs.Fates

/-!
# The rules of subrules

Until a subrule is settled, its body is a term that has not been looked at.  It is lowered to
a rule at that moment, in the worlds as they are then.  If all goes well, each subrule that is
registered is settled once.  Its place gets its rule and keeps it, whatever is built upon the
worlds later, and if there is no place then the rule is the one that never holds.

The items of the events are new to the catalog, if they do not happen to have a name that is
known.  Then each of them counts as one copy of itself.

## Main definitions

* `Multiworld.compileGuards` — the rules to which a compilation lowers the subrules.
* `Multiworld.LowersTo` — a compilation lowers a subrule to one rule.
* `Multiworld.Ruled` — the internal locations have the rules of their subrules.
* `Catalog.GainsEvents` — what is new in a catalog are events.

## Main results

* `Multiworld.Guarded.compileRules` — the rules are accounted for, like the subrules.
* `Multiworld.ruledBy_of_compileRules` — **after a compilation that succeeds, and whatever is
  built upon it, the place of a subrule has the rule that its body was lowered to.**
* `Multiworld.event_of_compileRules` — the new items of a compilation are events.
-/

namespace Progression

open Rule

namespace Catalog

/-- What is new in a catalog are events, each under its own number, which can open rules and
count as themselves. -/
def GainsEvents (c c' : Catalog) : Prop :=
  ∀ id e, c.size ≤ id.index → c'.get? id = some e →
    e.id = id ∧ e.advancement = true ∧ e.countsAs = none

theorem GainsEvents.refl (c : Catalog) : c.GainsEvents c := by
  intro id e hid he
  rw [get?, Array.getElem?_eq_none hid] at he
  cases he

theorem GainsEvents.declareEvent {c c' : Catalog} (h : c.GainsEvents c') (name : String) :
    c.GainsEvents (c'.declareEvent name).2 := by
  unfold Catalog.declareEvent
  split
  · exact h
  · intro id e hid he
    rw [get?_add] at he
    split at he
    · next hnew =>
      cases he
      exact ⟨congrArg ItemId.mk hnew.symm, rfl, rfl⟩
    · exact h id e hid he

theorem stable_gainsEvents (c : Catalog) : Registry.Stable fun r => c.GainsEvents r.catalog where
  declareEvent _ name h := h.declareEvent name
  registerSubrule r region body h := by
    unfold Registry.registerSubrule
    split
    · exact h
    · exact h.declareEvent _

end Catalog

/-- What becomes of a subrule that is settled with a rule. -/
def Fate.ofGuard (guard : Guard) : Fate := if guard.isNever then .dropped else .placed

namespace Multiworld

/-! ### The rules of a compilation

They follow the work in which the subrules are settled, the latest first. -/

/-- The rules of the subrules of a world that are to get places one after another. -/
def settlingGuards (templates : Templates) (w : WorldId) :
    List Subrule → Multiworld → List (Task × Guard)
  | [], _ => []
  | s :: ss, m =>
    match (subruleResult templates ⟨w, s⟩ m).1, Action.result (settle templates w s) m with
    | .ok guard, (.ok _, m') => settlingGuards templates w ss m' ++ [(⟨w, s⟩, guard)]
    | _, _ => []

/-- The rules of the subrules that a number of rounds settle in a world. -/
def roundsGuards (templates : Templates) (w : WorldId) : Nat → Multiworld → List (Task × Guard)
  | 0, _ => []
  | rounds + 1, m =>
    let pending := (m.world w).ledger.pending
    if pending.isEmpty then []
    else
      let guards := settlingGuards templates w pending (m.emptied w)
      match Action.result (pending.forM (settle templates w)) (m.emptied w) with
      | (.ok _, m') => roundsGuards templates w rounds m' ++ guards
      | (.error _, _) => guards

/-- The rules of the subrules that such rounds settle in several worlds. -/
def worldsGuards (templates : Templates) (rounds : Nat) :
    List WorldId → Multiworld → List (Task × Guard)
  | [], _ => []
  | w :: ws, m =>
    let guards := roundsGuards templates w rounds m
    match Action.result (settleRounds templates w rounds) m with
    | (.ok true, m') => worldsGuards templates rounds ws m' ++ guards
    | (_, _) => guards

/-- The rules to which a compilation lowers the subrules that it settles. -/
def compileGuards (templates : Templates) (rounds : Nat) (m : Multiworld) :
    List (Task × Guard) :=
  match Action.result (compileSpots templates) m with
  | (.ok _, m') => worldsGuards templates rounds m'.worldIds m'
  | (.error _, _) => []

/-- A compilation lowers the body of a subrule to a rule, and to no other one. -/
def LowersTo (templates : Templates) (rounds : Nat) (m : Multiworld) (t : Task) (guard : Guard) :
    Prop :=
  ∀ guard', (t, guard') ∈ compileGuards templates rounds m ↔ guard' = guard

/-! ### Locations with the rules of subrules -/

section Rules

variable {templates : Templates} {m m' : Multiworld} {w : WorldId} {rounds : Nat}
  {hand : List Task} {guards : List (Task × Guard)}

/-- The subrules that have been settled have their regions, and each internal location is the
place of one of them, has its rule, and is listed by its world. -/
structure Ruled (m : Multiworld) (guards : List (Task × Guard)) : Prop where
  region : ∀ t guard, (t, guard) ∈ guards →
    ∃ r, m.regionNamed? t.world t.subrule.region = some r
  guard : ∀ id, (m.location id).internal = true →
    ∃ t, (t, (m.location id).guard) ∈ guards ∧ m.IsPlaceOf t id
  listed : ∀ id, (m.location id).internal = true →
    id ∈ (m.world (m.location id).world).locations

namespace Ruled

theorem undisturbed (h : Ruled m guards) (hm : Undisturbed m m') : Ruled m' guards where
  region t guard ht := by
    obtain ⟨r, hr⟩ := h.region t guard ht
    exact ⟨r, hm.region _ _ r hr⟩
  guard id hid := by
    rw [hm.internal] at hid
    obtain ⟨t, ht, hplace⟩ := h.guard id hid
    rw [hm.guard id hid]
    exact ⟨t, ht, hm.isPlaceOf hplace⟩
  listed id hid := by
    rw [hm.internal] at hid
    rw [(hm.spot id hid).world]
    exact hm.listed _ id (h.listed id hid)

/-- A subrule is settled without a place. -/
theorem drop (h : Ruled m guards) {t : Task} {r : RegionId}
    (hr : m.regionNamed? t.world t.subrule.region = some r) (guard : Guard) :
    Ruled m ((t, guard) :: guards) where
  region u guard' hu := by
    rcases List.mem_cons.1 hu with heq | hu
    · cases heq
      exact ⟨r, hr⟩
    · exact h.region u guard' hu
  guard id hid := by
    obtain ⟨u, hu, hplace⟩ := h.guard id hid
    exact ⟨u, List.mem_cons_of_mem _ hu, hplace⟩
  listed := h.listed

/-- A subrule is settled at a new location. -/
theorem place (h : Ruled m guards) (hm : m.WellFormed) {s : Subrule} {parent : RegionId}
    (hregion : m.regionNamed? w s.region = some parent) (guard : Guard) :
    Ruled (m.pushLocation (eventLocation w s parent guard)).2 ((⟨w, s⟩, guard) :: guards) := by
  have hlocation := location_pushLocation m (eventLocation w s parent guard)
  constructor
  case region =>
    intro u guard' hu
    rw [regionNamed_pushLocation]
    exact (h.drop hregion guard).region u guard' hu
  case guard =>
    intro id hid
    rw [hlocation] at hid ⊢
    split at hid
    · next hnew =>
      have hself : id = ⟨m.locations.size⟩ := congrArg LocationId.mk hnew
      rw [if_pos hnew, hself]
      exact ⟨⟨w, s⟩, List.mem_cons_self, isPlaceOf_eventLocation hregion⟩
    · next hold =>
      rw [if_neg hold]
      obtain ⟨u, hu, hplace⟩ := h.guard id hid
      exact ⟨u, List.mem_cons_of_mem _ hu, hplace.pushLocation _⟩
  case listed =>
    intro id hid
    rw [hlocation] at hid ⊢
    split at hid
    · next hnew =>
      have hself : id = ⟨m.locations.size⟩ := congrArg LocationId.mk hnew
      obtain ⟨hlt, hworld, -⟩ := hm.named _ _ _ hregion
      rw [if_pos hnew, hself]
      refine listed_pushLocation_self (l := eventLocation w s parent guard) ?_
      change w.index < m.worlds.size
      rw [← hworld]
      exact hm.region_world parent hlt
    · next hold =>
      rw [if_neg hold]
      exact listed_pushLocation _ (h.listed id hid)

end Ruled

/-! ### Accounts of all rules -/

/-- The registered subrules are accounted for by the rules to which the settled ones were
lowered, and the internal locations have these rules. -/
structure Guarded (m : Multiworld) (hand : List Task) (guards : List (Task × Guard)) : Prop where
  wellFormed : m.WellFormed
  accounted : Accounted m hand (guards.map fun p => (p.1, Fate.ofGuard p.2)) []
  ruled : Ruled m guards

/-- Lowering the body of a subrule leaves the internal locations alone. -/
theorem undisturbed_subruleResult (templates : Templates) (t : Task) (m : Multiworld) :
    Undisturbed m (subruleResult templates t m).2 := by
  have hcatalog : ∀ catalog book, Undisturbed m { m with catalog, book } :=
    fun _ _ => .of_parts (.of_worlds rfl rfl) rfl rfl
  exact (hcatalog _ _).trans (.modifyWorld _ t.world fun _ => ⟨rfl, rfl⟩)

theorem wellFormed_subruleResult (hm : m.WellFormed) (templates : Templates) (t : Task) :
    (subruleResult templates t m).2.WellFormed :=
  WellFormed.modifyWorld (hm.withCatalog _ _) t.world fun _ => ⟨rfl, rfl⟩

/-- Worlds in which nothing was compiled have no subrules and no internal locations. -/
theorem accounted_of_builtOn {c : Catalog} (hm : BuiltOn (.empty c) m) : Accounted m [] [] [] := by
  have hsame := hm.sameSubrules
  refine ⟨fun t => ?_, fun t ht => (nomatch ht), fun id hid => ?_⟩
  · rw [hsame.registered, hsame.pending]
    rfl
  · rw [hm.undisturbed.internal] at hid
    cases hid

namespace Guarded

theorem emptied (h : Guarded m [] guards) (w : WorldId) :
    Guarded (m.emptied w) ((m.world w).ledger.pending.map (Task.mk w)) guards where
  wellFormed := h.wellFormed.modifyWorld w fun _ => ⟨rfl, rfl⟩
  accounted := h.accounted.emptied w
  ruled := h.ruled.undisturbed (.modifyWorld m w fun _ => ⟨rfl, rfl⟩)

/-- **Every subrule that is settled is settled with the rule of its body.** -/
theorem settle {s : Subrule} {u : Unit} (h : Guarded m (⟨w, s⟩ :: hand) guards)
    (hs : Action.result (Progression.settle templates w s) m = (.ok u, m')) :
    ∃ guard, (subruleResult templates ⟨w, s⟩ m).1 = .ok guard ∧
      Guarded m' hand ((⟨w, s⟩, guard) :: guards) := by
  have haccounted := h.accounted.settle hs
  have hwellFormed : m'.WellFormed := by
    have hsettle : Keeps WellFormed (fun _ => True) (Progression.settle templates w s) :=
      keeps_settle w s
    have hkept := (hsettle.run m h.wellFormed).1
    rwa [hs] at hkept
  have hundisturbed := undisturbed_subruleResult templates ⟨w, s⟩ m
  have hlowered := wellFormed_subruleResult h.wellFormed templates ⟨w, s⟩
  rcases settle_cases templates [] ⟨w, s⟩ m with ⟨e, m₁, he, -⟩ |
    ⟨guard, m₁, parent, hcompile, -, hregion, hresult⟩
  · rw [he] at hs
    cases hs
  · rw [fateOf, hcompile] at haccounted
    rw [hcompile] at hundisturbed hlowered
    have hruled := h.ruled.undisturbed hundisturbed
    refine ⟨guard, by rw [hcompile], hwellFormed, haccounted, ?_⟩
    rw [hresult] at hs
    obtain ⟨-, rfl⟩ := Prod.mk.inj hs
    split
    · exact hruled.drop hregion guard
    · exact hruled.place hlowered hregion guard

theorem settleAll {ss : List Subrule} {u : Unit}
    (h : Guarded m (ss.map (Task.mk w)) guards)
    (hok : Action.result (ss.forM (Progression.settle templates w)) m = (.ok u, m')) :
    Guarded m' [] (settlingGuards templates w ss m ++ guards) := by
  induction ss generalizing m guards with
  | nil =>
    cases hok
    exact h
  | cons s ss ih =>
    change Action.result (Progression.settle templates w s >>= fun _ =>
      ss.forM (Progression.settle templates w)) m = _ at hok
    rw [Action.result_bind] at hok
    rw [settlingGuards]
    cases hs : Action.result (Progression.settle templates w s) m with
    | mk r m₁ =>
      rw [hs] at hok
      cases r with
      | error e => cases hok
      | ok u =>
        obtain ⟨guard, hguard, hnext⟩ := h.settle hs
        rw [hguard]
        dsimp only
        rw [List.append_assoc]
        exact ih hnext hok

theorem settleRounds {done : Bool} (h : Guarded m [] guards)
    (hok : Action.result (Progression.settleRounds templates w rounds) m = (.ok done, m')) :
    Guarded m' [] (roundsGuards templates w rounds m ++ guards) := by
  induction rounds generalizing m guards with
  | zero =>
    cases hok
    exact h
  | succ rounds ih =>
    rw [result_settleRounds_succ] at hok
    rw [roundsGuards]
    dsimp only
    split at hok
    · next hnil =>
      rw [if_pos hnil]
      rw [emptied_of_nil (List.isEmpty_iff.1 hnil)] at hok
      cases hok
      exact h
    · next hne =>
      rw [if_neg hne]
      cases hround : Action.result ((m.world w).ledger.pending.forM
          (Progression.settle templates w)) (m.emptied w) with
      | mk r m₁ =>
        rw [hround] at hok
        cases r with
        | error e => cases hok
        | ok u =>
          dsimp only
          rw [List.append_assoc]
          exact ih ((h.emptied w).settleAll hround) hok

theorem settleWorlds {ws : List WorldId} {done : Bool} (h : Guarded m [] guards)
    (hok : Action.result (Progression.settleWorlds templates rounds ws) m = (.ok done, m')) :
    Guarded m' [] (worldsGuards templates rounds ws m ++ guards) := by
  induction ws generalizing m guards with
  | nil =>
    cases hok
    exact h
  | cons w ws ih =>
    rw [Progression.settleWorlds, Action.result_bind] at hok
    rw [worldsGuards]
    cases hw : Action.result (Progression.settleRounds templates w rounds) m with
    | mk r m₁ =>
      rw [hw] at hok
      cases r with
      | error e => cases hok
      | ok settled =>
        have hnext := h.settleRounds hw
        cases settled with
        | false =>
          cases hok
          exact hnext
        | true =>
          dsimp only
          rw [List.append_assoc]
          exact ih hnext hok

/-- **The rules are accounted for, like the subrules**, where nothing was compiled before. -/
theorem compileRules {c : Catalog} {done : Bool} (hm : BuiltOn (.empty c) m)
    (hok : Action.result (Progression.compileRules templates rounds) m = (.ok done, m')) :
    Guarded m' [] (compileGuards templates rounds m) := by
  have haccounted := (accounted_of_builtOn hm).compileSpots templates
  have hspots : Keeps WellFormed (fun _ => True) (compileSpots templates) :=
    wellFormed_keptByCompiling.compileSpots
  have hwellFormed := hspots.run m (hm.built (.empty c)).wellFormed
  rw [result_compileRules] at hok
  rw [compileGuards]
  cases hresult : Action.result (compileSpots templates) m with
  | mk r m₁ =>
    rw [hresult] at hok haccounted hwellFormed
    cases r with
    | error e => cases hok
    | ok u =>
      -- no subrule is settled yet, so no location is internal
      have hnone : ∀ id, (m₁.location id).internal ≠ true := by
        intro id hid
        obtain ⟨t, ht, -⟩ := haccounted.place id hid
        cases ht
      have hruled : Ruled m₁ [] :=
        ⟨fun _ _ ht => (nomatch ht), fun id hid => absurd hid (hnone id),
          fun id hid => absurd hid (hnone id)⟩
      have hguarded : Guarded m₁ [] [] := ⟨hwellFormed.1, haccounted, hruled⟩
      have hall := hguarded.settleWorlds hok
      rwa [List.append_nil] at hall

end Guarded

/-! ### After a success -/

/-- The rule of a subrule in worlds in which it is settled, which its place has. -/
structure RuledBy (m : Multiworld) (t : Task) (guard : Guard) : Prop where
  region : ∃ r, m.regionNamed? t.world t.subrule.region = some r
  rule : ∀ id, m.IsPlaceOf t id → (m.location id).guard = guard
  listed : ∀ id, m.IsPlaceOf t id → id ∈ (m.world t.world).locations

/-- **After a compilation that succeeds, and whatever is built upon it, the place of a subrule
has the rule that its body was lowered to**, where nothing was compiled before.  Unless the
rule never holds there is a place, and the compilation put the item of the event there. -/
theorem ruledBy_of_compileRules {c : Catalog} {g : Multiworld} (hm : BuiltOn (.empty c) m)
    (hok : Action.result (compileRules templates rounds) m = (.ok true, m'))
    (hg : BuiltOn m' g) {s : Subrule} (hs : s ∈ (m'.world w).ledger.registered) :
    ∃ guard, LowersTo templates rounds m ⟨w, s⟩ guard ∧ g.RuledBy ⟨w, s⟩ guard ∧
      (guard.isNever = false →
        ∃ id, g.IsPlaceOf ⟨w, s⟩ id ∧ (m'.location id).item = some ⟨s.item, w⟩) := by
  have hbuilt := hm.built_of_compileRules hok
  have hguarded := Guarded.compileRules hm hok
  have hruled := hguarded.ruled.undisturbed hg.undisturbed
  have hregistered := hg.sameSubrules.registered
  have hnodup : ((compileGuards templates rounds m).map Prod.fst).Nodup := by
    have hfates := hguarded.accounted.nodup hbuilt.sound
    rwa [List.map_map] at hfates
  obtain ⟨f, hf⟩ := hguarded.accounted.exists_fate (pending_compileRules hok w) hs
  obtain ⟨⟨t, guard⟩, hmem, heq⟩ := List.mem_map.1 hf
  cases heq
  refine ⟨guard, fun guard' => ⟨fun hmem' => ?_, fun h => h ▸ hmem⟩, ?_, fun hnever => ?_⟩
  · exact congrArg Prod.snd (List.inj_on_of_nodup_map hnodup hmem' hmem rfl)
  · constructor
    case region => exact hruled.region _ guard hmem
    case rule =>
      intro id hplace
      obtain ⟨u, hu, huplace⟩ := hruled.guard id hplace.internal
      have hu_registered : u.subrule ∈ (m'.world u.world).ledger.registered :=
        hguarded.accounted.registered (List.mem_map_of_mem hu)
      rw [← hregistered] at hs hu_registered
      have hsame := hplace.unique (hg.built hbuilt).wellFormed (hg.built hbuilt).sound hs
        hu_registered huplace
      rw [← hsame] at hu
      exact congrArg Prod.snd (List.inj_on_of_nodup_map hnodup hu hmem rfl)
    case listed =>
      intro id hplace
      have hlisted := hruled.listed id hplace.internal
      rwa [hplace.world] at hlisted
  · have hplaced : (⟨w, s⟩, Fate.placed) ∈
        (compileGuards templates rounds m).map fun p => (p.1, Fate.ofGuard p.2) :=
      List.mem_map.2 ⟨_, hmem, by rw [Fate.ofGuard, hnever]; rfl⟩
    obtain ⟨id, hplace, hitem⟩ := hguarded.accounted.placed _ hplaced
    exact ⟨id, hg.undisturbed.isPlaceOf hplace, hitem List.not_mem_nil⟩

/-! ### The items of events -/

theorem keeps_catalog_compileAt {P : Catalog → Prop} {Q : Formula → Prop} {anchor : Anchor}
    {action : Lexicon → Resolve Formula}
    (haction : ∀ lx, Keeps (fun r : Registry => P r.catalog) Q (action lx)) :
    Keeps (fun m : Multiworld => P m.catalog) (fun _ => True)
      (compileAt templates w anchor action) := by
  refine ⟨fun m hm => ⟨?_, fun _ _ => trivial⟩⟩
  rw [result_compileAt]
  change P (Workshop.compile _ _).2.registry.catalog
  rw [registry_compile]
  exact ((haction _).run _ hm).1

section Catalogs

variable {P : Catalog → Prop} (hP : Registry.Stable fun r => P r.catalog)
include hP

/-- A compilation keeps what declaring events and registering subrules keep of the catalog. -/
theorem catalog_keptByCompiling : KeptByCompiling fun m => P m.catalog where
  connectExit id := by
    refine .bind .get fun m hm => ?_
    dsimp only
    split
    · exact .throw _
    · exact .set hm
  compileExit templates id := by
    refine .bind .get fun m _ => ?_
    refine .bind (keeps_catalog_compileAt fun lx =>
      keeps_resolveText (p := fun _ => true) hP rfl rfl _) fun guard _ => ?_
    exact .modifyGet fun m hm => ⟨hm, trivial⟩
  compileLocation templates id := by
    refine .bind .get fun m _ => ?_
    refine .bind (keeps_catalog_compileAt fun lx =>
      keeps_resolveText (p := fun _ => true) hP rfl rfl _) fun guard _ => ?_
    exact .modifyGet fun m hm => ⟨hm, trivial⟩

theorem catalog_keptBySettling : KeptBySettling fun m => P m.catalog where
  takePending w := by
    refine .bind .get fun m _ => ?_
    refine .bind (Q := fun _ => True) (.modifyGet fun m hm => ⟨hm, trivial⟩) fun _ _ => ?_
    exact .pure trivial
  settle templates w s := by
    refine .bind .get fun m _ => ?_
    split
    · exact .throw _
    · refine .bind (keeps_catalog_compileAt fun lx =>
        keeps_resolve (p := fun _ => true) hP rfl rfl s.body) fun guard _ => ?_
      split
      · exact .pure trivial
      · exact .modifyGet fun m hm => ⟨hm, trivial⟩

end Catalogs

/-- The new items of a compilation are events, which can open rules and count as themselves. -/
theorem event_of_compileRules {done : Bool} (hm : m.Built)
    (hok : Action.result (compileRules templates rounds) m = (.ok done, m')) {s : Subrule}
    (hs : s ∈ (m'.world w).ledger.registered) (hnew : m.catalog.size ≤ s.item.index) :
    ∃ e, m'.catalog.get? s.item = some e ∧ e.advancement = true ∧
      Inventory.worth e = (s.item, 1) := by
  have hstable := Catalog.stable_gainsEvents m.catalog
  have hkept : Keeps (fun m' : Multiworld => m.catalog.GainsEvents m'.catalog) (fun _ => True)
      (compileRules templates rounds) :=
    keeps_compileRules (catalog_keptByCompiling hstable) (catalog_keptBySettling hstable) rounds
  have hgains := (hkept.run m (.refl _)).1
  have hbuilt := hm.compileRules templates rounds
  rw [hok] at hgains hbuilt
  obtain ⟨e, he, -⟩ := Catalog.lookup_eq_some ((hbuilt.sound w).named s hs)
  obtain ⟨hid, hadvancement, hcounts⟩ := hgains s.item e hnew he
  refine ⟨e, he, hadvancement, ?_⟩
  rw [Inventory.worth, hcounts, hid]
  rfl

end Rules

end Multiworld

end Progression
