import Mathlib.Data.List.Perm.Subperm
import Progression.Proofs.Exploration
import Progression.Proofs.Growing
import Progression.Proofs.Orderly

/-!
# Foraging

To forage is to expand, to try candidates, and to collect at the locations that are visited,
at each of them once, in any order.  If further items keep all rules true, then nothing that
is found by foraging is missed by a search that has come to an end, because its items are at
least those that led there.  So any two searches that have come to an end have visited the
same locations, and as the order in which items are collected does not matter, they hold the
same items.

## Main definitions

* `Multiworld.receive`, `Multiworld.gather` — what collecting an item, or at a location, does to
  the inventories.
* `Search.Richer` — the same search with at least as many items.
* `Search.Forages` — what a search can come to by expanding, visiting and collecting.
* `Search.Exhausted` — nothing further opens, and no further candidate is accessible.

## Main results

* `Multiworld.gathered_perm` — the order in which items are collected does not matter.
* `Search.Forages.accessible` — what was visited is accessible in the end.
* `Search.Forages.within` — **an exhausted search has found what any other one finds.**
* `Search.Forages.agree` — **two exhausted searches agree.**
-/

namespace Progression

open Rule

/-! ### Items in any order -/

/-- Take an item in for its world, but no boss key with it. -/
def Multiworld.receive (g : Multiworld) (item : PlacedItem) (invs : Array Inventory) :
    Array Inventory :=
  match g.catalog.get? item.id with
  | some entry => invs.modify item.world.index fun inv => inv.gain entry
  | none => invs

/-- Take in the item of a location, if it holds one, but no boss key with it. -/
def Multiworld.gather (g : Multiworld) (id : LocationId) (invs : Array Inventory) :
    Array Inventory :=
  match (g.location id).item with
  | some item =>
    match g.catalog.get? item.id with
    | some entry => invs.modify item.world.index fun inv => inv.gain entry
    | none => invs
  | none => invs

/-- No inventory has a key ring that comes with a boss key. -/
def Keyless (invs : Array Inventory) : Prop := ∀ w, (inventoryOf invs w).bearings.keyRings = []

theorem Keyless.of_atMost {invs invs' : Array Inventory} (hk : Keyless invs)
    (h : StockAtMost invs invs') : Keyless invs' := by
  intro w
  rw [← (h w).bearings]
  exact hk w

theorem inventoryOf_modify (invs : Array Inventory) (i : Nat) (f : Inventory → Inventory)
    (w : WorldId) : inventoryOf (invs.modify i f) w =
      if i = w.index ∧ w.index < invs.size then f (inventoryOf invs w) else inventoryOf invs w :=
  Multiworld.getD_modify invs f i w.index default

/-- Changes that commute may be made in any order. -/
theorem modify_comm {α : Type} (xs : Array α) (i j : Nat) {f h : α → α}
    (hcomm : ∀ x, f (h x) = h (f x)) :
    (xs.modify i f).modify j h = (xs.modify j h).modify i f := by
  refine Array.ext (by simp) fun k _ _ => ?_
  simp only [Array.getElem_modify]
  split <;> split <;> simp [hcomm]

namespace Multiworld

variable {g : Multiworld} {invs : Array Inventory}

theorem gather_eq_receive (g : Multiworld) (id : LocationId) (invs : Array Inventory) :
    g.gather id invs = (g.location id).item.elim invs fun item => g.receive item invs := by
  unfold gather
  cases (g.location id).item <;> rfl

theorem receive_comm (g : Multiworld) (item item' : PlacedItem) (invs : Array Inventory) :
    g.receive item (g.receive item' invs) = g.receive item' (g.receive item invs) := by
  unfold receive
  split
  · split
    · exact modify_comm invs _ _ fun inv => Inventory.gain_comm inv _ _
    · rfl
  · rfl

theorem gather_comm (g : Multiworld) (id id' : LocationId) (invs : Array Inventory) :
    g.gather id (g.gather id' invs) = g.gather id' (g.gather id invs) := by
  simp only [gather_eq_receive]
  cases (g.location id).item with
  | none => rfl
  | some item =>
    cases (g.location id').item with
    | none => rfl
    | some item' => exact receive_comm g item item' invs

instance (g : Multiworld) : LeftCommutative g.gather := ⟨g.gather_comm⟩

/-- **The order in which items are collected does not matter.** -/
theorem gathered_perm {ids ids' : List LocationId} (h : ids.Perm ids') :
    ids.foldr g.gather invs = ids'.foldr g.gather invs :=
  h.foldr_eq invs

theorem stockAtMost_receive (g : Multiworld) (item : PlacedItem) (invs : Array Inventory) :
    StockAtMost invs (g.receive item invs) := by
  unfold receive
  split
  · intro w
    rw [inventoryOf_modify]
    split
    · exact Inventory.atMost_gain _ _
    · exact .refl _
  · exact .refl invs

theorem stockAtMost_gather (g : Multiworld) (id : LocationId) (invs : Array Inventory) :
    StockAtMost invs (g.gather id invs) := by
  rw [gather_eq_receive]
  cases (g.location id).item with
  | none => exact .refl invs
  | some item => exact stockAtMost_receive g item invs

theorem stockAtMost_gathered (g : Multiworld) (ids : List LocationId) (invs : Array Inventory) :
    StockAtMost invs (ids.foldr g.gather invs) := by
  induction ids with
  | nil => exact .refl invs
  | cons id ids ih => exact ih.trans (stockAtMost_gather g id _)

@[simp] theorem size_receive (g : Multiworld) (item : PlacedItem) (invs : Array Inventory) :
    (g.receive item invs).size = invs.size := by
  unfold receive
  split
  · exact Array.size_modify
  · rfl

@[simp] theorem size_gather (g : Multiworld) (id : LocationId) (invs : Array Inventory) :
    (g.gather id invs).size = invs.size := by
  rw [gather_eq_receive]
  cases (g.location id).item with
  | none => rfl
  | some item => exact size_receive g item invs

theorem size_gathered (g : Multiworld) (ids : List LocationId) (invs : Array Inventory) :
    (ids.foldr g.gather invs).size = invs.size := by
  induction ids with
  | nil => rfl
  | cons id ids ih => rw [List.foldr_cons, size_gather, ih]

theorem receive_mono {invs' : Array Inventory} (h : StockAtMost invs invs')
    (hsize : invs'.size = invs.size) (item : PlacedItem) :
    StockAtMost (g.receive item invs) (g.receive item invs') := by
  unfold receive
  split
  · intro w
    rw [inventoryOf_modify, inventoryOf_modify, hsize]
    split
    · exact (h w).gain _
    · exact h w
  · exact h

theorem gathered_mono {invs' : Array Inventory} (h : StockAtMost invs invs')
    (hsize : invs'.size = invs.size) (ids : List LocationId) :
    StockAtMost (ids.foldr g.gather invs) (ids.foldr g.gather invs') := by
  induction ids with
  | nil => exact h
  | cons id ids ih =>
    rw [List.foldr_cons, List.foldr_cons, gather_eq_receive, gather_eq_receive]
    cases (g.location id).item with
    | none => exact ih
    | some item => exact receive_mono ih (by rw [size_gathered, size_gathered, hsize]) item

/-- More locations hold at least as much. -/
theorem gathered_of_subset {ids ids' : List LocationId} (hnodup : ids.Nodup) (h : ids ⊆ ids') :
    StockAtMost (ids.foldr g.gather invs) (ids'.foldr g.gather invs) := by
  obtain ⟨part, hpart, hsub⟩ := hnodup.subperm h
  obtain ⟨more, hmore⟩ := hsub.exists_perm_append
  rw [gathered_perm (hmore.trans List.perm_append_comm), List.foldr_append, gathered_perm hpart]
  exact stockAtMost_gathered g more _

end Multiworld

namespace Search

variable {g : Multiworld} {ids : List LocationId} {s t : Search}

/-- Without boss keys, collecting an item is taking it in. -/
theorem inventories_collect (hk : Keyless s.inventories) (item : PlacedItem) :
    (s.collect g item).inventories = g.receive item s.inventories := by
  simp only [collect, withItem, Multiworld.receive]
  cases g.catalog.get? item.id with
  | none => rfl
  | some entry =>
    refine Array.ext (by simp) fun i hi _ => ?_
    simp only [Array.getElem_modify]
    split
    · have hkey := hk ⟨i⟩
      rw [Array.size_modify] at hi
      have hinv : inventoryOf s.inventories ⟨i⟩ = s.inventories[i] := by
        simp [inventoryOf, Array.getD, hi]
      rw [hinv] at hkey
      exact Inventory.collect_eq_gain hkey entry
    · rfl

theorem stockAtMost_collectItem (hk : Keyless s.inventories) (item : PlacedItem) :
    StockAtMost s.inventories (s.collect g item).inventories := by
  rw [inventories_collect hk]
  exact Multiworld.stockAtMost_receive g item _

/-- Without boss keys, collecting at a location is gathering. -/
theorem inventories_collectAt (hk : Keyless s.inventories) (id : LocationId) :
    (s.collectAt g id).inventories = g.gather id s.inventories := by
  rw [Multiworld.gather_eq_receive]
  unfold collectAt
  cases (g.location id).item with
  | none => rfl
  | some item => exact inventories_collect hk item

/-! ### Trying a location -/

theorem Recalls.regions_eq (h : Recalls g s t) (age : Age) : t.regions age = s.regions age := by
  ext r
  change (t.progress.reached age).contains r = true ↔ (s.progress.reached age).contains r = true
  rw [(h.reached age).contains]

theorem accessible_fst {id : LocationId} (h : (g.location id).guard.formula.timeless = true)
    (age : Age) : (s.accessible g id age).1 = true ↔
      (g.location id).parent ∈ s.regions age ∧
        (g.location id).passesAt s.inventories age = true := by
  have hrule : (s.evaluate g age .none (g.location id).post).1 =
      (g.location id).passesAt s.inventories age :=
    evaluate_eq_holdsAt h _
  unfold accessible
  dsimp only
  split
  · next hr => rw [hrule, and_iff_right (show _ ∈ s.regions age from hr)]
  · next hr => exact iff_of_false Bool.false_ne_true fun h => hr h.1

/-- A location is visited when its rule holds as an age that has reached its region. -/
theorem tryVisit_iff (hg : g.WellFormed) (hs : s.Distinct) {id : LocationId}
    (h : (g.location id).guard.formula.timeless = true) :
    (s.tryVisit g id).1 = true ↔ id ∉ s.progress.visited ∧
      ∃ age, (g.location id).parent ∈ s.regions age ∧
        (g.location id).passesAt s.inventories age = true := by
  rw [tryVisit_fst, anyAge_fst hg hs, Bool.and_eq_true, Bool.or_eq_true, accessible_fst h,
    accessible_fst h, Bool.not_eq_true', visited, decide_eq_false_iff_not]
  refine and_congr_right fun _ => ⟨?_, ?_⟩
  · rintro (h | h)
    · exact ⟨.adult, h⟩
    · exact ⟨.child, h⟩
  · rintro ⟨age, h⟩
    cases age
    · exact .inr h
    · exact .inl h

theorem visited_tryVisit (g : Multiworld) (id : LocationId) (s : Search) :
    (s.tryVisit g id).2.progress.visited =
      if (s.tryVisit g id).1 then id :: s.progress.visited else s.progress.visited := by
  have hasked := visited_anyAge g id s
  unfold tryVisit
  split
  · rfl
  · next hv =>
    dsimp only
    split
    · change (Progress.visit _ id).visited = _
      rw [Progress.visit, hasked, if_neg (by simpa [visited] using hv)]
      rfl
    · exact hasked

/-- Trying a location changes neither the inventories nor what is reached. -/
theorem tryVisit_spec (hg : g.WellFormed) (hs : s.Distinct) (id : LocationId) :
    (s.tryVisit g id).2.inventories = s.inventories ∧
      ∀ age, (s.tryVisit g id).2.regions age = s.regions age := by
  have hasked := recalls_anyAge hg hs id
  unfold tryVisit
  split
  · exact ⟨rfl, fun _ => rfl⟩
  · dsimp only
    split
    · refine ⟨hasked.inventories, fun age => ?_⟩
      rw [← hasked.regions_eq age]
      ext r
      change ((Progress.visit _ id).frontier age).reached.contains r = true ↔ _
      rw [Progress.frontier_visit]
      rfl
    · exact ⟨hasked.inventories, hasked.regions_eq⟩

/-! ### Foraging -/

/-- The same search, but with at least as many items. -/
structure Richer (s s' : Search) : Prop where
  progress : s'.progress = s.progress
  stock : StockAtMost s.inventories s'.inventories
  size : s'.inventories.size = s.inventories.size

theorem Richer.refl (s : Search) : Richer s s := ⟨rfl, .refl _, rfl⟩

/-- What a search can come to from `s` by expanding, trying candidates, and collecting at
locations that it has visited, at each of them once.  The list has those at which it
collected, the latest first. -/
inductive Forages (g : Multiworld) (ids : List LocationId) (s : Search) :
    List LocationId → Search → Prop where
  | start : Forages g ids s [] s
  | nextSphere {taken : List LocationId} {t : Search} (h : Forages g ids s taken t) :
    Forages g ids s taken (t.nextSphere g)
  | tryVisit {taken : List LocationId} {t : Search} {id : LocationId} (hid : id ∈ ids)
    (h : Forages g ids s taken t) : Forages g ids s taken (t.tryVisit g id).2
  | collectAt {taken : List LocationId} {t : Search} {id : LocationId}
    (hvisited : id ∈ t.progress.visited) (hid : id ∉ taken) (h : Forages g ids s taken t) :
    Forages g ids s (id :: taken) (t.collectAt g id)

namespace Forages

variable {taken : List LocationId}

/-- Further candidates need not be tried. -/
theorem mono {ids' : List LocationId} (hids : ids ⊆ ids') (h : Forages g ids s taken t) :
    Forages g ids' s taken t := by
  induction h with
  | start => exact .start
  | nextSphere _ ih => exact ih.nextSphere
  | tryVisit hid _ ih => exact ih.tryVisit (hids hid)
  | collectAt hvisited hid _ ih => exact ih.collectAt hvisited hid

theorem run (h : Forages g ids s taken t) : Run g s t := by
  induction h with
  | start => exact .refl
  | nextSphere _ ih => exact ih.nextSphere
  | tryVisit _ _ ih => exact ih.tryVisit _
  | collectAt _ _ _ ih => exact ih.collectAt _

theorem nodup (h : Forages g ids s taken t) : taken.Nodup := by
  induction h with
  | start => exact .nil
  | nextSphere _ ih => exact ih
  | tryVisit _ _ ih => exact ih
  | collectAt _ hid _ ih => exact List.nodup_cons.2 ⟨hid, ih⟩

/-- What was collected was visited. -/
theorem taken_subset (h : Forages g ids s taken t) : taken ⊆ t.progress.visited := by
  induction h with
  | start => exact List.nil_subset _
  | nextSphere _ ih => rwa [visited_nextSphere]
  | @tryVisit _ t id _ _ ih =>
    have hsuffix := (Run.tryVisit (g := g) (s := t) id .refl).visited_suffix
    exact List.Subset.trans ih hsuffix.subset
  | collectAt hvisited _ _ ih =>
    rw [progress_collectAt]
    exact List.cons_subset.2 ⟨hvisited, ih⟩

/-- Only candidates are visited. -/
theorem visited_subset (hvisited : s.progress.visited = [])
    (h : Forages g ids s taken t) : t.progress.visited ⊆ ids := by
  induction h with
  | start => exact hvisited ▸ List.nil_subset ids
  | nextSphere _ ih => rwa [visited_nextSphere]
  | tryVisit hid _ ih =>
    rw [visited_tryVisit]
    split
    · exact List.cons_subset.2 ⟨hid, ih⟩
    · exact ih
  | collectAt _ _ _ ih => rwa [progress_collectAt]

/-- The inventories have what was collected, in whatever order. -/
theorem inventories_eq (hg : g.WellFormed) (hs : s.progress.Sound g)
    (hk : Keyless s.inventories) (h : Forages g ids s taken t) :
    t.inventories = taken.foldr g.gather s.inventories := by
  induction h with
  | start => rfl
  | nextSphere _ ih => exact ih
  | tryVisit _ h ih =>
    have hdistinct : Distinct _ := fun age => (h.run.sound hg hs age).distinct
    rw [(tryVisit_spec hg hdistinct _).1, ih]
  | @collectAt taken t id _ _ _ ih =>
    have hkeyless : Keyless t.inventories := by
      rw [ih]
      exact hk.of_atMost (g.stockAtMost_gathered taken _)
    rw [inventories_collectAt hkeyless, ih, List.foldr_cons]

theorem keyless (hg : g.WellFormed) (hs : s.progress.Sound g) (hk : Keyless s.inventories)
    (h : Forages g ids s taken t) : Keyless t.inventories := by
  rw [h.inventories_eq hg hs hk]
  exact hk.of_atMost (g.stockAtMost_gathered taken _)

/-- Collecting with more items at the start, and at more of the locations, gives at least as
much. -/
theorem stockAtMost (hg : g.WellFormed) (hs : s.progress.Sound g) (hk : Keyless s.inventories)
    {s' t' : Search} (hricher : Richer s s') {taken' : List LocationId}
    (h : Forages g ids s taken t) (h' : Forages g ids s' taken' t') (hsub : taken ⊆ taken') :
    StockAtMost t.inventories t'.inventories := by
  have hs' : s'.progress.Sound g := by
    rw [hricher.progress]
    exact hs
  rw [h.inventories_eq hg hs hk, h'.inventories_eq hg hs' (hk.of_atMost hricher.stock)]
  exact (Multiworld.gathered_mono hricher.stock hricher.size taken).trans
    (Multiworld.gathered_of_subset h.nodup hsub)

/-- **What was visited is accessible in the end**, as more items open no less. -/
theorem accessible (hg : g.WellFormed) (hrules : g.Growing) (hs : s.progress.Sound g)
    (hk : Keyless s.inventories) (hvisited : s.progress.visited = [])
    (h : Forages g ids s taken t) (hfit : StockFits t.inventories) {id : LocationId}
    (hid : id ∈ t.progress.visited) :
    ∃ age, (g.location id).parent ∈ t.regions age ∧
      (g.location id).passesAt t.inventories age = true := by
  induction h with
  | start =>
    rw [hvisited] at hid
    cases hid
  | nextSphere h ih =>
    rw [visited_nextSphere] at hid
    obtain ⟨age, hr, hp⟩ := ih hfit hid
    exact ⟨age, regions_subset_nextSphere g _ age hr, hp⟩
  | @tryVisit taken t l hl h ih =>
    have hdistinct : t.Distinct := fun age => (h.run.sound hg hs age).distinct
    obtain ⟨hinventories, hregions⟩ := tryVisit_spec hg hdistinct l
    rw [hinventories] at hfit
    simp only [hinventories, hregions]
    rw [visited_tryVisit] at hid
    split at hid
    · next htry =>
      rcases List.mem_cons.1 hid with rfl | hid
      · exact ((tryVisit_iff hg hdistinct (hrules.location_timeless _)).1 htry).2
      · exact ih hfit hid
    · exact ih hfit hid
  | @collectAt taken t l hl hnew h ih =>
    rw [progress_collectAt] at hid
    have hatmost : StockAtMost t.inventories (t.collectAt g l).inventories := by
      rw [inventories_collectAt (h.keyless hg hs hk)]
      exact g.stockAtMost_gather l _
    obtain ⟨age, hr, hp⟩ := ih (hatmost.fits hfit) hid
    refine ⟨age, ?_, hrules.location_passesAt hatmost hfit hp⟩
    rw [regions, progress_collectAt]
    exact hr

end Forages

/-! ### Exhausted searches -/

/-- Nothing opens that is not reached, and no candidate is accessible that is not visited. -/
structure Exhausted (g : Multiworld) (ids : List LocationId) (s : Search) : Prop where
  regions : ∀ age, g.ClosedUnderExits s.inventories age (s.regions age)
  locations : ∀ id ∈ ids, ∀ age, (g.location id).parent ∈ s.regions age →
    (g.location id).passesAt s.inventories age = true → id ∈ s.progress.visited

theorem Exhausted.recalls (h : Exhausted g ids s) (hst : Recalls g s t) : Exhausted g ids t where
  regions age := by
    rw [hst.inventories, hst.regions_eq]
    exact h.regions age
  locations id hid age := by
    rw [hst.inventories, hst.regions_eq, hst.visited]
    exact h.locations id hid age

theorem Exhausted.of_subset {ids' : List LocationId} (h : Exhausted g ids s) (hids : ids' ⊆ ids) :
    Exhausted g ids' s where
  regions := h.regions
  locations id hid := h.locations id (hids hid)

/-- Where an exploration ends, everything is exhausted. -/
theorem exhausted_explore (hg : g.WellFormed) (hrules : g.Growing) (hs : s.progress.Sound g)
    (manner : Manner) (ids : List LocationId) :
    Exhausted g ids (s.explore g manner ids none).2 := by
  obtain ⟨u, hu, hnil, hlast⟩ := explore_last g manner ids rfl s
  have hsound := hu.sound hg hs
  have hdistinct : (u.nextSphere g).Distinct :=
    fun age => (hu.nextSphere.sound hg hs age).distinct
  have hunvisitable := unvisitable_of_sweep hg hdistinct hnil
  have hnext : Exhausted g ids (u.nextSphere g) := by
    refine ⟨closedUnderExits_nextSphere hg hrules.exit_timeless hsound, fun id hid age hr hp => ?_⟩
    by_contra hn
    have htry := (tryVisit_iff hg hdistinct (hrules.location_timeless id)).2 ⟨hn, age, hr, hp⟩
    rw [hunvisitable id hid] at htry
    cases htry
  rw [← hlast]
  exact hnext.recalls (sweep_of_unvisitable hg manner hdistinct hunvisitable).2

/-- **An exhausted search that has collected at all that it visited has found what any other
search can find by foraging from the same start** with the same items or fewer. -/
theorem Forages.within (hg : g.WellFormed) (hrules : g.Growing) (hs : s.progress.Sound g)
    (hk : Keyless s.inventories) {s' u : Search} (hricher : Richer s s')
    (hu : Forages g ids s' u.progress.visited u) (hend : Exhausted g ids u)
    (hfit : StockFits u.inventories) {taken : List LocationId} (h : Forages g ids s taken t) :
    (∀ age, t.regions age ⊆ u.regions age) ∧ t.progress.visited ⊆ u.progress.visited := by
  -- while it has visited no more, it has collected no more, so no more opens for it
  have hatmost : ∀ {taken t}, Forages g ids s taken t →
      t.progress.visited ⊆ u.progress.visited → StockAtMost t.inventories u.inventories :=
    fun h hsub => h.stockAtMost hg hs hk hricher hu (List.Subset.trans h.taken_subset hsub)
  induction h with
  | start =>
    have hgrows := hu.run.grows
    rw [hricher.progress] at hgrows
    exact ⟨fun age r hr => (hgrows.reached age).contains r hr, hgrows.visited⟩
  | nextSphere h ih =>
    refine ⟨fun age => ?_, by rw [visited_nextSphere]; exact ih.2⟩
    have hclosed := (hend.regions age).of_atMost hrules.exits (hatmost h ih.2) hfit
    exact regions_nextSphere_subset hg hrules.exit_timeless (h.run.sound hg hs) hclosed (ih.1 age)
  | @tryVisit taken t id hid h ih =>
    have hdistinct : t.Distinct := fun age => (h.run.sound hg hs age).distinct
    obtain ⟨-, hregions⟩ := tryVisit_spec hg hdistinct id
    refine ⟨fun age => by rw [hregions]; exact ih.1 age, ?_⟩
    rw [visited_tryVisit]
    split
    · next htry =>
      obtain ⟨-, age, hr, hp⟩ :=
        (tryVisit_iff hg hdistinct (hrules.location_timeless id)).1 htry
      have hopen := hrules.location_passesAt (hatmost h ih.2) hfit hp
      exact List.cons_subset.2 ⟨hend.locations id hid age (ih.1 age hr) hopen, ih.2⟩
    · exact ih.2
  | collectAt _ _ _ ih =>
    refine ⟨fun age => ?_, ?_⟩
    · unfold regions
      rw [progress_collectAt]
      exact ih.1 age
    · rw [progress_collectAt]
      exact ih.2

/-- **Two exhausted searches from the same start agree**: they have visited the same
locations, reached the same regions, and hold the same items. -/
theorem Forages.agree (hg : g.WellFormed) (hrules : g.Growing) (hs : s.progress.Sound g)
    (hnodup : s.progress.visited.Nodup) (hk : Keyless s.inventories)
    (ht : Forages g ids s t.progress.visited t) (htend : Exhausted g ids t)
    (hfit : StockFits t.inventories) {u : Search} (hu : Forages g ids s u.progress.visited u)
    (huend : Exhausted g ids u) :
    (∀ l, l ∈ u.progress.visited ↔ l ∈ t.progress.visited) ∧
      (∀ age, u.regions age = t.regions age) ∧ u.inventories = t.inventories := by
  obtain ⟨hregions, hut⟩ := within hg hrules hs hk (.refl s) ht htend hfit hu
  have hufit := (hu.stockAtMost hg hs hk (.refl s) ht hut).fits hfit
  obtain ⟨hregions', htu⟩ := within hg hrules hs hk (.refl s) hu huend hufit ht
  have hsame : ∀ l, l ∈ u.progress.visited ↔ l ∈ t.progress.visited :=
    fun l => ⟨fun h => hut h, fun h => htu h⟩
  refine ⟨hsame, fun age => Set.Subset.antisymm (hregions age) (hregions' age), ?_⟩
  rw [hu.inventories_eq hg hs hk, ht.inventories_eq hg hs hk]
  exact Multiworld.gathered_perm
    ((List.perm_ext_iff_of_nodup (hu.run.visited_nodup hnodup)
      (ht.run.visited_nodup hnodup)).2 hsame)

end Search

end Progression
