import Progression.Proofs.Frontiers
import Progression.Search.Rewind
import Progression.Search.Spheres

/-!
# Runs of a search

A search is expanded, put questions to, and told which items are collected and which
locations are visited, in any order; it may be rewound to earlier progress.  Everything
else that a search does is made of these steps.

## Main definitions

* `Search.Run` — what a search can come to by steps.
* `Rewindable.Reachable` — what a rewindable search can come to from a start.
* `Progress.Sound` — both frontiers hang together.
* `Search.FrontierInvariant` — what expanding and remembering keep of a frontier.
* `Search.Stalled` — a further expansion finds nothing.

## Main results

* `Search.Run.keeps`, `Rewindable.Reachable.keeps` — what expanding and remembering keep of a
  frontier is kept.
* `Rewindable.Reachable.sound` — **the progress of every reachable search hangs together.**
* `Search.stalled_iff` — a search is stalled just when all queued exits are blocked.
-/

namespace Progression

open Rule

namespace Progress

/-- Both frontiers hang together. -/
def Sound (g : Multiworld) (p : Progress) : Prop :=
  ∀ age, Explored g (p.frontier age).queue (p.frontier age).reached

@[simp] theorem frontier_visit (p : Progress) (id : LocationId) (age : Age) :
    (p.visit id).frontier age = p.frontier age := by
  unfold visit
  split
  · rfl
  · cases age <;> rfl

theorem frontier_setFrontier (p : Progress) (age age' : Age) (f : Frontier) :
    (p.setFrontier age f).frontier age' = if age = age' then f else p.frontier age' := by
  cases age <;> cases age' <;> rfl

end Progress

namespace Search

/-! ### Steps -/

/-- What a search can come to by steps. -/
inductive Run (g : Multiworld) (s : Search) : Search → Prop where
  | refl : Run g s s
  | nextSphere {t : Search} (h : Run g s t) : Run g s (t.nextSphere g)
  | evaluate {t : Search} (age : Age) (times : TimeOfDay) (p : Post) (h : Run g s t) :
    Run g s (t.evaluate g age times p).2
  | reachableAt {t : Search} (age : Age) (region : RegionId) (times : TimeOfDay)
    (h : Run g s t) : Run g s (t.reachableAt g age region times).2
  | collect {t : Search} (item : PlacedItem) (h : Run g s t) : Run g s (t.collect g item)
  | uncollect {t : Search} (item : PlacedItem) (h : Run g s t) : Run g s (t.uncollect g item)
  | visit {t : Search} (id : LocationId) (h : Run g s t) : Run g s (t.visit id)

section Composite

variable {g : Multiworld} {s t : Search}

theorem Run.trans {u : Search} (h : Run g s t) (h' : Run g t u) : Run g s u := by
  induction h' with
  | refl => exact h
  | nextSphere _ ih => exact ih.nextSphere
  | evaluate age times p _ ih => exact ih.evaluate age times p
  | reachableAt age region times _ ih => exact ih.reachableAt age region times
  | collect item _ ih => exact ih.collect item
  | uncollect item _ ih => exact ih.uncollect item
  | visit id _ ih => exact ih.visit id

theorem Run.bothHold {p q : Search → Bool × Search} (hp : ∀ t, Run g s t → Run g s (p t).2)
    (hq : ∀ t, Run g s t → Run g s (q t).2) (h : Run g s t) :
    Run g s (Progression.bothHold p q t).2 :=
  bothHold_keeps hp hq t h

theorem Run.eitherHolds {p q : Search → Bool × Search} (hp : ∀ t, Run g s t → Run g s (p t).2)
    (hq : ∀ t, Run g s t → Run g s (q t).2) (h : Run g s t) :
    Run g s (Progression.eitherHolds p q t).2 :=
  eitherHolds_keeps hp hq t h

theorem Run.canReach (region : RegionId) (scope : AgeScope) (times : TimeOfDay)
    (h : Run g s t) : Run g s (t.canReach g region scope times).2 := by
  have ask : ∀ age u, Run g s u → Run g s (u.reachableAt g age region times).2 :=
    fun age u hu => hu.reachableAt age region times
  cases scope with
  | child => exact ask .child t h
  | adult => exact ask .adult t h
  | both => exact h.bothHold (ask .adult) (ask .child)
  | either => exact h.eitherHolds (ask .adult) (ask .child)

theorem Run.spotAccess (spot : Spot) (scope : AgeScope) (times : TimeOfDay) (h : Run g s t) :
    Run g s (t.spotAccess g spot scope times).2 := by
  have ask : ∀ age u, Run g s u → Run g s (spotAccessAs g (postOf g spot) times age u).2 :=
    fun age u hu => hu.bothHold (fun v hv => hv.reachableAt age _ times)
      fun v hv => hv.evaluate age times _
  cases scope with
  | child => exact ask .child t h
  | adult => exact ask .adult t h
  | either => exact h.eitherHolds (ask .adult) (ask .child)
  | both =>
    exact h.bothHold (fun u hu => hu.canReach _ .both times) fun u hu =>
      hu.bothHold (fun v hv => hv.evaluate .adult times _) fun v hv => hv.evaluate .child times _

theorem Run.accessible (id : LocationId) (age : Age) (h : Run g s t) :
    Run g s (t.accessible g id age).2 := by
  unfold Search.accessible
  dsimp only
  split
  · exact h.evaluate age .none _
  · exact h

theorem Run.tryVisit (id : LocationId) (h : Run g s t) : Run g s (t.tryVisit g id).2 := by
  have haccess : Run g s (Progression.eitherHolds (Search.accessible g id .adult)
      (Search.accessible g id .child) t).2 :=
    h.eitherHolds (fun u hu => hu.accessible id .adult) fun u hu => hu.accessible id .child
  unfold Search.tryVisit
  split
  · exact h
  · dsimp only
    split
    · exact haccess.visit id
    · exact haccess

theorem Run.collectAt (id : LocationId) (h : Run g s t) : Run g s (t.collectAt g id) := by
  unfold Search.collectAt
  split
  · exact h.collect _
  · exact h

theorem Run.treat (id : LocationId) (manner : Manner) (h : Run g s t) :
    Run g s (t.treat g id manner) := by
  cases manner
  · exact h
  · exact h.collectAt id

theorem Run.sweep (manner : Manner) (ids : List LocationId) (limit : Option Nat)
    (h : Run g s t) : Run g s (t.sweep g manner ids limit).2 := by
  induction ids generalizing limit t with
  | nil => exact h
  | cons id ids ih =>
    have htry := h.tryVisit id
    unfold Search.sweep
    split
    · exact h
    · split
      · next ht =>
        rw [ht] at htry
        exact ih limit htry
      · next ht =>
        rw [ht] at htry
        exact ih _ (htry.treat id manner)

theorem Run.explore (manner : Manner) (ids : List LocationId) (limit : Option Nat)
    (h : Run g s t) : Run g s (t.explore g manner ids limit).2 := by
  -- every round is an expansion and a sweep
  fun_induction Search.explore g manner ids limit t with
  | case1 => exact h
  | case2 limit t _ t' ht =>
    have hsweep := h.nextSphere.sweep manner ids limit
    rwa [ht] at hsweep
  | case3 limit t _ id found t' ht more t'' hmore ih =>
    have hsweep := h.nextSphere.sweep manner ids limit
    rw [ht] at hsweep
    have := ih hsweep
    rwa [hmore] at this

theorem Run.collectLocations (ids : List LocationId) (h : Run g s t) :
    Run g s (t.collectLocations g ids) :=
  h.explore .collect _ none

theorem Run.visitLocations (ids : List LocationId) (h : Run g s t) :
    Run g s (t.visitLocations g ids) :=
  h.explore .look _ none

theorem Run.collectAll (items : List PlacedItem) (h : Run g s t) :
    Run g s (t.collectAll g items) := by
  unfold Search.collectAll
  induction items generalizing t with
  | nil => exact h
  | cons item items ih => exact ih (h.collect item)

theorem Run.collectAllAt (ids : List LocationId) (h : Run g s t) :
    Run g s (t.collectAllAt g ids) := by
  unfold Search.collectAllAt
  induction ids generalizing t with
  | nil => exact h
  | cons id ids ih => exact ih (h.collectAt id)

theorem Run.collectSkipped (h : Run g s t) : Run g s (t.collectSkipped g) := by
  have hvisits : ∀ ids u, Run g s u → Run g s (u.visitAll ids) := by
    intro ids
    unfold Search.visitAll
    induction ids with
    | nil => exact fun _ hu => hu
    | cons id ids ih => exact fun u hu => ih _ (hu.visit id)
  exact (hvisits _ t h).collectAllAt _

theorem Run.collectSpheres (ids : List LocationId) (h : Run g s t) :
    Run g s (t.collectSpheres g ids).2 := by
  change Run g s (t.spheresOf g ids).2
  fun_induction Search.spheresOf g ids t with
  | case1 ids t t' ht =>
    have hexplore := h.explore .look ids none
    rwa [ht] at hexplore
  | case2 ids t id found t' ht u sphere spheres u' hu ih =>
    have hexplore := h.explore .look ids none
    rw [ht] at hexplore
    have := ih (hexplore.collectAllAt (id :: found))
    rwa [hu] at this

end Composite

/-! ### Frontiers along a run -/

section Frontiers

variable {g : Multiworld} {s t : Search}

/-- Each frontier is expanded on its own. -/
theorem frontier_nextSphere (s : Search) (g : Multiworld) (age : Age) :
    (s.nextSphere g).progress.frontier age =
      (s.progress.frontier age).expand g s.inventories age := by
  cases age <;> rfl

@[simp] theorem inventories_nextSphere (s : Search) (g : Multiworld) :
    (s.nextSphere g).inventories = s.inventories := rfl

/-- What expanding and remembering keep of the frontier of an age. -/
structure FrontierInvariant (g : Multiworld) (age : Age) (P : Frontier → Prop) : Prop where
  expand : ∀ invs {f}, P f → P (f.expand g invs age)
  remembers : ∀ {f m}, P f → Remembers f.reached m → P { f with reached := m }

/-- A question changes the frontier of its age only, and there only what is remembered. -/
theorem FrontierInvariant.ask {age : Age} {P : Frontier → Prop} (hP : FrontierInvariant g age P)
    (asked : Age) {question : Reached → Bool × Reached} (hq : ∀ m, Remembers m (question m).2)
    (h : P (s.progress.frontier age)) : P ((s.ask asked question).2.progress.frontier age) := by
  change P ((s.progress.setFrontier asked _).frontier age)
  rw [Progress.frontier_setFrontier]
  split
  · next hage =>
    subst hage
    exact hP.remembers h (hq _)
  · exact h

/-- **What expanding and remembering keep of a frontier, a run keeps.** -/
theorem Run.keeps {age : Age} {P : Frontier → Prop} (hP : FrontierInvariant g age P)
    (h : Run g s t) (hs : P (s.progress.frontier age)) : P (t.progress.frontier age) := by
  induction h with
  | refl => exact hs
  | nextSphere _ ih =>
    rw [frontier_nextSphere]
    exact hP.expand _ ih
  | evaluate asked times p _ ih => exact hP.ask asked (remembers_evaluate g _ asked times p) ih
  | reachableAt asked region times _ ih =>
    exact hP.ask asked (remembers_reachableAt g _ asked region times) ih
  | collect item _ ih =>
    rw [progress_collect]
    exact ih
  | uncollect item _ ih =>
    rw [Search.uncollect, progress_withItem]
    exact ih
  | visit id _ ih =>
    rw [Search.visit, Progress.frontier_visit]
    exact ih

theorem explored_frontierInvariant (hg : g.WellFormed) (age : Age) :
    FrontierInvariant g age fun f => Explored g f.queue f.reached where
  expand invs f h :=
    (explored_invariant hg).expandFrom f.queue [] f.reached
      (h.of_mem_iff fun id => by rw [List.append_nil])
  remembers h hm := h.remembers hm

theorem sound_nextSphere (hg : g.WellFormed) (h : s.progress.Sound g) :
    (s.nextSphere g).progress.Sound g := by
  intro age
  rw [frontier_nextSphere]
  exact (explored_frontierInvariant hg age).expand s.inventories (h age)

theorem Run.sound (hg : g.WellFormed) (h : Run g s t) (hs : s.progress.Sound g) :
    t.progress.Sound g :=
  fun age => h.keeps (explored_frontierInvariant hg age) (hs age)

end Frontiers

/-! ### Starting -/

section Starting

variable {g : Multiworld}

theorem contains_rootReached {roots : List RegionId} {m : Reached} {r : RegionId} :
    (roots.foldl (fun m r => m.insert r .none) m).contains r = true ↔
      r ∈ roots ∨ m.contains r = true := by
  induction roots generalizing m with
  | nil => simp
  | cons x roots ih =>
    rw [List.foldl_cons, ih, Reached.contains_insert, Bool.or_eq_true, decide_eq_true_iff,
      List.mem_cons, eq_comm, or_left_comm, or_assoc]

theorem distinct_rootReached {roots : List RegionId} {m : Reached} (h : m.Distinct) :
    (roots.foldl (fun m r => m.insert r .none) m).Distinct := by
  induction roots generalizing m with
  | nil => exact h
  | cons x roots ih => exact ih (h.insert x .none)

/-- At first the roots are reached. -/
theorem contains_rootFrontier {r : RegionId} : (rootFrontier g).reached.contains r = true ↔
    ∃ w : WorldId, w.index < g.worlds.size ∧ g.root w = r := by
  refine contains_rootReached.trans ?_
  rw [List.mem_map]
  simp only [Multiworld.mem_worldIds, Reached.contains, Reached.times?_nil, Option.isSome_none,
    Bool.false_eq_true, or_false]

/-- The roots alone hang together. -/
theorem explored_rootFrontier (hg : g.WellFormed) :
    Explored g (rootFrontier g).queue (rootFrontier g).reached := by
  have hroot : ∀ r, (rootFrontier g).reached.contains r = true → g.IsRoot r := by
    intro r hr
    obtain ⟨w, hw, rfl⟩ := contains_rootFrontier.1 hr
    rw [Multiworld.IsRoot, hg.root_world w hw]
  constructor
  case distinct => exact distinct_rootReached .nil
  case roots =>
    intro w hw
    exact contains_rootFrontier.2 ⟨w, hw, rfl⟩
  case listed =>
    intro id hid
    obtain ⟨r, hr, hid⟩ := List.mem_flatMap.1 hid
    obtain ⟨w, hw, rfl⟩ := List.mem_map.1 hr
    exact ⟨_, contains_rootFrontier.2 ⟨w, Multiworld.mem_worldIds.1 hw, rfl⟩, hid⟩
  case queued =>
    intro r hr id hid target _ _
    obtain ⟨w, hw, rfl⟩ := contains_rootFrontier.1 hr
    exact List.mem_flatMap.2 ⟨_, List.mem_map.2 ⟨w, Multiworld.mem_worldIds.2 hw, rfl⟩, hid⟩
  case provided =>
    intro r hr hnr
    exact absurd (hroot r hr) hnr
  case rootProvided =>
    intro r hr hnr
    exact absurd (hroot r hr) hnr

theorem sound_rootProgress (hg : g.WellFormed) : (rootProgress g).Sound g := by
  intro age
  cases age <;> exact explored_rootFrontier hg

/-- A search that has started has expanded the roots once. -/
theorem eq_of_start {invs : List Inventory} {s : Search} (h : start g invs = .ok s) :
    s = nextSphere ⟨invs.toArray, rootProgress g⟩ g := by
  unfold start at h
  split at h
  · cases h
  · split at h <;> cases h
    rfl

/-- A search starts with the inventories that it is given. -/
theorem inventories_start {invs : List Inventory} {s : Search} (h : start g invs = .ok s) :
    s.inventories = invs.toArray := by
  rw [eq_of_start h, inventories_nextSphere]

theorem visited_start {invs : List Inventory} {s : Search} (h : start g invs = .ok s) :
    s.progress.visited = [] := by
  rw [eq_of_start h, visited_nextSphere]
  rfl

/-- A search starts from one inventory for each world, in the order of the worlds. -/
theorem exists_start_of_size {invs : Array Inventory} (hsize : invs.size = g.worlds.size)
    (hworld : ∀ w : WorldId, w.index < invs.size → (inventoryOf invs w).world = w) :
    ∃ f, start g invs.toList = .ok f := by
  have horder : inWorldOrder invs.toList = true := by
    refine inWorldOrder_iff.2 fun i hi => ?_
    rw [Array.length_toList] at hi
    have hw := hworld ⟨i⟩ hi
    rwa [inventoryOf, Array.getD_eq_getD_getElem?, Array.getElem?_eq_getElem hi] at hw
  refine ⟨nextSphere ⟨invs.toList.toArray, rootProgress g⟩ g, ?_⟩
  rw [start, if_neg (not_not_intro (by rwa [Array.length_toList])), if_pos horder]

/-- A search starts from the initial inventories. -/
theorem exists_start_initial (g : Multiworld) :
    ∃ s, start g g.initialInventories = .ok s := by
  have hsize : g.initialInventories.toArray.size = g.worlds.size := by
    simp [Multiworld.initialInventories, Multiworld.worldIds]
  refine exists_start_of_size hsize fun w hw => ?_
  rw [inventoryOf, Array.getD_eq_getD_getElem?, Array.getElem?_eq_getElem hw]
  simp only [Multiworld.worldIds, List.map_map, List.getElem_toArray, List.getElem_map,
    List.getElem_range]
  rfl

theorem sound_start (hg : g.WellFormed) {invs : List Inventory} {s : Search}
    (h : start g invs = .ok s) : s.progress.Sound g := by
  rw [eq_of_start h]
  exact sound_nextSphere hg (sound_rootProgress hg)

end Starting

/-! ### Stalled searches -/

/-- A further expansion reaches no further region, as either age. -/
def Stalled (g : Multiworld) (s : Search) : Prop :=
  ∀ age r, ((s.nextSphere g).progress.reached age).contains r =
    (s.progress.reached age).contains r

/-- **A search is stalled just when all queued exits are blocked.** -/
theorem stalled_iff {g : Multiworld} (hg : g.WellFormed) {s : Search} (h : s.progress.Sound g) :
    s.Stalled g ↔ ∀ age, ∀ id ∈ (s.progress.frontier age).queue,
      Blocked g s.inventories age (s.progress.reached age) id := by
  refine forall_congr' fun age => ?_
  unfold Progress.reached
  rw [frontier_nextSphere]
  exact expandFrom_contains_iff hg (h age).distinct (s.progress.frontier age).queue []

/-- Expanding a stalled search only remembers times. -/
theorem Stalled.recalls {g : Multiworld} (hg : g.WellFormed) {s : Search}
    (hs : s.progress.Sound g) (h : s.Stalled g) (age : Age) :
    Recalls g s.inventories age (s.progress.reached age)
      ((s.nextSphere g).progress.reached age) := by
  rw [Progress.reached, Progress.reached, frontier_nextSphere]
  exact expandFrom_of_blocked hg (hs age).distinct _ [] _ (.refl ..) ((stalled_iff hg hs).1 h age)

end Search

/-! ### Rewinding -/

/-- What a rewindable search can come to from a start: its search runs, its progress is
noted and taken back, and the notes are dropped. -/
inductive Rewindable.Reachable (g : Multiworld) : Rewindable → Prop where
  | start {invs : List Inventory} {s : Search} (h : Search.start g invs = .ok s) :
    Reachable g (.of s)
  | run {r : Rewindable} {s : Search} (h : Reachable g r) (hs : r.live.Run g s) :
    Reachable g { r with live := s }
  | drop {r : Rewindable} (h : Reachable g r) : Reachable g (.of r.live)
  | checkpoint {r : Rewindable} (h : Reachable g r) : Reachable g r.checkpoint
  | unvisit {r r' : Rewindable} {id : LocationId} (h : Reachable g r)
    (hu : r.unvisit id = .ok r') : Reachable g r'
  | reset {r : Rewindable} (h : Reachable g r) : Reachable g r.reset

/-- A search that starts with items is reachable. -/
theorem Rewindable.Reachable.startWith {g : Multiworld} {invs : List Inventory}
    {items : List PlacedItem} {s : Search} (h : Search.startWith g invs items = .ok s) :
    Reachable g (.of s) := by
  unfold Search.startWith at h
  cases hs : Search.start g invs with
  | error fault =>
    rw [hs] at h
    cases h
  | ok t =>
    rw [hs] at h
    cases h
    exact .run (.start hs) (Search.Run.collectAll items .refl).nextSphere

/-- So is one that starts by visiting all that it can. -/
theorem Rewindable.Reachable.maxExplore {g : Multiworld} {invs : List Inventory}
    {items : List PlacedItem} {s : Search} (h : Search.maxExplore g invs items = .ok s) :
    Reachable g (.of s) := by
  unfold Search.maxExplore at h
  cases hs : Search.start g invs with
  | error fault =>
    rw [hs] at h
    cases h
  | ok t =>
    rw [hs] at h
    cases h
    exact .run (.start hs) ((Search.Run.collectAll items .refl).collectLocations [])

/-- **What expanding and remembering keep of a frontier, a reachable search keeps**, and all
that it can go back to has it. -/
theorem Rewindable.Reachable.keeps {g : Multiworld} {age : Age} {P : Frontier → Prop}
    (hP : Search.FrontierInvariant g age P) (hroot : P (Search.rootFrontier g)) {r : Rewindable}
    (h : r.Reachable g) :
    P (r.live.progress.frontier age) ∧ ∀ p ∈ r.history, P (p.frontier age) := by
  induction h with
  | start h =>
    have hstart : P ((Search.rootProgress g).frontier age) := by cases age <;> exact hroot
    refine ⟨?_, List.forall_mem_nil _⟩
    rw [Rewindable.of, Search.eq_of_start h, Search.frontier_nextSphere]
    exact hP.expand _ hstart
  | run _ hs ih => exact ⟨hs.keeps hP ih.1, ih.2⟩
  | drop _ ih => exact ⟨ih.1, List.forall_mem_nil _⟩
  | checkpoint _ ih => exact ⟨ih.1, List.forall_mem_cons.2 ih⟩
  | @unvisit r r' id _ hu ih =>
    -- the progress is the one of the latest snapshot or the present one
    have hpop : P ((r.popTo id).live.progress.frontier age) ∧
        ∀ p ∈ (r.popTo id).history, P (p.frontier age) := by
      unfold Rewindable.popTo
      split
      · exact ih
      · next p history hh =>
        rw [hh] at ih
        obtain ⟨hp, hhistory⟩ := List.forall_mem_cons.1 ih.2
        split
        · exact ⟨hp, hhistory⟩
        · exact ⟨ih.1, hh ▸ ih.2⟩
    unfold Rewindable.unvisit at hu
    split at hu
    · cases hu
      refine ⟨?_, hpop.2⟩
      cases age <;> exact hpop.1
    · cases hu
  | @reset r _ ih =>
    unfold Rewindable.reset
    split
    · next p hp => exact ⟨ih.2 p (List.mem_of_getLast? hp), List.forall_mem_nil _⟩
    · exact ih

/-- **The progress of every reachable search hangs together**, and so does every progress
that it can go back to. -/
theorem Rewindable.Reachable.sound {g : Multiworld} (hg : g.WellFormed) {r : Rewindable}
    (h : r.Reachable g) : r.live.progress.Sound g ∧ ∀ p ∈ r.history, p.Sound g := by
  have hkept := fun age => h.keeps (Search.explored_frontierInvariant hg age)
    (Search.explored_rootFrontier hg)
  exact ⟨fun age => (hkept age).1, fun p hp age => (hkept age).2 p hp⟩

end Progression
