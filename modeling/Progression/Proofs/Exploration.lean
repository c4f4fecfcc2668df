import Progression.Proofs.Runs

/-!
# Where an exploration ends

An exploration expands the frontiers and sweeps the candidates until a sweep finds
nothing.  Then no further candidate is accessible, and an exit whose rule does not test
the time of day cannot open either: it failed in the last expansion, and no item has been
collected since.  But a rule that tests the time of day may have failed in that expansion
before a region was found from which the time would have spread.  Its exit stays in the
queue although it would open now, and so the end of an exploration need not be a fixpoint.

## Main definitions

* `Search.Recalls` — a search differs from another one in what is remembered only.
* `Search.AtFixpoint` — neither an expansion nor an exploration finds anything.

## Main results

* `Search.explore_last` — an exploration ends with a sweep that finds nothing.
* `Search.collectLocations_atFixpoint_iff` — **an exploration ends at a fixpoint just when
  no queued exit with a test of the time of day opens.**
-/

namespace Progression

open Rule

namespace Search

/-! ### Searches that differ in what is remembered -/

/-- A search differs from `s` only in the times that it remembers and in its queues. -/
structure Recalls (g : Multiworld) (s t : Search) : Prop where
  inventories : t.inventories = s.inventories
  visited : t.progress.visited = s.progress.visited
  reached : ∀ age, Progression.Recalls g s.inventories age (s.progress.reached age)
    (t.progress.reached age)

/-- The reached regions of both frontiers are distinct. -/
def Distinct (s : Search) : Prop := ∀ age, (s.progress.reached age).Distinct

variable {g : Multiworld} {s t u : Search}

namespace Recalls

theorem refl (g : Multiworld) (s : Search) : Recalls g s s := ⟨rfl, rfl, fun _ => .refl ..⟩

theorem trans (h : Recalls g s t) (h' : Recalls g t u) : Recalls g s u where
  inventories := h'.inventories.trans h.inventories
  visited := h'.visited.trans h.visited
  reached age := (h.reached age).trans (h.inventories ▸ h'.reached age)

theorem distinct (h : Recalls g s t) (hs : s.Distinct) : t.Distinct :=
  fun age => (h.reached age).distinct (hs age)

/-- Asking a question remembers what its answer remembers. -/
theorem ask (age : Age) {question : Reached → Bool × Reached}
    (hq : Progression.Recalls g s.inventories age (s.progress.reached age)
      (question (s.progress.reached age)).2) : Recalls g s (s.ask age question).2 := by
  refine ⟨rfl, visited_ask age question s, fun age' => ?_⟩
  change Progression.Recalls g s.inventories age' _
    ((s.progress.setFrontier age _).frontier age').reached
  rw [Progress.frontier_setFrontier]
  split
  · next hage =>
    subst hage
    exact hq
  · exact .refl ..

end Recalls

/-! ### Locations -/

theorem recalls_accessible (hg : g.WellFormed) (hs : s.Distinct) (id : LocationId) (age : Age) :
    Recalls g s (s.accessible g id age).2 := by
  unfold accessible
  dsimp only
  split
  · exact .ask age (evaluate_spec hg (hs age) (location_post_times hg id) .none).2
  · exact .refl g s

/-- What is remembered makes no location accessible. -/
theorem Recalls.accessible_eq (hg : g.WellFormed) (hs : s.Distinct) (h : Recalls g s t)
    (id : LocationId) (age : Age) : (t.accessible g id age).1 = (s.accessible g id age).1 := by
  unfold accessible
  dsimp only
  rw [(h.reached age).contains]
  split
  · change (Progression.evaluate g t.inventories age .none _ _).1 = _
    rw [h.inventories]
    exact (h.reached age).evaluate_eq hg (hs age) (location_post_times hg id) .none
  · rfl

theorem tryVisit_fst (g : Multiworld) (id : LocationId) (s : Search) :
    (s.tryVisit g id).1 = (!s.visited id &&
      (eitherHolds (accessible g id .adult) (accessible g id .child) s).1) := by
  unfold tryVisit
  cases s.visited id with
  | true => rfl
  | false =>
    dsimp only
    cases (eitherHolds (accessible g id .adult) (accessible g id .child) s).1 <;> simp

/-- Asking as both ages remembers what the answers remember. -/
theorem recalls_anyAge (hg : g.WellFormed) (hs : s.Distinct) (id : LocationId) :
    Recalls g s (eitherHolds (accessible g id .adult) (accessible g id .child) s).2 := by
  have hadult := recalls_accessible hg hs id .adult
  unfold eitherHolds
  dsimp only
  split
  · exact hadult
  · exact hadult.trans (recalls_accessible hg (hadult.distinct hs) id .child)

/-- The child is asked after the adult, but what the adult's answer remembers makes no
difference. -/
theorem anyAge_fst (hg : g.WellFormed) (hs : s.Distinct) (id : LocationId) :
    (eitherHolds (accessible g id .adult) (accessible g id .child) s).1 =
      ((s.accessible g id .adult).1 || (s.accessible g id .child).1) := by
  rw [eitherHolds_fst, (recalls_accessible hg hs id .adult).accessible_eq hg hs id .child]

/-- What is remembered makes no location visitable. -/
theorem Recalls.tryVisit_eq (hg : g.WellFormed) (hs : s.Distinct) (h : Recalls g s t)
    (id : LocationId) : (t.tryVisit g id).1 = (s.tryVisit g id).1 := by
  have hvisited : t.visited id = s.visited id := by rw [Search.visited, Search.visited, h.visited]
  rw [tryVisit_fst, tryVisit_fst, anyAge_fst hg hs, anyAge_fst hg (h.distinct hs),
    h.accessible_eq hg hs, h.accessible_eq hg hs, hvisited]

/-- A visit that fails changes nothing but what is remembered. -/
theorem recalls_tryVisit (hg : g.WellFormed) (hs : s.Distinct) {id : LocationId}
    (h : s.tryVisit g id = (false, t)) : Recalls g s t := by
  have heither := recalls_anyAge hg hs id
  unfold tryVisit at h
  split at h
  · cases h
    exact .refl g s
  · dsimp only at h
    split at h
    · cases h
    · cases h
      exact heither

/-! ### Sweeps that find nothing -/

/-- A sweep in which no candidate can be visited finds nothing. -/
theorem sweep_of_unvisitable (hg : g.WellFormed) (manner : Manner) {ids : List LocationId}
    (hs : s.Distinct) (h : ∀ id ∈ ids, (s.tryVisit g id).1 = false) :
    (s.sweep g manner ids none).1 = [] ∧ Recalls g s (s.sweep g manner ids none).2 := by
  induction ids generalizing s with
  | nil => exact ⟨rfl, .refl g s⟩
  | cons id ids ih =>
    obtain ⟨hid, hids⟩ := List.forall_mem_cons.1 h
    -- the visit fails, and the rest is swept by a search that only remembers more
    rw [sweep, if_neg (Option.some_ne_none 0).symm]
    cases ht : s.tryVisit g id with
    | mk b t =>
      rw [ht] at hid
      dsimp only at hid
      subst hid
      have hst := recalls_tryVisit hg hs ht
      obtain ⟨hnil, hrecalls⟩ := ih (hst.distinct hs) fun id' hid' => by
        rw [hst.tryVisit_eq hg hs]
        exact hids id' hid'
      exact ⟨hnil, hst.trans hrecalls⟩

/-- In a sweep that finds nothing no candidate can be visited. -/
theorem unvisitable_of_sweep (hg : g.WellFormed) {manner : Manner} {ids : List LocationId}
    (hs : s.Distinct) (h : (s.sweep g manner ids none).1 = []) :
    ∀ id ∈ ids, (s.tryVisit g id).1 = false := by
  induction ids generalizing s with
  | nil => exact List.forall_mem_nil _
  | cons id ids ih =>
    rw [sweep, if_neg (Option.some_ne_none 0).symm] at h
    cases ht : s.tryVisit g id with
    | mk b t =>
      rw [ht] at h
      cases b with
      | true => cases h
      | false =>
        have hst := recalls_tryVisit hg hs ht
        refine List.forall_mem_cons.2 ⟨by rw [ht], fun id' hid' => ?_⟩
        rw [← hst.tryVisit_eq hg hs]
        exact ih (hst.distinct hs) h id' hid'

/-! ### The queues -/

theorem queue_ask (age : Age) (question : Reached → Bool × Reached) (s : Search) (age' : Age) :
    ((s.ask age question).2.progress.frontier age').queue =
      (s.progress.frontier age').queue := by
  cases age <;> cases age' <;> rfl

theorem queue_accessible (g : Multiworld) (id : LocationId) (age : Age) (s : Search) (age' : Age) :
    ((s.accessible g id age).2.progress.frontier age').queue =
      (s.progress.frontier age').queue := by
  unfold accessible
  dsimp only
  split
  · exact queue_ask ..
  · rfl

theorem queue_tryVisit (g : Multiworld) (id : LocationId) (s : Search) (age : Age) :
    ((s.tryVisit g id).2.progress.frontier age).queue = (s.progress.frontier age).queue := by
  have heither : ((eitherHolds (accessible g id .adult) (accessible g id .child)
      s).2.progress.frontier age).queue = (s.progress.frontier age).queue :=
    eitherHolds_keeps
      (P := fun t => (t.progress.frontier age).queue = (s.progress.frontier age).queue)
      (fun t ht => (queue_accessible g id .adult t age).trans ht)
      (fun t ht => (queue_accessible g id .child t age).trans ht) s rfl
  unfold tryVisit
  split
  · rfl
  · dsimp only
    split
    · rw [visit, Progress.frontier_visit]
      exact heither
    · exact heither

/-- A sweep leaves the queues as they are. -/
theorem queue_sweep (g : Multiworld) (manner : Manner) (ids : List LocationId)
    (limit : Option Nat) (s : Search) (age : Age) :
    ((s.sweep g manner ids limit).2.progress.frontier age).queue =
      (s.progress.frontier age).queue := by
  induction ids generalizing limit s with
  | nil => rfl
  | cons id ids ih =>
    have htry := queue_tryVisit g id s age
    unfold sweep
    split
    · rfl
    · split
      · next t ht =>
        rw [ht] at htry
        exact (ih limit t).trans htry
      · next t ht =>
        rw [ht] at htry
        refine (ih _ _).trans ?_
        rwa [progress_treat]

/-! ### The end of an exploration -/

/-- An exploration ends with a sweep, after an expansion, that finds nothing. -/
theorem explore_last (g : Multiworld) (manner : Manner) (ids : List LocationId)
    {limit : Option Nat} (hl : limit = none) (s : Search) :
    ∃ u, Run g s u ∧ ((u.nextSphere g).sweep g manner ids none).1 = [] ∧
      ((u.nextSphere g).sweep g manner ids none).2 = (s.explore g manner ids limit).2 := by
  fun_induction explore g manner ids limit s with
  | case1 => cases hl
  | case2 limit s _ t ht =>
    rw [hl] at ht
    exact ⟨s, .refl, by rw [ht], by rw [ht]⟩
  | case3 limit s _ id found t ht more t' hmore ih =>
    -- the last round is the last one of the rest
    obtain ⟨u, hu, hnil, hlast⟩ := ih (by rw [hl]; rfl)
    have hsweep : Run g s t := by
      have h := (Run.nextSphere (g := g) (s := s) .refl).sweep manner ids limit
      rwa [ht] at h
    exact ⟨u, hsweep.trans hu, hnil, hlast.trans (by rw [hmore])⟩

/-- Neither an expansion nor an exploration of the candidates finds anything. -/
structure AtFixpoint (g : Multiworld) (ids : List LocationId) (s : Search) : Prop where
  regions : s.Stalled g
  visits : (s.collectLocations g ids).progress.visited = s.progress.visited
  items : (s.collectLocations g ids).inventories = s.inventories

/-- A stalled search differs from the expanded one in what is remembered only. -/
theorem Stalled.recalls_nextSphere (hg : g.WellFormed) (hs : s.progress.Sound g)
    (h : s.Stalled g) : Recalls g s (s.nextSphere g) :=
  ⟨rfl, visited_nextSphere s g, h.recalls hg hs⟩

/-- An exploration of a stalled search in which no candidate can be visited finds nothing. -/
theorem explore_of_stalled (hg : g.WellFormed) (manner : Manner) {ids : List LocationId}
    (hs : s.progress.Sound g) (h : s.Stalled g)
    (hids : ∀ id ∈ ids, (s.tryVisit g id).1 = false) :
    Recalls g s (s.explore g manner ids none).2 := by
  have hdistinct : s.Distinct := fun age => (hs age).distinct
  have hnext := h.recalls_nextSphere hg hs
  obtain ⟨hnil, hsweep⟩ := sweep_of_unvisitable hg manner (hnext.distinct hdistinct)
    fun id hid => by
      rw [hnext.tryVisit_eq hg hdistinct]
      exact hids id hid
  rw [explore, if_neg (Option.some_ne_none 0).symm]
  split
  · next t ht =>
    rw [ht] at hsweep
    exact hnext.trans hsweep
  · next ht =>
    rw [ht] at hnil
    cases hnil

/-- **An exploration ends at a fixpoint just when no queued exit with a test of the time of
day opens.**  This holds for every search that can be reached, and every list of
candidates. -/
theorem collectLocations_atFixpoint_iff (hg : g.Built) {r : Rewindable} (hr : r.Reachable g)
    (ids : List LocationId) :
    AtFixpoint g ids (r.live.collectLocations g ids) ↔
      ∀ age, ∀ id ∈ ((r.live.collectLocations g ids).progress.frontier age).queue,
        (g.exit id).post.formula.timeless = false →
          Blocked g (r.live.collectLocations g ids).inventories age
            ((r.live.collectLocations g ids).progress.reached age) id := by
  have hg := hg.wellFormed
  obtain ⟨u, hu, hnil, hlast⟩ := explore_last g .collect (candidatesOf g ids) rfl r.live
  generalize ht : r.live.collectLocations g ids = t
  rw [show (r.live.explore g .collect (candidatesOf g ids) none).2 = t from ht] at hlast
  have hlive : r.live.progress.Sound g := (hr.sound hg).1
  have hsound : t.progress.Sound g := ht ▸ (Run.collectLocations ids .refl).sound hg hlive
  have hnext : (u.nextSphere g).Distinct := fun age =>
    ((hu.nextSphere.sound hg hlive) age).distinct
  have hunvisitable := unvisitable_of_sweep hg hnext hnil
  have hrecalls : Recalls g (u.nextSphere g) t :=
    hlast ▸ (sweep_of_unvisitable hg .collect hnext hunvisitable).2
  -- an exit without such a test has failed in the last expansion, and fails again
  have htimeless : ∀ age, ∀ id ∈ (t.progress.frontier age).queue,
      (g.exit id).post.formula.timeless = true →
        Blocked g t.inventories age (t.progress.reached age) id := by
    intro age id hid htime target _ _
    rw [← hlast, queue_sweep, frontier_nextSphere] at hid
    rw [hrecalls.inventories]
    exact evaluate_of_mem_expandFrom _ [] _ (List.forall_mem_nil _) id hid htime _
  constructor
  · exact fun h age id hid _ => (stalled_iff hg hsound).1 h.regions age id hid
  · intro hblocked
    -- so all queued exits are blocked, with and without a test of the time of day
    have hstalled : t.Stalled g := by
      refine (stalled_iff hg hsound).2 fun age id hid => ?_
      cases htime : (g.exit id).post.formula.timeless with
      | true => exact htimeless age id hid htime
      | false => exact hblocked age id hid htime
    have hagain : Recalls g t (t.collectLocations g ids) :=
      explore_of_stalled hg .collect hsound hstalled fun id hid => by
        rw [hrecalls.tryVisit_eq hg hnext]
        exact hunvisitable id hid
    exact ⟨hstalled, hagain.visited, hagain.inventories⟩

/-- A world with a crypt that opens at night.  Its gate has two ways in, of which one is
open by day only and the other one is longer. -/
def gatedCrypt : Multiworld :=
  let start := (Multiworld.empty .empty).addWorld { Profile.plain with timeMatters := true }
  let w := start.1
  let root := start.2.root w
  let m := (start.2.addRegion w "Dawn" .atDay).2
  let m := (m.addRegion w "Dusk" .atNight).2
  let gate := m.addRegion w "Gate" .none
  let path := gate.2.addRegion w "Path" .none
  let yard := path.2.addRegion w "Yard" .none
  let m := (yard.2.addRegion w "Crypt" .none).2
  let m := (m.addExit root "Root -> Dawn" "Dawn" "True").2
  let m := (m.addExit root "Root -> Dusk" "Dusk" "True").2
  let m := (m.addExit root "Root -> Gate" "Gate" "Bow and at_day").2
  let m := (m.addExit root "Root -> Path" "Path" "Bow").2
  let m := (m.addExit path.1 "Path -> Yard" "Yard" "True").2
  let m := (m.addExit yard.1 "Yard -> Gate" "Gate" "True").2
  let m := (m.addExit gate.1 "Gate -> Crypt" "Crypt" "at_dampe_time").2
  (Action.result (compileRules .empty 1) m).2

theorem built_gatedCrypt : gatedCrypt.Built :=
  .compileRules .empty 1 <|
    .addExit (by decide) _ _ _ <| .addExit (by decide) _ _ _ <|
    .addExit (by decide) _ _ _ <| .addExit (by decide) _ _ _ <|
    .addExit (by decide) _ _ _ <| .addExit (by decide) _ _ _ <|
    .addExit (by decide) _ _ _ <| .addRegion (by decide) _ _ <|
    .addRegion (by decide) _ _ <| .addRegion (by decide) _ _ <|
    .addRegion (by decide) _ _ <| .addRegion (by decide) _ _ <|
    .addRegion (by decide) _ _ <| .addWorld _ (.empty _)

/-- What an exploration with the bow depends on. -/
theorem collectLocations_gatedCrypt :
    ∃ s, start gatedCrypt gatedCrypt.initialInventories = .ok s ∧
      let t := (s.collect gatedCrypt ⟨⟨0⟩, ⟨0⟩⟩).collectLocations gatedCrypt []
      AtFixpoint gatedCrypt [] t ↔
        ∀ age, ∀ id ∈ (t.progress.frontier age).queue,
          (gatedCrypt.exit id).post.formula.timeless = false →
            Blocked gatedCrypt t.inventories age (t.progress.reached age) id := by
  have hok : (start gatedCrypt gatedCrypt.initialInventories).isOk = true := by decide +kernel
  cases h : start gatedCrypt gatedCrypt.initialInventories with
  | ok s =>
    exact ⟨s, rfl, collectLocations_atFixpoint_iff built_gatedCrypt
      (.run (.start h) (.collect ⟨⟨0⟩, ⟨0⟩⟩ .refl)) []⟩
  | error fault =>
    rw [h] at hok
    cases hok

end Search

end Progression
