import Progression.Proofs.Afresh

/-!
# Spheres are layers

An exploration that collects nothing on its way is over after one sweep: the sweep visits
what is accessible, and as no item has been collected nothing further opens.  If further items
keep all rules true, the search has by then reached what one that is started afresh reaches.
So each sphere can be told without the history of the search: it consists of the candidates
outside the spheres before it that are accessible in a search that is started with the items
of these spheres.

## Main definitions

* `Search.opens` — whether a location is accessible as some age.
* `Playthrough.layers` — the locations of the spheres.

## Main results

* `Search.found_look` — an exploration that collects nothing finds what opens at once.
* `Search.collectSpheres_layers` — **each sphere is what opens with the items before it.**
-/

namespace Progression

open Rule

/-- The locations of the spheres. -/
def Playthrough.layers (p : Playthrough) : List (List LocationId) :=
  p.spheres.map Sphere.locations

namespace Search

variable {g : Multiworld} {invs : List Inventory} {ids ids' : List LocationId}
  {s t u f : Search}

/-! ### Accessible locations -/

/-- Whether the region of a location is reached and its rule holds as some age. -/
def opens (s : Search) (g : Multiworld) (id : LocationId) : Bool :=
  (s.accessible g id .adult).1 || (s.accessible g id .child).1

theorem tryVisit_fst_eq_opens (hg : g.WellFormed) (hs : s.Distinct) (id : LocationId) :
    (s.tryVisit g id).1 = (!s.visited id && s.opens g id) := by
  rw [tryVisit_fst, anyAge_fst hg hs, opens]

/-- What is accessible depends on the inventories and the reached regions alone. -/
theorem opens_congr (hrules : ∀ id, (g.location id).guard.formula.timeless = true)
    (hinventories : t.inventories = s.inventories) (hregions : ∀ age, t.regions age = s.regions age)
    (id : LocationId) : t.opens g id = s.opens g id := by
  have haccessible : ∀ age, (t.accessible g id age).1 = (s.accessible g id age).1 := by
    intro age
    rw [Bool.eq_iff_iff, accessible_fst (hrules id), accessible_fst (hrules id), hinventories,
      hregions]
  rw [opens, opens, haccessible, haccessible]

/-! ### Looking -/

/-- A sweep that collects nothing finds what is accessible, in the order of the candidates and
without repetition, and changes neither the inventories nor what is reached. -/
theorem sweep_look (hg : g.WellFormed)
    (hrules : ∀ id, (g.location id).guard.formula.timeless = true) (hs : s.progress.Sound g)
    (ids : List LocationId) :
    (s.sweep g .look ids none).1 =
        (ids.filter fun id => !s.visited id && s.opens g id).eraseDups ∧
      (s.sweep g .look ids none).2.inventories = s.inventories ∧
      ∀ age, (s.sweep g .look ids none).2.regions age = s.regions age := by
  induction ids generalizing s with
  | nil => exact ⟨rfl, rfl, fun _ => rfl⟩
  | cons id ids ih =>
    have hdistinct : s.Distinct := fun age => (hs age).distinct
    have hsound := ((Run.refl (g := g) (s := s)).tryVisit id).sound hg hs
    obtain ⟨hinventories, hregions⟩ := tryVisit_spec hg hdistinct id
    have hopens := opens_congr hrules hinventories hregions
    have htry := tryVisit_fst_eq_opens hg hdistinct id
    have hvisited := visited_tryVisit g id s
    rw [sweep, if_neg (Option.some_ne_none 0).symm]
    cases ht : s.tryVisit g id with
    | mk b t =>
      rw [ht] at hsound hinventories hregions hopens htry hvisited
      obtain ⟨hfound, hinventories', hregions'⟩ := ih hsound
      have hsame : (t.sweep g .look ids none).2.inventories = s.inventories ∧
          ∀ age, (t.sweep g .look ids none).2.regions age = s.regions age :=
        ⟨hinventories'.trans hinventories, fun age => (hregions' age).trans (hregions age)⟩
      cases b with
      | false =>
        refine ⟨?_, hsame⟩
        have hvisits : ∀ l, t.visited l = s.visited l := fun l => by rw [visited, hvisited]; rfl
        simp only [hvisits, hopens] at hfound
        rw [List.filter_cons, ← htry, if_neg Bool.false_ne_true]
        exact hfound
      | true =>
        refine ⟨?_, hsame⟩
        have hvisits : ∀ l, t.visited l = (l == id || s.visited l) := by
          intro l
          have hnow : t.progress.visited = id :: s.progress.visited := hvisited
          rw [visited, visited, hnow, beq_eq_decide, ← Bool.decide_or]
          exact decide_eq_decide.2 List.mem_cons
        rw [List.filter_cons, if_pos htry.symm, List.eraseDups_cons, List.filter_filter]
        simp only [hvisits, hopens, Bool.not_or, Bool.and_assoc] at hfound
        exact congrArg (id :: ·) hfound

/-- After such a sweep all candidates that are accessible are visited. -/
theorem visited_sweep_look (hg : g.WellFormed)
    (hrules : ∀ id, (g.location id).guard.formula.timeless = true) (hs : s.progress.Sound g)
    {l : LocationId} (hl : l ∈ ids) (hopens : s.opens g l = true) :
    (s.sweep g .look ids none).2.visited l = true := by
  apply decide_eq_true
  rw [visited_sweep, List.mem_append, List.mem_reverse, (sweep_look hg hrules hs ids).1,
    List.mem_eraseDups, List.mem_filter]
  cases hv : s.visited l with
  | true => exact .inr (of_decide_eq_true hv)
  | false => exact .inl ⟨hl, by rw [hopens]; rfl⟩

/-- A pass finds nothing where what is reached is closed. -/
theorem regions_nextSphere_of_closed (hg : g.WellFormed)
    (hrules : ∀ id, (g.exit id).guard.formula.timeless = true) (hs : s.progress.Sound g) {age : Age}
    (hclosed : g.ClosedUnderExits s.inventories age (s.regions age)) :
    (s.nextSphere g).regions age = s.regions age :=
  Set.Subset.antisymm (regions_nextSphere_subset hg hrules hs hclosed subset_rfl)
    (regions_subset_nextSphere g s age)

theorem explore_of_sweep_nil {manner : Manner}
    (h : ((s.nextSphere g).sweep g manner ids none).1 = []) :
    (s.explore g manner ids none).1 = [] := by
  rw [explore, if_neg (Option.some_ne_none 0).symm]
  split
  · rfl
  · next ht =>
    rw [ht] at h
    cases h

/-- **An exploration that collects nothing finds what opens at once**: its first sweep is
followed by one that finds nothing. -/
theorem found_look (hg : g.WellFormed) (hrules : g.Growing) (hs : s.progress.Sound g)
    (ids : List LocationId) :
    (s.explore g .look ids none).1 =
      (ids.filter fun id => !s.visited id && (s.nextSphere g).opens g id).eraseDups := by
  have hsound := sound_nextSphere hg hs
  obtain ⟨hfound, hinventories, hregions⟩ := sweep_look hg hrules.location_timeless hsound ids
  have hvisits : ∀ l, (s.nextSphere g).visited l = s.visited l := fun l => by
    simp [visited]
  simp only [hvisits] at hfound
  have hvisited := fun l (hl : l ∈ ids) =>
    visited_sweep_look hg hrules.location_timeless hsound hl
  rw [← hfound, explore, if_neg (Option.some_ne_none 0).symm]
  split
  · next ht => rw [ht]
  · next id found t ht =>
    have ht_sound := ((Run.refl (g := g) (s := s)).nextSphere.sweep .look ids none).sound hg hs
    rw [ht] at hinventories hregions hvisited ht_sound ⊢
    have hclosed : ∀ age, g.ClosedUnderExits t.inventories age (t.regions age) := by
      intro age
      rw [hinventories, hregions]
      exact closedUnderExits_nextSphere hg hrules.exit_timeless hs age
    have hstill : ∀ age, (t.nextSphere g).regions age = (s.nextSphere g).regions age :=
      fun age => (regions_nextSphere_of_closed hg hrules.exit_timeless ht_sound
        (hclosed age)).trans (hregions age)
    have hopens := opens_congr (t := t.nextSphere g) hrules.location_timeless hinventories hstill
    have hmore : (t.explore g .look ids none).1 = [] := by
      apply explore_of_sweep_nil
      rw [(sweep_look hg hrules.location_timeless (sound_nextSphere hg ht_sound) ids).1]
      have hnone : ∀ l ∈ ids, ¬(!(t.nextSphere g).visited l && (t.nextSphere g).opens g l) := by
        intro l hl hnew
        rw [hopens, Bool.and_eq_true] at hnew
        have hv : (t.nextSphere g).visited l = true := by
          simpa [visited] using hvisited l hl hnew.2
        rw [hv] at hnew
        cases hnew.1
      rw [List.filter_eq_nil_iff.2 hnone]
      rfl
    change id :: (found ++ (t.explore g .look ids none).1) = id :: found
    rw [hmore, List.append_nil]

/-! ### Layers -/

/-- Each layer consists of the candidates outside the layers before it that are accessible in
a search which is started with the items of these, in the order of the candidates and without
repetition.  After the last layer there are none. -/
def Layered (g : Multiworld) (s : Search) (ids : List LocationId)
    (layers : List (List LocationId)) : Prop :=
  ∀ k, let earlier := (layers.take k).flatten
    ∃ f, start g (s.collectAllAt g earlier).inventories.toList = .ok f ∧
      layers.getD k [] = (ids.filter fun id => !earlier.contains id && f.opens g id).eraseDups

/-- Without boss keys an exploration that collects nothing leaves the inventories alone. -/
theorem inventories_look (hg : g.WellFormed) (hs : s.progress.Sound g) (hk : Keyless s.inventories)
    (ids : List LocationId) : (s.explore g .look ids none).2.inventories = s.inventories :=
  ((look_invariant (List.Subset.refl ids) []).explore none .start).inventories_eq hg hs hk

theorem inventories_collectAt_congr (h : t.inventories = s.inventories) (id : LocationId) :
    (t.collectAt g id).inventories = (s.collectAt g id).inventories := by
  unfold collectAt
  cases (g.location id).item with
  | none => exact h
  | some item =>
    simp only [collect, withItem]
    cases g.catalog.get? item.id with
    | none => exact h
    | some entry => simp only [h]

/-- What collecting does to the inventories depends on them alone. -/
theorem inventories_collectAllAt_congr (h : t.inventories = s.inventories)
    (ids : List LocationId) :
    (t.collectAllAt g ids).inventories = (s.collectAllAt g ids).inventories := by
  unfold collectAllAt
  induction ids generalizing s t with
  | nil => exact h
  | cons id ids ih => exact ih (inventories_collectAt_congr h id)

theorem collectAllAt_append (s : Search) (g : Multiworld) (ids ids' : List LocationId) :
    s.collectAllAt g (ids ++ ids') = (s.collectAllAt g ids).collectAllAt g ids' :=
  List.foldl_append

theorem Layered.nil (hf : start g s.inventories.toList = .ok f)
    (hnone : [] = (ids.filter fun id => f.opens g id).eraseDups) : Layered g s ids [] := by
  intro k
  rw [List.take_nil]
  exact ⟨f, hf, hnone⟩

theorem Layered.cons {layer : List LocationId} {layers : List (List LocationId)}
    (hf : start g s.inventories.toList = .ok f)
    (hlayer : layer = (ids.filter fun id => f.opens g id).eraseDups)
    (ht : t.inventories = (s.collectAllAt g layer).inventories)
    (h : Layered g t (outside layer ids) layers) : Layered g s ids (layer :: layers) := by
  intro k
  cases k with
  | zero => exact ⟨f, hf, hlayer⟩
  | succ k =>
    obtain ⟨f', hf', hlater⟩ := h k
    refine ⟨f', ?_, ?_⟩
    · rw [← hf', inventories_collectAllAt_congr ht, List.take_succ_cons, List.flatten_cons,
        collectAllAt_append]
    · rw [List.getD_cons_succ, hlater, outside, List.filter_filter]
      refine congrArg List.eraseDups (List.filter_congr fun id _ => ?_)
      rw [List.take_succ_cons, List.flatten_cons, List.contains_append, Bool.not_or,
        Bool.and_comm (!layer.contains id), Bool.and_assoc, Bool.and_right_comm, Bool.and_assoc]

/-- What a search finds that looks at candidates is what opens in one that is started afresh. -/
theorem found_afresh (hg : g.WellFormed) (hrules : g.Growing) (hs : start g invs = .ok s)
    (hk : Keyless s.inventories) (h : Advances g s t) (hfit : StockFits t.inventories)
    (hf : start g t.inventories.toList = .ok f) (hnew : ∀ id ∈ ids, t.visited id = false) :
    (t.explore g .look ids none).1 = (ids.filter fun id => f.opens g id).eraseDups := by
  have hsound := h.run.sound hg (sound_start hg hs)
  have hregions := h.regions_eq_of_start hg hrules.exits hs hk hfit hf
  have hinventories : (t.nextSphere g).inventories = f.inventories := by
    rw [inventories_nextSphere, inventories_start hf]
  have hopens := opens_congr hrules.location_timeless hinventories hregions
  rw [found_look hg hrules hsound]
  refine congrArg List.eraseDups (List.filter_congr fun id hid => ?_)
  rw [hnew id hid, hopens]
  rfl

theorem stockFits_of_spheresOf (hk : Keyless t.inventories)
    (hfit : StockFits (t.spheresOf g ids).2.inventories) : StockFits t.inventories :=
  ((Advances.refl.spheresOf ids).stockAtMost hk).fits hfit

/-- **The spheres of a search are layered.** -/
theorem layered_spheresOf (hg : g.WellFormed) (hrules : g.Growing) (hs : start g invs = .ok s)
    (hk : Keyless s.inventories) (h : Advances g s t)
    (hfit : StockFits (t.spheresOf g ids).2.inventories)
    (hnew : ∀ id ∈ ids, t.visited id = false) :
    Layered g t ids ((t.spheresOf g ids).1.map Sphere.locations) := by
  have hfit_t := stockFits_of_spheresOf (hk.of_atMost (h.stockAtMost hk)) hfit
  fun_induction spheresOf g ids t with
  | case1 ids t t' ht =>
    obtain ⟨f, hf⟩ := h.exists_start hs hk
    have hfound := found_afresh hg hrules hs hk h hfit_t hf hnew
    rw [ht] at hfound
    exact .nil hf hfound
  | case2 ids t id found t' ht u sphere spheres u' hu ih =>
    obtain ⟨f, hf⟩ := h.exists_start hs hk
    have hfound := found_afresh hg hrules hs hk h hfit_t hf hnew
    rw [ht] at hfound
    have hlook : t'.inventories = t.inventories := by
      have hsound := h.run.sound hg (sound_start hg hs)
      have hinventories := inventories_look hg hsound (hk.of_atMost (h.stockAtMost hk)) ids
      rwa [ht] at hinventories
    have hexplore := (Advances.invariant g .look ids s).explore none h
    rw [ht] at hexplore
    have hu_advances : Advances g s u := hexplore.collectAllAt (id :: found)
    have hu_new : ∀ l ∈ outside (id :: found) ids, u.visited l = false := by
      intro l hl
      obtain ⟨hl, hout⟩ := List.mem_filter.1 hl
      have hvisited := visited_explore g .look ids none t
      rw [ht] at hvisited
      have hnot := hnew l hl
      rw [visited, decide_eq_false_iff_not] at hnot ⊢
      rw [progress_collectAllAt, hvisited, List.mem_append, List.mem_reverse]
      simpa [hnot] using hout
    have hfit_end : StockFits (u.spheresOf g (outside (id :: found) ids)).2.inventories := by
      rwa [hu]
    have hfit_u := stockFits_of_spheresOf (hk.of_atMost (hu_advances.stockAtMost hk)) hfit_end
    rw [hu] at ih
    exact .cons hf hfound (inventories_collectAllAt_congr hlook _)
      (ih hu_advances hfit hu_new hfit_u)

theorem visited_spheresOf (g : Multiworld) (ids : List LocationId) (t : Search) :
    (t.spheresOf g ids).2.progress.visited =
      ((t.spheresOf g ids).1.map Sphere.locations).flatten.reverse ++ t.progress.visited := by
  fun_induction spheresOf g ids t with
  | case1 ids t t' ht =>
    have hvisited := visited_explore g .look ids none t
    rwa [ht] at hvisited
  | case2 ids t id found t' ht u sphere spheres u' hu ih =>
    have hvisited := visited_explore g .look ids none t
    rw [ht] at hvisited
    have hu_visited : u.progress.visited = (id :: found).reverse ++ t.progress.visited := by
      rw [progress_collectAllAt, hvisited]
    rw [hu] at ih
    rw [ih, hu_visited, List.map_cons, List.flatten_cons, List.reverse_append, List.append_assoc]

theorem ne_nil_of_mem_spheresOf {sphere : Sphere} (h : sphere ∈ (t.spheresOf g ids).1) :
    sphere.locations ≠ [] := by
  fun_induction spheresOf g ids t with
  | case1 => cases h
  | case2 ids t id found t' ht u sphere' spheres u' hu ih =>
    rw [hu] at ih
    rcases List.mem_cons.1 h with rfl | h
    · exact List.cons_ne_nil id found
    · exact ih h

/-- **Each sphere is what opens with the items before it.**  If further items keep all rules
true, no boss key comes with a key ring and no total gets too great, then for all candidates
the spheres of a search that has just started are not empty and have no location in common,
and each of them lists, in the order of the candidates, just those outside the spheres before
it that are accessible in a search which is started with the items of those.  So no location
needs an item of its own sphere or of a later one. -/
theorem collectSpheres_layers (hg : g.Built) (hrules : g.Growing) (hs : start g invs = .ok s)
    (hk : ∀ inv ∈ invs, inv.bearings.keyRings = [])
    (hfit : StockFits (s.collectSpheres g ids).2.inventories) :
    Layered g s ids (s.collectSpheres g ids).1.layers ∧
      (∀ layer ∈ (s.collectSpheres g ids).1.layers, layer ≠ []) ∧
      (s.collectSpheres g ids).1.layers.flatten.Nodup := by
  have hwell := hg.wellFormed
  have hvisited := visited_start hs
  refine ⟨?_, ?_, ?_⟩
  · refine layered_spheresOf hwell hrules hs (keyless_start hs hk) .refl hfit fun id _ => ?_
    simp [visited, hvisited]
  · intro layer hlayer
    obtain ⟨sphere, hsphere, rfl⟩ := List.mem_map.1 hlayer
    exact ne_nil_of_mem_spheresOf hsphere
  · have hnodup := ((Advances.refl.spheresOf ids).run (g := g) (s := s)).visited_nodup
      (hvisited ▸ .nil)
    rw [visited_spheresOf, hvisited, List.append_nil, List.nodup_reverse] at hnodup
    exact hnodup

/-- In the tower the bow is found before the Triforce, whatever the order of the chests. -/
theorem collectSpheres_towerWorld_layers : ∃ s,
    start towerWorld towerWorld.initialInventories = .ok s ∧
      Layered towerWorld s [⟨1⟩, ⟨0⟩, ⟨1⟩]
        (s.collectSpheres towerWorld [⟨1⟩, ⟨0⟩, ⟨1⟩]).1.layers := by
  obtain ⟨s, hs⟩ := exists_start_initial towerWorld
  have hkeys := keyRings_initial keyless_towerWorld
  refine ⟨s, hs, (collectSpheres_layers built_towerWorld growing_towerWorld hs hkeys ?_).1⟩
  have hatmost := (Advances.refl (g := towerWorld) (s := s)).spheresOf [⟨1⟩, ⟨0⟩, ⟨1⟩]
    |>.stockAtMost (keyless_start hs hkeys)
  refine stockFits_of_groups hatmost ?_
  rw [inventories_start hs]
  decide +kernel

end Search

end Progression
