import Progression.Proofs.Collecting

/-!
# A search in progress and one started afresh

A search that advances meets each exit again and again, with whatever was collected by then,
and leaves what failed in its queue.  A search that is started afresh with the present items
meets each exit with these.  If further items keep the rules of all exits true, the two have
reached the same regions after a pass: what was reached with fewer items is reached with the
present ones as well, and a pass leaves nothing out.

## Main definitions

* `Search.Advances` — what a search can come to without giving anything back.
* `Search.Earned` — all that is reached can be reached from the roots with the present items.

## Main results

* `Search.Advances.earned` — a search that advances has earned what it has reached.
* `Search.Advances.regions_afresh` — **after a pass, a search has reached what one that is started
  afresh reaches.**
-/

namespace Progression

open Rule

/-! ### Starting with the items of a search -/

namespace Search

variable {g : Multiworld} {invs : List Inventory} {ids : List LocationId} {manner : Manner}
  {s t u : Search}

/-- A start has one inventory for each world, in the order of the worlds. -/
theorem inWorldOrder_of_start (hs : start g invs = .ok s) :
    s.inventories.size = g.worlds.size ∧
      ∀ w : WorldId, w.index < s.inventories.size → (inventoryOf s.inventories w).world = w := by
  have hinvs := inventories_start hs
  unfold start at hs
  split at hs
  · cases hs
  · next hlength =>
    split at hs
    · next horder =>
      rw [hinvs, List.size_toArray]
      refine ⟨not_not.1 hlength, fun w hw => ?_⟩
      rw [inventoryOf, Array.getD_eq_getD_getElem?, List.getElem?_toArray,
        List.getElem?_eq_getElem hw]
      exact inWorldOrder_iff.1 horder w.index hw
    · cases hs

/-- What a search can come to by expanding, asking, collecting and visiting.  Nothing is
given back. -/
inductive Advances (g : Multiworld) (s : Search) : Search → Prop where
  | refl : Advances g s s
  | nextSphere {t : Search} (h : Advances g s t) : Advances g s (t.nextSphere g)
  | evaluate {t : Search} (age : Age) (times : TimeOfDay) (p : Post) (h : Advances g s t) :
    Advances g s (t.evaluate g age times p).2
  | reachableAt {t : Search} (age : Age) (region : RegionId) (times : TimeOfDay)
    (h : Advances g s t) : Advances g s (t.reachableAt g age region times).2
  | collect {t : Search} (item : PlacedItem) (h : Advances g s t) : Advances g s (t.collect g item)
  | visit {t : Search} (id : LocationId) (h : Advances g s t) : Advances g s (t.visit id)

namespace Advances

theorem run (h : Advances g s t) : Run g s t := by
  induction h with
  | refl => exact .refl
  | nextSphere _ ih => exact ih.nextSphere
  | evaluate age times p _ ih => exact ih.evaluate age times p
  | reachableAt age region times _ ih => exact ih.reachableAt age region times
  | collect item _ ih => exact ih.collect item
  | visit id _ ih => exact ih.visit id

/-! ### What advances are made of -/

theorem accessible (id : LocationId) (age : Age) (h : Advances g s t) :
    Advances g s (t.accessible g id age).2 := by
  unfold Search.accessible
  dsimp only
  split
  · exact h.evaluate age .none _
  · exact h

theorem tryVisit (id : LocationId) (h : Advances g s t) :
    Advances g s (t.tryVisit g id).2 := by
  have haccess : Advances g s (eitherHolds (Search.accessible g id .adult)
      (Search.accessible g id .child) t).2 :=
    eitherHolds_keeps (fun u hu => hu.accessible id .adult) (fun u hu => hu.accessible id .child)
      t h
  unfold Search.tryVisit
  split
  · exact h
  · dsimp only
    split
    · exact haccess.visit id
    · exact haccess

theorem collectAt (id : LocationId) (h : Advances g s t) : Advances g s (t.collectAt g id) := by
  unfold Search.collectAt
  split
  · exact h.collect _
  · exact h

theorem collectAllAt (ids : List LocationId) (h : Advances g s t) :
    Advances g s (t.collectAllAt g ids) := by
  unfold Search.collectAllAt
  induction ids generalizing t with
  | nil => exact h
  | cons id ids ih => exact ih (h.collectAt id)

theorem invariant (g : Multiworld) (manner : Manner) (ids : List LocationId) (s : Search) :
    ExplorationInvariant g manner ids (Advances g s) where
  expand h := h.nextSphere
  fail {t t' id} _ h ht := by
    have htry := h.tryVisit id
    rwa [ht] at htry
  find {t t' id} _ h ht := by
    have htry := h.tryVisit id
    rw [ht] at htry
    cases manner
    · exact htry
    · exact htry.collectAt id

theorem spheresOf (ids : List LocationId) (h : Advances g s t) :
    Advances g s (t.spheresOf g ids).2 := by
  fun_induction Search.spheresOf g ids t with
  | case1 ids t t' ht =>
    have hexplore := (invariant g .look ids s).explore none h
    rwa [ht] at hexplore
  | case2 ids t id found t' ht u sphere spheres u' hu ih =>
    have hexplore := (invariant g .look ids s).explore none h
    rw [ht] at hexplore
    have hrest := ih (hexplore.collectAllAt (id :: found))
    rwa [hu] at hrest

/-! ### Inventories -/

/-- A search that advances holds no less than before, for the same worlds. -/
theorem stockAtMost (hk : Keyless s.inventories) (h : Advances g s t) :
    StockAtMost s.inventories t.inventories := by
  induction h with
  | refl => exact .refl _
  | nextSphere _ ih => exact ih
  | evaluate age times p _ ih => exact ih
  | reachableAt age region times _ ih => exact ih
  | collect item _ ih => exact ih.trans (stockAtMost_collectItem (hk.of_atMost ih) item)
  | visit id _ ih => exact ih

theorem size_inventories (h : Advances g s t) : t.inventories.size = s.inventories.size := by
  induction h with
  | refl => rfl
  | nextSphere _ ih => exact ih
  | evaluate age times p _ ih => exact ih
  | reachableAt age region times _ ih => exact ih
  | collect item _ ih =>
    rw [← ih, Search.collect, Search.withItem]
    split
    · exact Array.size_modify
    · rfl
  | visit id _ ih => exact ih

/-- The inventories of a search that has advanced from a start can be started with. -/
theorem exists_start (hs : start g invs = .ok s) (hk : Keyless s.inventories)
    (h : Advances g s t) : ∃ f, start g t.inventories.toList = .ok f := by
  obtain ⟨hsize, hworld⟩ := inWorldOrder_of_start hs
  refine exists_start_of_size (h.size_inventories.trans hsize) fun w hw => ?_
  rw [h.size_inventories] at hw
  exact (congrArg Bearings.world (h.stockAtMost hk w).bearings).symm.trans (hworld w hw)

end Advances

/-! ### What is reached -/

theorem regions_ask (asked : Age) {question : Reached → Bool × Reached}
    (hq : ∀ m r, (question m).2.contains r = m.contains r) (age : Age) :
    (s.ask asked question).2.regions age = s.regions age := by
  ext r
  change ((s.progress.setFrontier asked _).frontier age).reached.contains r = true ↔ _
  rw [Progress.frontier_setFrontier]
  split
  · next hage =>
    subst hage
    exact iff_of_eq (congrArg (· = true) (hq _ r))
  · rfl

theorem regions_visit (id : LocationId) (age : Age) : (s.visit id).regions age = s.regions age := by
  ext r
  change ((s.progress.visit id).frontier age).reached.contains r = true ↔ _
  rw [Progress.frontier_visit]
  rfl

/-- All that is reached can be reached from the roots with the present items: it is in every
set of regions that has the roots and that no exit leads out of. -/
def Earned (g : Multiworld) (s : Search) : Prop :=
  ∀ age regions, (∀ w : WorldId, w.index < g.worlds.size → g.root w ∈ regions) →
    g.ClosedUnderExits s.inventories age regions → s.regions age ⊆ regions

/-- A start has reached only what every closed set has. -/
theorem earned_start (hg : g.WellFormed)
    (hrules : ∀ id, (g.exit id).guard.formula.timeless = true) (hs : start g invs = .ok s) :
    Earned g s := by
  intro age regions hroots hclosed
  rw [inventories_start hs] at hclosed
  exact (isLeast_start hg hrules hs age).2 ⟨hroots, hclosed⟩

/-- **A search that advances has earned what it has reached**, because what opened with fewer
items opens with the present ones. -/
theorem Advances.earned (hg : g.WellFormed)
    (hexits : ∀ id, (g.exit id).guard.formula.growing = true) (hs : start g invs = .ok s)
    (hk : Keyless s.inventories) (h : Advances g s t) (hfit : StockFits t.inventories) :
    Earned g t := by
  have hrules := fun id => Formula.timeless_of_growing _ (hexits id)
  induction h with
  | refl => exact earned_start hg hrules hs
  | nextSphere h ih =>
    intro age regions hroots hclosed
    have hsound := h.run.sound hg (sound_start hg hs)
    exact regions_nextSphere_subset hg hrules hsound hclosed (ih hfit age regions hroots hclosed)
  | @evaluate t asked times p h ih =>
    intro age regions hroots hclosed
    rw [Search.evaluate, regions_ask asked (contains_evaluate g t.inventories asked times p)]
    exact ih hfit age regions hroots hclosed
  | @reachableAt t asked region times h ih =>
    intro age regions hroots hclosed
    rw [Search.reachableAt,
      regions_ask asked (contains_reachableAt g t.inventories asked region times)]
    exact ih hfit age regions hroots hclosed
  | @collect t item h ih =>
    intro age regions hroots hclosed
    have hatmost := stockAtMost_collectItem (g := g) (hk.of_atMost (h.stockAtMost hk)) item
    rw [Search.regions, progress_collect]
    exact ih (hatmost.fits hfit) age regions hroots (hclosed.of_atMost hexits hatmost hfit)
  | visit id h ih =>
    intro age regions hroots hclosed
    rw [regions_visit]
    exact ih hfit age regions hroots hclosed

theorem Advances.regions_eq_of_start (hg : g.WellFormed)
    (hexits : ∀ id, (g.exit id).guard.formula.growing = true) (hs : start g invs = .ok s)
    (hk : Keyless s.inventories) (h : Advances g s t) (hfit : StockFits t.inventories) {f : Search}
    (hf : start g t.inventories.toList = .ok f) (age : Age) :
    (t.nextSphere g).regions age = f.regions age := by
  have hrules := fun id => Formula.timeless_of_growing _ (hexits id)
  have hsound := h.run.sound hg (sound_start hg hs)
  have hpass := isLeast_nextSphere hg hrules hsound age
  have hstart := isLeast_start hg hrules hf age
  obtain ⟨hroots, hclosed⟩ := hstart.1
  apply Set.Subset.antisymm
  · have hsub := h.earned hg hexits hs hk hfit age (f.regions age) hroots hclosed
    exact hpass.2 ⟨hsub, hclosed⟩
  · exact hstart.2 ⟨fun w hw => hpass.1.1 ((hsound age).roots w hw), hpass.1.2⟩

/-- **After a pass, a search has reached what one that is started afresh reaches.**  If
further items keep the rules of all exits true, no boss key comes with a key ring and no total
gets too great, then however a search has expanded, asked, collected and visited since its
start, after a pass it has reached just the regions, as each age, that a search reaches that is
started with its present inventories. -/
theorem Advances.regions_afresh (hg : g.Built)
    (hexits : ∀ id, (g.exit id).guard.formula.growing = true) (hs : start g invs = .ok s)
    (hk : ∀ inv ∈ invs, inv.bearings.keyRings = []) (h : Advances g s t)
    (hfit : StockFits t.inventories) :
    ∃ f, start g t.inventories.toList = .ok f ∧
      ∀ age, (t.nextSphere g).regions age = f.regions age := by
  have hkeyless := keyless_start hs hk
  obtain ⟨f, hf⟩ := h.exists_start hs hkeyless
  exact ⟨f, hf, h.regions_eq_of_start hg.wellFormed hexits hs hkeyless hfit hf⟩

/-- With the bow, a search that had found the tower closed finds what a fresh one does. -/
theorem regions_towerWorld_afresh :
    (towerWorld.exit ⟨0⟩).guard.formula = .item ⟨0⟩ ∧
      ∃ s, start towerWorld towerWorld.initialInventories = .ok s ∧
        let t := ((s.tryVisit towerWorld ⟨1⟩).2.collect towerWorld ⟨⟨0⟩, ⟨0⟩⟩).visit ⟨0⟩
        ∃ f, start towerWorld t.inventories.toList = .ok f ∧
          ∀ age, (t.nextSphere towerWorld).regions age = f.regions age := by
  obtain ⟨s, hs⟩ := exists_start_initial towerWorld
  have hkeys := keyRings_initial keyless_towerWorld
  have hadvances : Advances towerWorld s
      (((s.tryVisit towerWorld ⟨1⟩).2.collect towerWorld ⟨⟨0⟩, ⟨0⟩⟩).visit ⟨0⟩) :=
    ((Advances.refl.tryVisit ⟨1⟩).collect _).visit ⟨0⟩
  refine ⟨by decide +kernel, s, hs, ?_⟩
  refine hadvances.regions_afresh built_towerWorld growing_towerWorld.exits hs hkeys ?_
  refine stockFits_of_groups (hadvances.stockAtMost (keyless_start hs hkeys)) ?_
  rw [inventories_start hs]
  decide +kernel

end Search

end Progression
