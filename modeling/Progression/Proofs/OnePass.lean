import Mathlib.Data.Set.Basic
import Mathlib.Order.Bounds.Defs
import Progression.Proofs.LeastReach

/-!
# One pass is complete without tests of the time of day

A pass tries an exit that failed again only if some root gets a new time of day.  A rule
that does not test the time of day reads nothing that a pass changes: an exit that failed
would fail again, however much is found after it.  So if no exit tests the time of day, one
pass finds everything that the inventories open, from wherever the search has got to, and a
pass that follows it finds nothing.  Rules may be negated; the inventories do not change
during a pass.

## Main definitions

* `Search.regions` — the regions that a search has reached as an age.
* `Multiworld.ClosedUnderExits` — no exit that opens leads out of a set of regions.

## Main results

* `Search.regions_nextSphere_subset` — a pass stays within every closed set.
* `Search.closedUnderExits_nextSphere` — what is reached after a pass is closed.
* `Search.regions_nextSphere_isLeast` — **a pass finds the least closed set of regions**, and
  a start the one of the roots.
-/

namespace Progression

open Rule

variable {g : Multiworld} {invs : Array Inventory} {age : Age}

/-- A rule that does not test the time of day holds just when it does with the inventories
alone. -/
theorem evaluate_eq_holdsAt {p : Post} (h : p.formula.timeless = true) (m : Reached) :
    (evaluate g invs age .none p m).1 = p.formula.holdsAt (p.situation invs age .none) :=
  (Formula.holds_eq_holdsGiven (P := fun _ => True) (fun _ _ h => by cases h) _ m h trivial).1

theorem evaluate_eq_passesAt {id : ExitId} (h : (g.exit id).guard.formula.timeless = true)
    (m : Reached) :
    (evaluate g invs age .none (g.exit id).post m).1 = (g.exit id).passesAt invs age .none :=
  evaluate_eq_holdsAt h m

/-- No exit whose rule holds as an age leads from one of the regions to a further one. -/
def Multiworld.ClosedUnderExits (g : Multiworld) (invs : Array Inventory) (age : Age)
    (regions : Set RegionId) : Prop :=
  ∀ r ∈ regions, ∀ id ∈ (g.region r).exits, ∀ target, (g.exit id).connected = some target →
    (g.exit id).passesAt invs age .none = true → target ∈ regions

/-- An expansion stays within a closed set of regions. -/
theorem Multiworld.ClosedUnderExits.invariant (hg : g.WellFormed)
    (hrules : ∀ id, (g.exit id).guard.formula.timeless = true) {regions : Set RegionId}
    (h : g.ClosedUnderExits invs age regions) :
    ExpansionInvariant g invs age fun queue m =>
      Explored g queue m ∧ ∀ r, m.contains r = true → r ∈ regions where
  of_mem_iff hm hq := ⟨hm.1.of_mem_iff hq, hm.2⟩
  drop hm hid := ⟨hm.1.drop hid, hm.2⟩
  fail {id queue m m'} hm he := by
    have hremembers := remembers_of_evaluate he
    refine ⟨hm.1.remembers hremembers, fun r hr => hm.2 r ?_⟩
    rwa [← hremembers.contains]
  discover {id queue m m' target} hm hc hn he := by
    refine ⟨(explored_invariant hg).discover hm.1 hc hn he, fun s hs => ?_⟩
    have hpasses : (g.exit id).passesAt invs age .none = true := by
      rw [← evaluate_eq_passesAt (hrules id) m, he]
    obtain ⟨r, hr, hid⟩ := hm.1.listed id List.mem_cons_self
    obtain ⟨hlt, hw⟩ := hg.connected id target hc
    rw [contains_discover, Bool.or_eq_true, Bool.or_eq_true, decide_eq_true_iff,
      decide_eq_true_iff] at hs
    -- what is new is the region behind the exit; the roots are reached already
    rcases hs with rfl | rfl | hs
    · exact h r (hm.2 r hr) id hid _ hc hpasses
    · exact hm.2 _ (hm.1.roots _ (hw ▸ hg.region_world target hlt))
    · rw [(remembers_of_evaluate he).contains] at hs
      exact hm.2 s hs

namespace Search

variable {s : Search}

/-- The regions that a search has reached as an age. -/
def regions (s : Search) (age : Age) : Set RegionId :=
  {r | (s.progress.reached age).contains r = true}

/-- A pass stays within every closed set of regions. -/
theorem regions_nextSphere_subset (hg : g.WellFormed)
    (hrules : ∀ id, (g.exit id).guard.formula.timeless = true) (hs : s.progress.Sound g)
    {regions : Set RegionId} (h : g.ClosedUnderExits s.inventories age regions)
    (hsub : s.regions age ⊆ regions) : (s.nextSphere g).regions age ⊆ regions := by
  intro r hr
  have hreached : ((s.nextSphere g).progress.frontier age).reached.contains r = true := hr
  rw [frontier_nextSphere] at hreached
  have hinvariant := (h.invariant hg hrules).expandFrom (s.progress.frontier age).queue []
    (s.progress.frontier age).reached
  refine (hinvariant ⟨?_, fun r hr => hsub hr⟩).2 r hreached
  rw [List.append_nil]
  exact hs age

/-- A pass keeps what is reached. -/
theorem regions_subset_nextSphere (g : Multiworld) (s : Search) (age : Age) :
    s.regions age ⊆ (s.nextSphere g).regions age := by
  intro r hr
  change ((s.nextSphere g).progress.frontier age).reached.contains r = true
  rw [frontier_nextSphere]
  exact contains_expandFrom g s.inventories age _ [] _ hr

/-- What is reached after a pass is closed. -/
theorem closedUnderExits_nextSphere (hg : g.WellFormed)
    (hrules : ∀ id, (g.exit id).guard.formula.timeless = true) (hs : s.progress.Sound g)
    (age : Age) : g.ClosedUnderExits s.inventories age ((s.nextSphere g).regions age) := by
  intro r hr id hid target hc hpasses
  have hx : Explored g ((s.nextSphere g).progress.frontier age).queue
      ((s.nextSphere g).progress.reached age) := sound_nextSphere hg hs age
  -- else the exit is left in the queue, but what is left there has failed
  by_contra hn
  have hleft := hx.queued r hr id hid target hc (Bool.eq_false_iff.2 hn)
  rw [frontier_nextSphere] at hleft
  have hfailed := evaluate_of_mem_expandFrom _ [] _ (List.forall_mem_nil _) id hleft (hrules id)
    (s.progress.reached age)
  rw [evaluate_eq_passesAt (hrules id), hpasses] at hfailed
  cases hfailed

/-- A pass finds the least closed set of regions that has those reached before. -/
theorem isLeast_nextSphere (hg : g.WellFormed)
    (hrules : ∀ id, (g.exit id).guard.formula.timeless = true) (hs : s.progress.Sound g)
    (age : Age) :
    IsLeast {regions | s.regions age ⊆ regions ∧ g.ClosedUnderExits s.inventories age regions}
      ((s.nextSphere g).regions age) := by
  constructor
  · exact ⟨regions_subset_nextSphere g s age, closedUnderExits_nextSphere hg hrules hs age⟩
  · rintro regions ⟨hsub, hclosed⟩
    exact regions_nextSphere_subset hg hrules hs hclosed hsub

/-- Before anything is expanded the roots are reached. -/
theorem regions_rootProgress_subset (invs : Array Inventory) (age : Age)
    (regions : Set RegionId) :
    (Search.mk invs (rootProgress g)).regions age ⊆ regions ↔
      ∀ w : WorldId, w.index < g.worlds.size → g.root w ∈ regions := by
  have hreached : ∀ r, r ∈ (Search.mk invs (rootProgress g)).regions age ↔
      ∃ w : WorldId, w.index < g.worlds.size ∧ g.root w = r := by
    intro r
    cases age <;> exact contains_rootFrontier
  constructor
  · intro hsub w hw
    exact hsub ((hreached _).2 ⟨w, hw, rfl⟩)
  · intro hroots r hr
    obtain ⟨w, hw, rfl⟩ := (hreached r).1 hr
    exact hroots w hw

/-- A start finds the least closed set of regions that has the roots. -/
theorem isLeast_start (hg : g.WellFormed)
    (hrules : ∀ id, (g.exit id).guard.formula.timeless = true) {invs : List Inventory}
    {s : Search} (hs : start g invs = .ok s) (age : Age) :
    IsLeast {regions | (∀ w : WorldId, w.index < g.worlds.size → g.root w ∈ regions) ∧
        g.ClosedUnderExits invs.toArray age regions}
      (s.regions age) := by
  -- a start is a pass from the roots alone
  have hleast := isLeast_nextSphere (s := ⟨invs.toArray, rootProgress g⟩) hg hrules
    (sound_rootProgress hg) age
  simp only [← eq_of_start hs, regions_rootProgress_subset] at hleast
  exact hleast

/-- **Without tests of the time of day a pass finds the least closed set of regions** that has
those reached before, for every search that can be reached; a further pass finds nothing, and
a start finds the least closed set that has the roots. -/
theorem regions_nextSphere_isLeast (hg : g.Built)
    (hrules : ∀ id, (g.exit id).guard.formula.timeless = true) :
    (∀ {r : Rewindable}, r.Reachable g → ∀ age,
      IsLeast {regions | r.live.regions age ⊆ regions ∧
          g.ClosedUnderExits r.live.inventories age regions}
        ((r.live.nextSphere g).regions age) ∧
      ((r.live.nextSphere g).nextSphere g).regions age = (r.live.nextSphere g).regions age) ∧
    ∀ {invs : List Inventory} {s : Search}, start g invs = .ok s → ∀ age,
      IsLeast {regions | (∀ w : WorldId, w.index < g.worlds.size → g.root w ∈ regions) ∧
          g.ClosedUnderExits invs.toArray age regions}
        (s.regions age) := by
  have hg := hg.wellFormed
  constructor
  · intro r hr age
    have hs : r.live.progress.Sound g := (hr.sound hg).1
    refine ⟨isLeast_nextSphere hg hrules hs age, Set.Subset.antisymm ?_ ?_⟩
    · exact regions_nextSphere_subset hg hrules (sound_nextSphere hg hs)
        (closedUnderExits_nextSphere hg hrules hs age) subset_rfl
    · exact regions_subset_nextSphere g _ age
  · intro invs s hs age
    exact isLeast_start hg hrules hs age

/-- A world with a clearing where it is day.  A den is open to those without a bow, and the
lair behind it to those with one. -/
def lairWorld : Multiworld :=
  let start := (Multiworld.empty .empty).addWorld { Profile.plain with timeMatters := true }
  let w := start.1
  let root := start.2.root w
  let clearing := start.2.addRegion w "Clearing" .atDay
  let den := clearing.2.addRegion w "Den" .none
  let m := (den.2.addRegion w "Lair" .none).2
  let m := (m.addExit root "Root -> Clearing" "Clearing" "True").2
  let m := (m.addExit clearing.1 "Clearing -> Den" "Den" "not Bow").2
  let m := (m.addExit den.1 "Den -> Lair" "Lair" "Bow").2
  (Action.result (compileRules .empty 1) m).2

theorem built_lairWorld : lairWorld.Built :=
  .compileRules .empty 1 <|
    .addExit (by decide) _ _ _ <| .addExit (by decide) _ _ _ <|
    .addExit (by decide) _ _ _ <| .addRegion (by decide) _ _ <|
    .addRegion (by decide) _ _ <| .addRegion (by decide) _ _ <|
    .addWorld _ (.empty _)

/-- The den is found without a bow, and the lair behind it by a pass with one. -/
theorem regions_lairWorld_isLeast :
    (∀ id, (lairWorld.exit id).guard.formula.timeless = true) ∧
      (lairWorld.exit ⟨1⟩).guard.formula = .not (.item ⟨0⟩) ∧
      ∃ s, start lairWorld lairWorld.initialInventories = .ok s ∧
        IsLeast {regions | (∀ w : WorldId, w.index < lairWorld.worlds.size →
              lairWorld.root w ∈ regions) ∧
            lairWorld.ClosedUnderExits lairWorld.initialInventories.toArray .adult regions}
          (s.regions .adult) ∧
        let t := s.collect lairWorld ⟨⟨0⟩, ⟨0⟩⟩
        IsLeast {regions | t.regions .adult ⊆ regions ∧
            lairWorld.ClosedUnderExits t.inventories .adult regions}
          ((t.nextSphere lairWorld).regions .adult) := by
  have hrules : ∀ id, (lairWorld.exit id).guard.formula.timeless = true :=
    exit_of_all (p := fun e => e.guard.formula.timeless) rfl (by decide +kernel)
  obtain ⟨s, hs⟩ : ∃ s, start lairWorld lairWorld.initialInventories = .ok s :=
    exists_start (by decide +kernel)
  obtain ⟨hpass, hstart⟩ := regions_nextSphere_isLeast built_lairWorld hrules
  exact ⟨hrules, by decide +kernel, s, hs, hstart hs .adult,
    (hpass (.run (.start hs) (.collect ⟨⟨0⟩, ⟨0⟩⟩ .refl)) .adult).1⟩

end Search

end Progression
