import Mathlib.Logic.Function.Iterate
import Progression.Proofs.Runs

/-!
# What is reachable without collecting anything

Which regions are reachable and which regions are reachable at a time of day depend on
each other: a rule may ask whether its region is reachable at night, and a time spreads
only among reachable regions.  If the tests of the time of day are never negated, there is
a least pair of such relations, and expanding a fresh search until nothing is found
computes it.

The roots are special.  A region that is found gives the times that it provides to the root
of its world as well, but the roots themselves are not found: a search starts with them at
no time of day, so a time that a root provides itself does not count.

## Main definitions

* `Closed` — what two relations have to contain to be those of reachability.
* `IsLeastClosed` — a closed pair of relations that is within every other one.

## Main results

* `Search.within_spheres` — a search finds only what is in every closed pair.
* `Search.closed_of_stalled` — when nothing further is found, what is reachable is closed.
* `Search.exists_stalled` — expanding comes to an end.
* `Search.reach_least` — **the regions and times found are the least closed pair.**
-/

namespace Progression

open Rule

/-- Whether the rule of an exit holds when its tests of the time of day are answered by a
relation of the regions and times. -/
def Exit.opensGiven (e : Exit) (invs : Array Inventory) (age : Age)
    (at? : TimeOfDay → RegionId → Bool) : Bool :=
  e.post.formula.holdsGiven (fun q => at? q.times q.region) (e.post.situation invs age .none)

/-- The regions with `reached`, and those with `at?` for the day or the night, are closed
under exits and under the spreading of times. -/
structure Closed (g : Multiworld) (invs : Array Inventory) (age : Age)
    (reached : RegionId → Bool) (at? : TimeOfDay → RegionId → Bool) : Prop where
  root : ∀ w : WorldId, w.index < g.worlds.size → reached (g.root w) = true
  /-- An exit whose rule holds leads on. -/
  exit : ∀ r, reached r = true → ∀ id ∈ (g.region r).exits, ∀ target,
    (g.exit id).connected = some target → (g.exit id).opensGiven invs age at? = true →
      reached target = true
  /-- A region that is no root has the times that it provides. -/
  provided : ∀ r, reached r = true → ¬ g.IsRoot r → ∀ t, t.isSingle = true →
    (g.region r).provides.meets t = true → at? t r = true
  /-- So does the root of its world. -/
  rootProvided : ∀ r, reached r = true → ¬ g.IsRoot r → ∀ t, t.isSingle = true →
    (g.region r).provides.meets t = true → at? t (g.root (g.region r).world) = true
  /-- A time spreads through exits whose rules hold at that time to reachable regions. -/
  spread : ∀ t r, t.isSingle = true → at? t r = true → ∀ id ∈ (g.region r).exits, ∀ target,
    (g.exit id).connected = some target → reached target = true →
      (g.exit id).passesAt invs age t = true → at? t target = true

/-- Whether one pair of relations is within another one. -/
structure Within (reached : RegionId → Bool) (at? : TimeOfDay → RegionId → Bool)
    (reached' : RegionId → Bool) (at?' : TimeOfDay → RegionId → Bool) : Prop where
  reached : ∀ r, reached r = true → reached' r = true
  times : ∀ t r, t.isSingle = true → at? t r = true → at?' t r = true

/-- Whether a pair of relations is closed, and within every other closed pair. -/
structure IsLeastClosed (g : Multiworld) (invs : Array Inventory) (age : Age)
    (reached : RegionId → Bool) (at? : TimeOfDay → RegionId → Bool) : Prop where
  closed : Closed g invs age reached at?
  least : ∀ reached' at?', Closed g invs age reached' at?' → Within reached at? reached' at?'

section Least

variable {g : Multiworld} {invs : Array Inventory} {age : Age} {reached : RegionId → Bool}
  {at? : TimeOfDay → RegionId → Bool}

/-! ### Soundness -/

/-- Times arrive only where a closed pair has them. -/
theorem Closed.arrives (h : Closed g invs age reached at?) {m : Reached}
    (hm : Within m.contains m.hasTime reached at?) {t : TimeOfDay} (ht : t.isSingle = true)
    {r : RegionId} (hr : Arrives g invs age t m r) : at? t r = true := by
  induction hr with
  | known hk => exact hm.times t _ ht hk
  | through _ hid hc htarget hp ih =>
    exact h.spread t _ ht ih _ hid _ hc (hm.reached _ htarget) hp

/-- What is remembered stays within a closed pair. -/
theorem Closed.within_recalls (h : Closed g invs age reached at?) {m m' : Reached}
    (hm : Within m.contains m.hasTime reached at?) (hr : Recalls g invs age m m') :
    Within m'.contains m'.hasTime reached at? where
  reached r h' := hm.reached r (hr.contains r ▸ h')
  times t r ht h' := h.arrives hm ht (hr.arrives t r ht h')

/-- A rule without negated tests of the time of day holds for a closed pair if it holds
for what is known within it. -/
theorem Closed.opensGiven (hg : g.WellFormed) (h : Closed g invs age reached at?) {m : Reached}
    (hdistinct : m.Distinct) (hm : Within m.contains m.hasTime reached at?) {id : ExitId}
    (hpos : (g.exit id).guard.formula.positive = true)
    (he : (evaluate g invs age .none (g.exit id).post m).1 = true) :
    (g.exit id).opensGiven invs age at? = true := by
  have htimes := exit_post_times hg id
  rw [(evaluate_spec hg hdistinct htimes .none).1] at he
  -- the answers for other times than day and night alone play no part
  let more (q : Query) : Bool := !q.times.isSingle || at? q.times q.region
  have hmore : ∀ q, answersIn g invs age m q = true → more q = true := by
    intro q hq
    cases hs : q.times.isSingle with
    | false => simp [more, hs]
    | true =>
      have := h.arrives hm hs ((answersIn_iff hg hdistinct hs).1 hq)
      simp [more, this]
  have hopens := Formula.holdsGiven_mono hmore _ hpos he
  rw [Exit.opensGiven, ← hopens]
  exact (Formula.holdsGiven_congr (fun q hq => by simp [more, hq]) htimes).symm

/-- Every exit to a region that does not have `reached` has a rule without negated tests of
the time of day. -/
def PositiveBeyond (g : Multiworld) (reached : RegionId → Bool) : Prop :=
  ∀ id target, (g.exit id).connected = some target → reached target = false →
    (g.exit id).guard.formula.positive = true

/-- A discovery stays within a closed pair. -/
theorem Closed.within_discover (hg : g.WellFormed) (h : Closed g invs age reached at?)
    {queue : List ExitId} {m m' : Reached} {id : ExitId} {target : RegionId}
    (hpos : PositiveBeyond g reached) (hx : Explored g (id :: queue) m)
    (hm : Within m.contains m.hasTime reached at?) (hc : (g.exit id).connected = some target)
    (hn : m.contains target = false)
    (he : evaluate g invs age .none (g.exit id).post m = (true, m')) :
    Within (m'.discover g (g.exit id).world target).contains
      (m'.discover g (g.exit id).world target).hasTime reached at? := by
  obtain ⟨hlt, hw⟩ := hg.connected id target hc
  obtain ⟨r, hr, hid⟩ := hx.listed id List.mem_cons_self
  have htarget : reached target = true := by
    cases hb : reached target with
    | true => rfl
    | false =>
      have hopens := h.opensGiven hg hx.distinct hm (hpos id target hc hb) (by rw [he])
      rw [h.exit r (hm.reached r hr) id hid target hc hopens] at hb
      cases hb
  have hroot : m.contains (g.root (g.exit id).world) = true :=
    hx.roots _ (hw ▸ hg.region_world target hlt)
  -- the roots are reached, so the target is none of them
  have hnr : ¬ g.IsRoot target := by
    intro hr
    rw [hr, hw, hroot] at hn
    cases hn
  have hm' := h.within_recalls hm (recalls_evaluate hg hx.distinct he)
  constructor
  case reached =>
    intro s hs
    rw [contains_discover, Bool.or_eq_true, Bool.or_eq_true, decide_eq_true_iff,
      decide_eq_true_iff] at hs
    rcases hs with rfl | rfl | hs
    · exact htarget
    · exact hm.reached _ hroot
    · exact hm'.reached s hs
  case times =>
    intro t s ht hs
    rw [hasTime_discover] at hs
    split at hs
    · next heq =>
      subst heq
      exact h.provided _ htarget hnr t ht hs
    · rw [Bool.or_eq_true, Bool.and_eq_true, decide_eq_true_iff] at hs
      rcases hs with hs | ⟨rfl, hs⟩
      · exact hm'.times t s ht hs
      · rw [← hw]
        exact h.rootProvided target htarget hnr t ht hs

/-- An expansion stays within a closed pair. -/
theorem Closed.invariant (hg : g.WellFormed) (hpos : PositiveBeyond g reached)
    (h : Closed g invs age reached at?) :
    ExpansionInvariant g invs age fun queue m =>
      Explored g queue m ∧ Within m.contains m.hasTime reached at? where
  of_mem_iff hm hq := ⟨hm.1.of_mem_iff hq, hm.2⟩
  drop hm hid := ⟨hm.1.drop hid, hm.2⟩
  fail hm he := ⟨hm.1.remembers (remembers_of_evaluate he),
    h.within_recalls hm.2 (recalls_evaluate hg hm.1.distinct he)⟩
  discover hm hc hn he := ⟨(explored_invariant hg).discover hm.1 hc hn he,
    h.within_discover hg hpos hm.1 hm.2 hc hn he⟩

/-- Nothing is remembered of the roots at first. -/
theorem hasTime_rootFrontier (t : TimeOfDay) (r : RegionId) :
    (Search.rootFrontier g).reached.hasTime t r = false := by
  have never : ∀ (roots : List RegionId) (m : Reached), m.hasTime t r = false →
      (roots.foldl (fun m r => m.insert r .none) m).hasTime t r = false := by
    intro roots
    induction roots with
    | nil => exact fun _ h => h
    | cons x roots ih =>
      intro m h
      refine ih _ ?_
      rw [Reached.hasTime_insert, TimeOfDay.meets_none, h, ite_self]
  exact never _ _ rfl

/-- The roots are within every closed pair. -/
theorem Closed.within_root (h : Closed g invs age reached at?) :
    Within (Search.rootFrontier g).reached.contains (Search.rootFrontier g).reached.hasTime
      reached at? where
  reached r hr := by
    obtain ⟨w, hw, rfl⟩ := Search.contains_rootFrontier.1 hr
    exact h.root w hw
  times t r _ hr := by
    rw [hasTime_rootFrontier] at hr
    cases hr

end Least

namespace Search

variable {g : Multiworld} {s : Search}

/-! ### Repeated expansions -/

theorem inventories_spheres (g : Multiworld) (s : Search) (n : Nat) :
    ((nextSphere · g)^[n] s).inventories = s.inventories := by
  induction n with
  | zero => rfl
  | succ n ih => rw [Function.iterate_succ_apply', inventories_nextSphere, ih]

/-- What every step of an expansion keeps, repeated expansions keep. -/
theorem invariant_spheres {age : Age} {inv : List ExitId → Reached → Prop}
    (hinv : ExpansionInvariant g s.inventories age inv)
    (h : inv (s.progress.frontier age).queue (s.progress.reached age)) (n : Nat) :
    inv (((nextSphere · g)^[n] s).progress.frontier age).queue
      (((nextSphere · g)^[n] s).progress.reached age) := by
  induction n with
  | zero => exact h
  | succ n ih =>
    rw [Function.iterate_succ_apply', Progress.reached, frontier_nextSphere, inventories_spheres]
    exact hinv.expandFrom _ [] _ (hinv.of_mem_iff ih fun id => by rw [List.append_nil])

/-- A search that has started has expanded once. -/
theorem spheres_of_start {invs : List Inventory} (h : start g invs = .ok s) (n : Nat) :
    (nextSphere · g)^[n] s = (nextSphere · g)^[n + 1] ⟨invs.toArray, rootProgress g⟩ := by
  rw [Function.iterate_succ_apply, eq_of_start h]

/-- A search finds only what is in a closed pair, if negated tests of the time of day do not
matter outside of it. -/
theorem within_spheres_of_positiveBeyond (hg : g.WellFormed) {invs : List Inventory} {age : Age}
    {reached : RegionId → Bool} {at? : TimeOfDay → RegionId → Bool}
    (hpos : PositiveBeyond g reached) (h : Closed g invs.toArray age reached at?)
    (hs : start g invs = .ok s) (n : Nat) :
    Within (((nextSphere · g)^[n] s).progress.reached age).contains
      (((nextSphere · g)^[n] s).progress.reached age).hasTime reached at? := by
  have hroot : (rootProgress g).frontier age = rootFrontier g := by cases age <;> rfl
  -- a start is an expansion from the roots alone
  rw [spheres_of_start hs]
  refine (invariant_spheres (h.invariant hg hpos) ?_ (n + 1)).2
  rw [Progress.reached, hroot]
  exact ⟨explored_rootFrontier hg, h.within_root⟩

/-- **A search finds only what is in every closed pair.** -/
theorem within_spheres (hg : g.WellFormed) (hpos : ∀ id, (g.exit id).guard.formula.positive = true)
    {invs : List Inventory} {age : Age} {reached : RegionId → Bool}
    {at? : TimeOfDay → RegionId → Bool} (h : Closed g invs.toArray age reached at?)
    (hs : start g invs = .ok s) (n : Nat) :
    Within (((nextSphere · g)^[n] s).progress.reached age).contains
      (((nextSphere · g)^[n] s).progress.reached age).hasTime reached at? :=
  within_spheres_of_positiveBeyond hg (fun id _ _ _ => hpos id) h hs n

/-! ### Completeness -/

/-- **When nothing further is found, what is reachable is closed.** -/
theorem closed_of_stalled (hg : g.WellFormed) (hs : s.progress.Sound g) (h : s.Stalled g)
    (age : Age) :
    Closed g s.inventories age (s.progress.reached age).contains
      fun t r => (s.reachableAt g age r t).1 := by
  have hx : Explored g (s.progress.frontier age).queue (s.progress.reached age) := hs age
  have arrives : ∀ {t r}, t.isSingle = true → ((s.reachableAt g age r t).1 = true ↔
      Arrives g s.inventories age t (s.progress.reached age) r) :=
    fun ht => (reachableAt_spec hg ht hx.distinct _).1
  constructor
  case root => exact hx.roots
  case exit =>
    intro r hr id hid target hc hopens
    -- else the exit is queued, and it would lead to the target at once
    cases hn : (s.progress.reached age).contains target with
    | true => rfl
    | false =>
      have hqueued := hx.queued r hr id hid target hc hn
      have hblocked := (stalled_iff hg hs).1 h age id hqueued target hc hn
      rw [(evaluate_spec hg hx.distinct (exit_post_times hg id) .none).1] at hblocked
      exact hblocked.symm.trans hopens
  case provided =>
    intro r hr hnr t ht hp
    exact (arrives ht).2 (.known (hx.provided r hr hnr t hp))
  case rootProvided =>
    intro r hr hnr t ht hp
    exact (arrives ht).2 (.known (hx.rootProvided r hr hnr t hp))
  case spread =>
    intro t r ht hr id hid target hc htarget hp
    exact (arrives ht).2 (.through ((arrives ht).1 hr) hid hc htarget hp)

/-! ### The end of the expansions -/

theorem openings_invariant (g : Multiworld) (invs : Array Inventory) (age : Age) (m : Reached) :
    ExpansionInvariant g invs age fun _ m' =>
      (∀ r, m.contains r = true → m'.contains r = true) ∧
        ((∀ r, m'.contains r = m.contains r) ∨ openings g m' < openings g m) where
  of_mem_iff h _ := h
  drop h _ := h
  fail h he := by
    have hcontains := (remembers_of_evaluate he).contains
    simpa only [hcontains, openings_congr hcontains] using h
  discover {id queue m' m'' target} h hc hn he := by
    have hcontains := (remembers_of_evaluate he).contains
    have hmore : ∀ r, m'.contains r = true →
        (m''.discover g (g.exit id).world target).contains r = true := by
      intro r hr
      rw [contains_discover, hcontains, hr, Bool.or_true, Bool.or_true]
    have hlt : openings g (m''.discover g (g.exit id).world target) < openings g m' :=
      openings_lt hc hn (by simp) hmore
    refine ⟨fun r hr => hmore r (h.1 r hr), .inr ?_⟩
    rcases h.2 with h | h
    · rwa [← openings_congr h]
    · exact Nat.lt_trans hlt h

/-- The number of exits that lead to regions that are not reached, as either age. -/
def openings (g : Multiworld) (s : Search) : Nat :=
  Progression.openings g (s.progress.reached .adult) +
    Progression.openings g (s.progress.reached .child)

/-- An expansion that finds something leaves fewer exits opening. -/
theorem openings_nextSphere (h : ¬ s.Stalled g) : (s.nextSphere g).openings g < s.openings g := by
  have each : ∀ age, (∀ r, ((s.nextSphere g).progress.reached age).contains r =
      (s.progress.reached age).contains r) ∨
      Progression.openings g ((s.nextSphere g).progress.reached age) <
        Progression.openings g (s.progress.reached age) := by
    intro age
    rw [Progress.reached, frontier_nextSphere]
    exact ((openings_invariant g s.inventories age _).expandFrom _ [] _
      ⟨fun _ h => h, .inl fun _ => rfl⟩).2
  unfold openings
  rcases each .adult with ha | ha <;> rcases each .child with hc | hc
  · refine absurd (fun age => ?_) h
    cases age
    · exact hc
    · exact ha
  · rw [openings_congr ha]
    omega
  · rw [openings_congr hc]
    omega
  · omega

/-- Repeated expansions come to an end. -/
theorem exists_stalled (g : Multiworld) (s : Search) :
    ∃ n, ((nextSphere · g)^[n] s).Stalled g := by
  -- an expansion that finds something leaves fewer exits opening
  induction ho : s.openings g using Nat.strongRecOn generalizing s with
  | ind o ih =>
    subst ho
    by_cases h : s.Stalled g
    · exact ⟨0, h⟩
    · obtain ⟨n, hn⟩ := ih _ (openings_nextSphere h) _ rfl
      exact ⟨n + 1, hn⟩

/-- A further expansion changes nothing about that. -/
theorem Stalled.nextSphere (hg : g.WellFormed) (hs : s.progress.Sound g) (h : s.Stalled g) :
    (s.nextSphere g).Stalled g := by
  refine (stalled_iff hg (sound_nextSphere hg hs)).2 fun age id hid target hc hn => ?_
  have hx := hs age
  -- the exit was queued before, because its target was not reached then either
  obtain ⟨r, hr, hlisted⟩ := (sound_nextSphere hg hs age).listed id hid
  have hqueued := hx.queued r ((h age r).symm.trans hr) id hlisted target hc
    ((h age target).symm.trans hn)
  exact ((h.recalls hg hs age).blocked_iff hg hx.distinct).2
    ((stalled_iff hg hs).1 h age id hqueued) target hc hn

theorem Stalled.spheres (hg : g.WellFormed) (hs : s.progress.Sound g) (h : s.Stalled g) (n : Nat) :
    ((Search.nextSphere · g)^[n] s).Stalled g := by
  induction n generalizing s with
  | zero => exact h
  | succ n ih => exact ih (sound_nextSphere hg hs) (h.nextSphere hg hs)

theorem sound_spheres (hg : g.WellFormed) (hs : s.progress.Sound g) (n : Nat) :
    ((nextSphere · g)^[n] s).progress.Sound g := by
  induction n generalizing s with
  | zero => exact hs
  | succ n ih => exact ih (sound_nextSphere hg hs)

/-- **The regions that a fresh search finds and the times at which they are reachable are
the least closed pair of relations**, once further expansions find nothing, and it takes
finitely many expansions until then. -/
theorem reach_least (hg : g.Built) (hpos : ∀ id, (g.exit id).guard.formula.positive = true)
    {invs : List Inventory} (hs : start g invs = .ok s) :
    (∃ n, ((nextSphere · g)^[n] s).Stalled g) ∧
      ∀ n, ((nextSphere · g)^[n] s).Stalled g → ∀ m, n ≤ m → ∀ age,
        IsLeastClosed g invs.toArray age (((nextSphere · g)^[m] s).progress.reached age).contains
          fun t r => (((nextSphere · g)^[m] s).reachableAt g age r t).1 := by
  have hg := hg.wellFormed
  refine ⟨exists_stalled g s, fun n hn m hm age => ?_⟩
  obtain ⟨k, rfl⟩ := Nat.exists_eq_add_of_le' hm
  have hsound := sound_spheres hg (sound_start hg hs)
  have hinvs : ((nextSphere · g)^[k + n] s).inventories = invs.toArray := by
    rw [inventories_spheres, inventories_start hs]
  have hstalled : ((nextSphere · g)^[k + n] s).Stalled g := by
    rw [Function.iterate_add_apply]
    exact hn.spheres hg (hsound n) k
  refine ⟨hinvs ▸ closed_of_stalled hg (hsound _) hstalled age, fun reached' at?' hclosed => ?_⟩
  have hwithin := within_spheres hg hpos hclosed hs (k + n)
  refine ⟨hwithin.reached, fun t r ht hr => ?_⟩
  have harrives := (reachableAt_spec hg ht (hsound _ age).distinct r).1.1 hr
  rw [hinvs] at harrives
  exact hclosed.arrives hwithin ht harrives

/-- A world whose root gives the night itself, and a crypt that opens at night. -/
def crypt : Multiworld :=
  let start := (Multiworld.empty .empty).addWorld { Profile.plain with timeMatters := true }
  let w := start.1
  let root := start.2.addRegion w "Root" .atNight
  let m := (root.2.addRegion w "Crypt" .none).2
  let m := (m.addExit root.1 "Root -> Crypt" "Crypt" "at_dampe_time").2
  (Action.result (compileRules .empty 1) m).2

theorem built_crypt : crypt.Built :=
  .compileRules .empty 1 <| .addExit (by decide) _ _ _ <|
    .addRegion (by decide) _ _ <| .addRegion (by decide) _ _ <|
      .addWorld _ (.empty _)

/-- What parts have in common is checked part by part, and for a number that is not in use. -/
theorem getD_of_all {α : Type} {xs : Array α} {d : α} {p : α → Bool} (hdefault : p d = true)
    (h : xs.all p = true) (i : Nat) : p (xs.getD i d) = true := by
  rw [Array.getD_eq_getD_getElem?]
  cases hx : xs[i]? with
  | none => exact hdefault
  | some x => exact Array.all_eq_true_iff_forall_mem.1 h x (Array.mem_of_getElem? hx)

theorem exit_of_all {g : Multiworld} {p : Exit → Bool} (hdefault : p default = true)
    (h : g.exits.all p = true) (id : ExitId) : p (g.exit id) = true :=
  getD_of_all hdefault h id.index

theorem location_of_all {g : Multiworld} {p : Location → Bool} (hdefault : p default = true)
    (h : g.locations.all p = true) (id : LocationId) : p (g.location id) = true :=
  getD_of_all hdefault h id.index

theorem positive_of_all {g : Multiworld}
    (h : (g.exits.all fun e => e.guard.formula.positive) = true) (id : ExitId) :
    (g.exit id).guard.formula.positive = true :=
  exit_of_all rfl h id

theorem exists_start {g : Multiworld} {invs : List Inventory} (h : (start g invs).isOk = true) :
    ∃ s, start g invs = .ok s := by
  cases hs : start g invs with
  | ok s => exact ⟨s, rfl⟩
  | error fault =>
    rw [hs] at h
    cases h

theorem positive_crypt (id : ExitId) : (crypt.exit id).guard.formula.positive = true :=
  positive_of_all (by decide +kernel) id

theorem exists_start_crypt : ∃ s, start crypt crypt.initialInventories = .ok s :=
  exists_start (by decide +kernel)

/-- What the search of the crypt's world comes to as an adult. -/
theorem reach_least_crypt :
    ∃ s, start crypt crypt.initialInventories = .ok s ∧
      ∃ n, IsLeastClosed crypt crypt.initialInventories.toArray .adult
        (((nextSphere · crypt)^[n] s).progress.reached .adult).contains
          fun t r => (((nextSphere · crypt)^[n] s).reachableAt crypt .adult r t).1 := by
  obtain ⟨s, hs⟩ := exists_start_crypt
  obtain ⟨⟨n, hn⟩, hleast⟩ := reach_least built_crypt positive_crypt hs
  exact ⟨s, hs, n, hleast n hn n n.le_refl .adult⟩

/-- The root alone, at no time of day, is closed under the exit to the crypt. -/
theorem closed_crypt : Closed crypt crypt.initialInventories.toArray .adult
    (fun r => decide (r = crypt.root ⟨0⟩)) fun _ _ => false := by
  have hroot : crypt.IsRoot (crypt.root ⟨0⟩) := by
    unfold Multiworld.IsRoot
    decide +kernel
  constructor
  case root =>
    intro w hw
    have hsize : crypt.worlds.size = 1 := by decide +kernel
    obtain ⟨i⟩ := w
    obtain rfl : i = 0 := by
      dsimp only at hw
      omega
    exact decide_eq_true rfl
  case exit =>
    intro r hr id hid target _ hopens
    obtain rfl := of_decide_eq_true hr
    have hexits : (crypt.region (crypt.root ⟨0⟩)).exits = [⟨0⟩] := by decide +kernel
    rw [hexits, List.mem_singleton] at hid
    subst hid
    have hpost : (crypt.exit ⟨0⟩).post = ⟨.time .atNight none, ⟨0⟩, ⟨0⟩⟩ := by decide +kernel
    rw [Exit.opensGiven, hpost] at hopens
    cases hopens
  case provided =>
    intro r hr hnr
    exact absurd (of_decide_eq_true hr ▸ hroot) hnr
  case rootProvided =>
    intro r hr hnr
    exact absurd (of_decide_eq_true hr ▸ hroot) hnr
  case spread =>
    intro t r _ hr
    cases hr

/-- The root of the crypt's world is reached and gives the night, but it is never reachable
at night. -/
theorem root_lacks_its_own_night :
    crypt.Built ∧ (∀ id, (crypt.exit id).guard.formula.positive = true) ∧
      ∃ s, start crypt crypt.initialInventories = .ok s ∧
        (∃ n, ((nextSphere · crypt)^[n] s).Stalled crypt) ∧
          (crypt.region (crypt.root ⟨0⟩)).provides.meets .atNight = true ∧
            ∀ n, (((nextSphere · crypt)^[n] s).progress.reached .adult).contains
                (crypt.root ⟨0⟩) = true ∧
              (((nextSphere · crypt)^[n] s).reachableAt crypt .adult (crypt.root ⟨0⟩)
                .atNight).1 = false := by
  obtain ⟨s, hs⟩ := exists_start_crypt
  have hg := built_crypt.wellFormed
  refine ⟨built_crypt, positive_crypt, s, hs, exists_stalled crypt s, by decide +kernel,
    fun n => ?_⟩
  have hx := sound_spheres hg (sound_start hg hs) n .adult
  refine ⟨hx.roots ⟨0⟩ (by decide +kernel), Bool.eq_false_iff.2 fun hnight => ?_⟩
  have hinvs : ((nextSphere · crypt)^[n] s).inventories = crypt.initialInventories.toArray := by
    rw [inventories_spheres, inventories_start hs]
  have harrives := (reachableAt_spec hg (by decide) hx.distinct (crypt.root ⟨0⟩)).1.1 hnight
  have hwithin := within_spheres hg positive_crypt closed_crypt hs n
  rw [hinvs] at harrives
  cases closed_crypt.arrives hwithin (by decide) harrives

end Search

end Progression
