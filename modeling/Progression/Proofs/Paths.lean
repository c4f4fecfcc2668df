import Progression.Proofs.OneAge
import Progression.Proofs.Questions

/-!
# Paths by day and by night

Whether a region is reachable by day, or by night, is found out by spreading the time from the
regions that are known to have it.  The spreading stops as soon as it comes to the region that
was asked for, so what is known afterwards depends on where it began, and that depends on the
order in which the reached regions are listed.  The answer does not: it is whether there is a
path, because what an earlier question left half done is picked up by the next one.

## Main definitions

* `Leads` — a step of a path, through an exit whose rule holds at exactly the given times.
* `HasPath` — a path from a region that is known to have a time.
* `Search.Relisted` — the same search with its reached regions in another order.
* `Search.Learns` — nothing changes but that a time is noted down where a path brings it.

## Main results

* `arrives_iff_hasPath` — a time arrives where there is a path.
* `Search.canReach_iff_hasPath` — **a region is reachable by day or by night just when there is
  a path to it, in whatever order the regions are listed**, and finding out changes nothing
  else.
-/

namespace Progression

open Rule

variable {g : Multiworld} {invs : Array Inventory} {age : Age} {t : TimeOfDay} {m m' : Reached}

/-! ### Paths -/

/-- A reached region of a world leads to another one through an exit whose rule holds as an age
at exactly the given times. -/
structure Leads (g : Multiworld) (invs : Array Inventory) (age : Age) (t : TimeOfDay)
    (m : Reached) (w : WorldId) (r target : RegionId) : Prop where
  reached : m.contains r = true ∧ m.contains target = true
  world : (g.region r).world = w ∧ (g.region target).world = w
  exit : ∃ id ∈ (g.region r).exits, (g.exit id).connected = some target ∧
    (g.exit id).passesAt invs age t = true

/-- There is a path to a region, through reached regions of its world, from one that is known
to have a time. -/
def HasPath (g : Multiworld) (invs : Array Inventory) (age : Age) (t : TimeOfDay) (m : Reached)
    (r : RegionId) : Prop :=
  ∃ source, m.hasTime t source = true ∧
    Relation.ReflTransGen (Leads g invs age t m (g.region r).world) source r

/-- An exit does not lead out of its world. -/
theorem Multiworld.WellFormed.same_world (hg : g.WellFormed) {r target : RegionId} {id : ExitId}
    (hid : id ∈ (g.region r).exits) (hc : (g.exit id).connected = some target) :
    (g.region r).world = (g.region target).world := by
  rw [(hg.connected id target hc).2, (hg.exit_listed r id hid).2.2]

/-- A time arrives where there is a path that brings it. -/
theorem arrives_iff_hasPath (hg : g.WellFormed) {r : RegionId} :
    Arrives g invs age t m r ↔ HasPath g invs age t m r := by
  constructor
  · intro h
    induction h with
    | known h => exact ⟨_, h, .refl⟩
    | @through r target id hr hid hc htarget hp ih =>
      obtain ⟨source, hsource, hpath⟩ := ih
      have hworld := hg.same_world hid hc
      rw [hworld] at hpath
      exact ⟨source, hsource, hpath.tail ⟨⟨hr.contains, htarget⟩, ⟨hworld, rfl⟩, id, hid, hc, hp⟩⟩
  · rintro ⟨source, hsource, hpath⟩
    generalize (g.region r).world = w at hpath
    induction hpath with
    | refl => exact .known hsource
    | tail _ hstep ih =>
      obtain ⟨id, hid, hc, hp⟩ := hstep.exit
      exact .through ih hid hc hstep.reached.2 hp

/-! ### What spreading notes down -/

theorem TimeOfDay.union_union_self (u t : TimeOfDay) : (u.union t).union t = u.union t := by
  rcases u with ⟨_ | _, _ | _⟩ <;> rcases t with ⟨_ | _, _ | _⟩ <;> rfl

/-- Spreading adds the times to some regions and leaves the others alone. -/
theorem times?_spread (g : Multiworld) (passes : Exit → Bool) (goal : RegionId)
    (times : TimeOfDay) (queue : List ExitId) (m : Reached) (r : RegionId) :
    (spread g passes goal times queue m).2.times? r = m.times? r ∨
      (spread g passes goal times queue m).2.times? r = (m.times? r).map (·.union times) := by
  fun_induction spread g passes goal times queue m with
  | case1 => exact .inl rfl
  | case2 _ _ _ _ ih => exact ih
  | case3 m id queue =>
    rw [Reached.times?_grant]
    split
    · exact .inr rfl
    · exact .inl rfl
  | case4 m id queue target _ _ _ ih =>
    rw [Reached.times?_grant] at ih
    split at ih
    · -- the target has them already, so they are not added to it again
      right
      rcases ih with ih | ih
      · exact ih
      · rw [ih]
        cases m.times? r with
        | none => rfl
        | some u => exact congrArg some (TimeOfDay.union_union_self u times)
    · exact ih
  | case5 _ _ _ _ _ _ ih => exact ih

theorem times?_reachableAt (g : Multiworld) (invs : Array Inventory) (age : Age)
    (region : RegionId) (times : TimeOfDay) (m : Reached) (r : RegionId) :
    (reachableAt g invs age region times m).2.times? r = m.times? r ∨
      (reachableAt g invs age region times m).2.times? r =
        (m.times? r).map (·.union times) := by
  unfold reachableAt
  split
  · exact .inl rfl
  · split
    · exact .inl rfl
    · exact times?_spread ..

/-! ### Other orders -/

theorem Reached.Distinct.of_perm (hm : m.Distinct) (h : m.Perm m') : m'.Distinct :=
  (h.map Prod.fst).nodup_iff.1 hm

/-- If no region is listed twice, the order does not matter to what is known. -/
theorem Reached.times?_of_perm (hm : m.Distinct) (h : m.Perm m') (r : RegionId) :
    m'.times? r = m.times? r := by
  have back : ∀ {u}, m'.times? r = some u → m.times? r = some u := fun hu =>
    times?_of_mem hm (h.mem_iff.2 (mem_of_times? hu))
  cases hr : m.times? r with
  | some u => exact times?_of_mem (hm.of_perm h) (h.mem_iff.1 (mem_of_times? hr))
  | none =>
    cases hr' : m'.times? r with
    | none => rfl
    | some u =>
      rw [back hr'] at hr
      cases hr

theorem Recalls.of_perm (hm : m.Distinct) (h : m.Perm m') : Recalls g invs age m m' where
  contains r := by rw [Reached.contains, Reached.contains, Reached.times?_of_perm hm h]
  kept t r hr := by rwa [Reached.hasTime, Reached.times?_of_perm hm h]
  distinct _ := hm.of_perm h
  arrives t r _ hr := by
    rw [Reached.hasTime, Reached.times?_of_perm hm h] at hr
    exact .known hr

namespace Search

variable {s s' u : Search}

/-- The same search with its reached regions listed in another order. -/
structure Relisted (s s' : Search) : Prop where
  inventories : s'.inventories = s.inventories
  visited : s'.progress.visited = s.progress.visited
  queue : ∀ age, (s'.progress.frontier age).queue = (s.progress.frontier age).queue
  reached : ∀ age, (s.progress.reached age).Perm (s'.progress.reached age)

theorem Relisted.distinct (h : s.Relisted s') (hs : s.Distinct) : s'.Distinct :=
  fun age => (hs age).of_perm (h.reached age)

/-- Expanding lists no region twice. -/
theorem distinct_expansionInvariant (g : Multiworld) (invs : Array Inventory) (age : Age) :
    ExpansionInvariant g invs age fun _ m => m.Distinct where
  of_mem_iff h _ := h
  drop h _ := h
  fail h he := (remembers_of_evaluate he).distinct h
  discover h _ _ he := ((remembers_of_evaluate he).distinct h).discover _ _

theorem distinct_frontierInvariant (g : Multiworld) (age : Age) :
    FrontierInvariant g age fun f => f.reached.Distinct where
  expand invs {f} h := (distinct_expansionInvariant g invs age).expandFrom f.queue [] f.reached h
  remembers h hm := hm.distinct h

/-- No step lists a region twice. -/
theorem Run.distinct (h : Run g s s') (hs : s.Distinct) : s'.Distinct :=
  fun age => h.keeps (distinct_frontierInvariant g age) (hs age)

/-! ### Asking for a path -/

/-- Nothing changes in a search but that a time is noted down as an age, and only for regions
to which a path brings it. -/
structure Learns (g : Multiworld) (age : Age) (t : TimeOfDay) (s u : Search) : Prop where
  inventories : u.inventories = s.inventories
  visited : u.progress.visited = s.progress.visited
  queue : ∀ age', (u.progress.frontier age').queue = (s.progress.frontier age').queue
  contains : ∀ age' r, (u.progress.reached age').contains r = (s.progress.reached age').contains r
  times : ∀ age' r,
    (u.progress.reached age').times? r = (s.progress.reached age').times? r ∨
      age' = age ∧ HasPath g s.inventories age t (s.progress.reached age) r ∧
        (u.progress.reached age').times? r =
          ((s.progress.reached age').times? r).map (·.union t)

/-- What a question notes down about a region is brought by a path. -/
theorem learns_reachableAt (hg : g.WellFormed) (ht : t.isSingle = true) (hs : s.Distinct)
    (h : s.Relisted s') (age : Age) (region : RegionId) :
    Learns g age t s (s'.reachableAt g age region t).2 := by
  have hconfined := confinedTo_reachableAt g age region t
  have hrelisted : ∀ age', Progression.Recalls g s.inventories age'
      (s.progress.reached age') (s'.progress.reached age') :=
    fun age' => .of_perm (hs age') (h.reached age')
  have hasked : Progression.Recalls g s'.inventories age (s'.progress.reached age)
      (Progression.reachableAt g s'.inventories age region t (s'.progress.reached age)).2 :=
    (reachableAt_spec hg ht (h.distinct hs age) region).2
  have htimes := times?_reachableAt g s'.inventories age region t (s'.progress.reached age)
  -- what is reached afterwards as the age that asks
  have hreached : (s'.reachableAt g age region t).2.progress.reached age =
      (Progression.reachableAt g s'.inventories age region t (s'.progress.reached age)).2 :=
    congrArg Frontier.reached (Progress.frontier_setFrontier_self ..)
  have hother : ∀ age', age' ≠ age → (s'.reachableAt g age region t).2.progress.reached age' =
      s'.progress.reached age' :=
    fun age' hne => congrArg Frontier.reached (hconfined.others s' age' hne)
  refine ⟨(hconfined.inventories s').trans h.inventories,
    (hconfined.visited s').trans h.visited,
    fun age' => (queue_ask age _ s' age').trans (h.queue age'), fun age' r => ?_,
    fun age' r => ?_⟩
  · by_cases hage : age' = age
    · subst hage
      rw [hreached, hasked.contains, (hrelisted age').contains]
    · rw [hother age' hage, (hrelisted age').contains]
  · by_cases hage : age' = age
    · subst hage
      rw [h.inventories] at hasked hreached htimes
      rw [hreached, ← Reached.times?_of_perm (hs age') (h.reached age')]
      rcases htimes r with hsame | hunion
      · exact .inl hsame
      · cases hr : (s'.progress.reached age').times? r with
        | none =>
          rw [hr] at hunion
          exact .inl hunion
        | some known =>
          -- the region has the time now, so it arrives there
          rw [hr] at hunion
          refine .inr ⟨rfl, (arrives_iff_hasPath hg).1 ?_, hunion⟩
          refine ((hrelisted age').arrives_iff ht).1 (hasked.arrives t r ht ?_)
          rw [Reached.hasTime, hunion]
          change (known.union t).meets t = true
          rw [TimeOfDay.meets_union, TimeOfDay.meets_self (TimeOfDay.isNone_of_isSingle ht),
            Bool.or_true]
    · exact .inl (by rw [hother age' hage, Reached.times?_of_perm (hs age') (h.reached age')])

/-- **A region is reachable by day or by night just when there is a path to it that brings the
time, in whatever order the reached regions are listed**, and finding out changes nothing but
that the time is noted down along such paths.  This holds for every search in which no region
is listed twice: so it is for all that can be reached, for all that they can go back to, and
steps and other orders keep it so. -/
theorem canReach_iff_hasPath (hg : g.Built) :
    (∀ r : Rewindable, r.Reachable g →
        r.live.Distinct ∧ ∀ p ∈ r.history, ∀ age, (p.reached age).Distinct) ∧
      (∀ s s' : Search, s.Distinct → Run g s s' ∨ s.Relisted s' → s'.Distinct) ∧
      ∀ s s' : Search, s.Distinct → s.Relisted s' → ∀ age region t, t.isSingle = true →
        ((s'.canReach g region (.ofAge (some age)) t).1 = true ↔
          (s.progress.reached age).contains region = true ∧
            HasPath g s.inventories age t (s.progress.reached age) region) ∧
        Learns g age t s (s'.canReach g region (.ofAge (some age)) t).2 := by
  have hg := hg.wellFormed
  refine ⟨fun r hr => ?_, fun s s' hs h => ?_, fun s s' hs h age region t ht => ?_⟩
  · obtain ⟨hlive, hhistory⟩ := hr.sound hg
    exact ⟨fun age => (hlive age).distinct, fun p hp age => (hhistory p hp age).distinct⟩
  · rcases h with h | h
    · exact h.distinct hs
    · exact h.distinct hs
  · rw [canReach_ofAge]
    refine ⟨?_, learns_reachableAt hg ht hs h age region⟩
    have hrelisted : Progression.Recalls g s.inventories age (s.progress.reached age)
        (s'.progress.reached age) := .of_perm (hs age) (h.reached age)
    have hanswer : (s'.reachableAt g age region t).1 = true ↔
        Arrives g s.inventories age t (s.progress.reached age) region := by
      rw [← hrelisted.arrives_iff ht, ← h.inventories]
      exact (reachableAt_spec hg ht (h.distinct hs age) region).1
    rw [hanswer, ← arrives_iff_hasPath hg]
    exact ⟨fun harrives => ⟨harrives.contains, harrives⟩, And.right⟩

/-- The same search with its reached regions listed backwards. -/
def backwards (s : Search) : Search :=
  let turn (f : Frontier) : Frontier := ⟨f.queue, f.reached.reverse⟩
  { s with progress := ⟨turn s.progress.child, turn s.progress.adult, s.progress.visited⟩ }

theorem relisted_backwards (s : Search) : s.Relisted s.backwards where
  inventories := rfl
  visited := rfl
  queue age := by cases age <;> rfl
  reached age := by cases age <;> exact (List.reverse_perm _).symm

/-- The day comes to the cave from the root, also if the field is listed first. -/
theorem hasPath_fieldAndCave :
    ∃ s, start fieldAndCave fieldAndCave.initialInventories = .ok s ∧ s.Distinct ∧
      s.Relisted s.backwards ∧
      (s.backwards.canReach fieldAndCave ⟨2⟩ (.ofAge (some .adult)) .atDay).1 = true ∧
      HasPath fieldAndCave s.inventories .adult .atDay (s.progress.reached .adult) ⟨2⟩ := by
  have hanswer : (start fieldAndCave fieldAndCave.initialInventories).toOption.any (fun s =>
      (s.backwards.canReach fieldAndCave ⟨2⟩ .adult .atDay).1) = true := by
    cbv
  cases h : start fieldAndCave fieldAndCave.initialInventories with
  | error fault =>
    rw [h] at hanswer
    cases hanswer
  | ok s =>
    rw [h] at hanswer
    obtain ⟨hdistinct, -, hpath⟩ := canReach_iff_hasPath built_fieldAndCave
    have hs : s.Distinct := (hdistinct _ (.start h)).1
    have hiff := (hpath s _ hs (relisted_backwards s) .adult ⟨2⟩ .atDay rfl).1
    exact ⟨s, rfl, hs, relisted_backwards s, hanswer, (hiff.1 hanswer).2⟩

end Search

end Progression
