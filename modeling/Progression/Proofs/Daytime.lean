import Progression.Proofs.Worlds
import Progression.Proofs.Asking
import Progression.Search.Daytime

/-!
# Arriving at a time of day

A region is reachable at a time of day if it is reached and there is a path to it, through
reached regions, from one that is known to be reachable at that time, along exits whose
rules hold at exactly that time.  A search finds this out on demand, by spreading the time
along such exits until it arrives where it was asked for, and remembers what it found on
the way.  What it remembers never changes a later answer.

## Main definitions

* `Reached.hasTime` — whether a region is known to be reachable at a time.
* `Arrives` — whether a region is reachable at a time.
* `Recalls` — what a search remembers beyond what it knew.
* `Marks` — what it remembers after a question about given times.

## Main results

* `reachableAt_marks` — questions for day and night at once are answered in the same way, but
  what they mark are both times.
* `reachableAt_spec` — **the answer to a question about day or night is whether the time
  arrives**, and what is remembered does not change what arrives.
* `evaluate_spec` — rules are true as the times that arrive make them.
-/

namespace Progression

open Rule

/-! ### Day or night alone -/

namespace TimeOfDay

theorem isSingle_iff {t : TimeOfDay} : t.isSingle = true ↔ t = atDay ∨ t = atNight := by
  rcases t with ⟨_ | _, _ | _⟩ <;> decide

theorem isNone_of_isSingle {t : TimeOfDay} (h : t.isSingle = true) : t.isNone = false := by
  rcases isSingle_iff.1 h with rfl | rfl <;> rfl

theorem meets_of_contains {t u : TimeOfDay} (h : t.isNone = false) (hu : u.contains t = true) :
    u.meets t = true := by
  revert h hu
  rcases t with ⟨_ | _, _ | _⟩ <;> rcases u with ⟨_ | _, _ | _⟩ <;> decide

theorem meets_self {t : TimeOfDay} (h : t.isNone = false) : t.meets t = true := by
  rcases t with ⟨_ | _, _ | _⟩
  · cases h
  all_goals rfl

theorem meets_union (s t u : TimeOfDay) : (s.union t).meets u = (s.meets u || t.meets u) := by
  rcases s with ⟨_ | _, _ | _⟩ <;> rcases t with ⟨_ | _, _ | _⟩ <;> rcases u with ⟨_ | _, _ | _⟩ <;>
    rfl

@[simp] theorem meets_none (t : TimeOfDay) : none.meets t = false := by
  rcases t with ⟨_ | _, _ | _⟩ <;> rfl

/-- Day and night have nothing in common. -/
theorem eq_of_meets {s t : TimeOfDay} (hs : s.isSingle = true) (ht : t.isSingle = true)
    (h : s.meets t = true) : s = t := by
  rcases isSingle_iff.1 hs with rfl | rfl <;> rcases isSingle_iff.1 ht with rfl | rfl <;>
    first | rfl | cases h

end TimeOfDay

namespace Reached

/-- Whether a region is known to be reachable at one of some times. -/
def hasTime (m : Reached) (t : TimeOfDay) (r : RegionId) : Bool :=
  (m.times? r).any fun u => u.meets t

/-- No region is listed twice. -/
def Distinct (m : Reached) : Prop := (m.map Prod.fst).Nodup

theorem contains_of_hasTime {m : Reached} {t : TimeOfDay} {r : RegionId}
    (h : m.hasTime t r = true) : m.contains r = true := by
  unfold hasTime at h
  unfold contains
  cases hr : m.times? r with
  | none => simp [hr] at h
  | some u => rfl

theorem contains_iff_mem {m : Reached} {r : RegionId} :
    m.contains r = true ↔ r ∈ m.map Prod.fst := by
  unfold contains
  induction m with
  | nil => simp
  | cons e m ih =>
    rw [times?_cons, List.map_cons, List.mem_cons]
    split
    · next h => simp [h]
    · next h =>
      rw [ih]
      simp [Ne.symm h]

theorem times?_of_mem {m : Reached} (h : m.Distinct) {r : RegionId} {u : TimeOfDay}
    (hm : (r, u) ∈ m) : m.times? r = some u := by
  induction m with
  | nil => cases hm
  | cons e m ih =>
    rw [Distinct, List.map_cons, List.nodup_cons] at h
    rw [times?_cons]
    rcases List.mem_cons.1 hm with rfl | hm
    · exact if_pos rfl
    · have hne : e.1 ≠ r := by
        rintro rfl
        exact h.1 (List.mem_map.2 ⟨_, hm, rfl⟩)
      rw [if_neg hne]
      exact ih h.2 hm

theorem mem_of_times? {m : Reached} {r : RegionId} {u : TimeOfDay} (h : m.times? r = some u) :
    (r, u) ∈ m := by
  induction m with
  | nil => cases h
  | cons e m ih =>
    rw [times?_cons] at h
    split at h
    · next he =>
      cases h
      cases he
      exact List.mem_cons_self
    · exact List.mem_cons_of_mem _ (ih h)

theorem map_fst_grant (r : RegionId) (t : TimeOfDay) (m : Reached) :
    (m.grant r t).map Prod.fst = m.map Prod.fst := by
  induction m with
  | nil => rfl
  | cons e m ih =>
    unfold grant
    split
    · next h => simp [h]
    · rw [List.map_cons, ih, List.map_cons]

theorem Distinct.grant {m : Reached} (h : m.Distinct) (r : RegionId) (t : TimeOfDay) :
    (m.grant r t).Distinct := by
  rwa [Distinct, map_fst_grant]

theorem Distinct.insert {m : Reached} (h : m.Distinct) (r : RegionId) (t : TimeOfDay) :
    (m.insert r t).Distinct := by
  induction m with
  | nil => exact List.nodup_cons.2 ⟨List.not_mem_nil, .nil⟩
  | cons e m ih =>
    rw [Distinct, List.map_cons, List.nodup_cons] at h
    unfold Reached.insert
    split
    · next he =>
      rw [Distinct, List.map_cons, List.nodup_cons, ← he]
      exact h
    · next he =>
      rw [Distinct, List.map_cons, List.nodup_cons]
      refine ⟨?_, ih h.2⟩
      rw [← contains_iff_mem, contains_insert, Bool.or_eq_true, decide_eq_true_iff, not_or]
      exact ⟨Ne.symm he, fun hc => h.1 (contains_iff_mem.1 hc)⟩

theorem hasTime_grant (m : Reached) (r s : RegionId) (t u : TimeOfDay) :
    (m.grant r t).hasTime u s =
      (m.hasTime u s || (decide (r = s) && m.contains s && t.meets u)) := by
  unfold hasTime contains
  rw [times?_grant]
  by_cases h : r = s
  · subst h
    cases m.times? r <;> simp [TimeOfDay.meets_union]
  · simp [h]

theorem hasTime_insert (m : Reached) (r s : RegionId) (t u : TimeOfDay) :
    (m.insert r t).hasTime u s = if r = s then t.meets u else m.hasTime u s := by
  unfold hasTime
  rw [times?_insert]
  split <;> rfl

theorem contains_of_lacks {m : Reached} {t : TimeOfDay} {r : RegionId}
    (h : m.lacks r t = true) : m.contains r = true := by
  unfold lacks at h
  unfold contains
  cases hr : m.times? r with
  | none => simp [hr] at h
  | some u => rfl

/-- A reached region that lacks none of some times has them. -/
theorem hasTime_of_not_lacks {m : Reached} {t : TimeOfDay} {r : RegionId}
    (ht : t.isNone = false) (hr : m.contains r = true) (h : ¬ m.lacks r t = true) :
    m.hasTime t r = true := by
  unfold contains at hr
  unfold lacks at h
  unfold hasTime
  cases hu : m.times? r with
  | none => simp [hu] at hr
  | some u =>
    rw [hu] at h
    exact TimeOfDay.meets_of_contains ht (by simpa using h)

end Reached

/-! ### Arriving -/

/-- Whether the rule of an exit holds as an age at exactly the given times. -/
def Exit.passesAt (e : Exit) (invs : Array Inventory) (age : Age) (times : TimeOfDay) : Bool :=
  e.post.formula.holdsAt (e.post.situation invs age times)

/-- A region is reachable at a time if it is known to be, or if it is reached and an exit
from a region that is reachable at that time leads to it whose rule holds at that time. -/
inductive Arrives (g : Multiworld) (invs : Array Inventory) (age : Age) (t : TimeOfDay)
    (m : Reached) : RegionId → Prop where
  | known {r : RegionId} (h : m.hasTime t r = true) : Arrives g invs age t m r
  | through {r target : RegionId} {id : ExitId} (hr : Arrives g invs age t m r)
    (hid : id ∈ (g.region r).exits) (hc : (g.exit id).connected = some target)
    (htarget : m.contains target = true) (hp : (g.exit id).passesAt invs age t = true) :
    Arrives g invs age t m target

/-- What a search remembers in `m'` beyond what it knew in `m`: times, but no further
region. -/
structure Remembers (m m' : Reached) : Prop where
  contains : ∀ r, m'.contains r = m.contains r
  kept : ∀ t r, m.hasTime t r = true → m'.hasTime t r = true
  distinct : m.Distinct → m'.Distinct

/-- What a search remembers are only times that arrive. -/
structure Recalls (g : Multiworld) (invs : Array Inventory) (age : Age) (m m' : Reached) : Prop
    extends Remembers m m' where
  arrives : ∀ t r, t.isSingle = true → m'.hasTime t r = true → Arrives g invs age t m r

/-- What a search remembers of some times is where they arrive. -/
structure RecallsAt (g : Multiworld) (invs : Array Inventory) (age : Age) (t : TimeOfDay)
    (m m' : Reached) : Prop extends Remembers m m' where
  arrives : ∀ r, m'.hasTime t r = true → Arrives g invs age t m r

/-- What a search remembers are given times, all of them at once, and only where they
arrive. -/
structure Marks (g : Multiworld) (invs : Array Inventory) (age : Age) (t : TimeOfDay)
    (m m' : Reached) : Prop extends Remembers m m' where
  arrives : ∀ u r, m'.hasTime u r = true →
    m.hasTime u r = true ∨ t.meets u = true ∧ Arrives g invs age t m r

section Arriving

variable {g : Multiworld} {invs : Array Inventory} {age : Age} {t : TimeOfDay} {m m' m'' : Reached}

theorem Arrives.contains {r : RegionId} (h : Arrives g invs age t m r) : m.contains r = true := by
  cases h with
  | known h => exact Reached.contains_of_hasTime h
  | through _ _ _ h _ => exact h

namespace Remembers

theorem refl (m : Reached) : Remembers m m := ⟨fun _ => rfl, fun _ _ h => h, fun h => h⟩

theorem trans (h : Remembers m m') (h' : Remembers m' m'') : Remembers m m'' where
  contains r := (h'.contains r).trans (h.contains r)
  kept t r hr := h'.kept t r (h.kept t r hr)
  distinct hm := h'.distinct (h.distinct hm)

theorem grant (h : Remembers m m') (r : RegionId) (t : TimeOfDay) : Remembers m (m'.grant r t) where
  contains s := (Reached.contains_grant r s t m').trans (h.contains s)
  kept u s hs := by
    rw [Reached.hasTime_grant, h.kept u s hs]
    rfl
  distinct hm := (h.distinct hm).grant r t

end Remembers

namespace RecallsAt

theorem refl (g : Multiworld) (invs : Array Inventory) (age : Age) (t : TimeOfDay) (m : Reached) :
    RecallsAt g invs age t m m :=
  ⟨.refl m, fun _ h => .known h⟩

/-- **What is remembered does not change what arrives.** -/
theorem arrives_iff (h : RecallsAt g invs age t m m') {r : RegionId} :
    Arrives g invs age t m' r ↔ Arrives g invs age t m r := by
  constructor
  · intro hr
    induction hr with
    | known hk => exact h.arrives _ hk
    | through _ hid hc htarget hp ih => exact .through ih hid hc (h.contains _ ▸ htarget) hp
  · intro hr
    induction hr with
    | known hk => exact .known (h.kept t _ hk)
    | through _ hid hc htarget hp ih => exact .through ih hid hc ((h.contains _).trans htarget) hp

theorem trans (h : RecallsAt g invs age t m m') (h' : RecallsAt g invs age t m' m'') :
    RecallsAt g invs age t m m'' :=
  ⟨h.toRemembers.trans h'.toRemembers, fun r hr => h.arrives_iff.1 (h'.arrives r hr)⟩

end RecallsAt

namespace Recalls

theorem refl (g : Multiworld) (invs : Array Inventory) (age : Age) (m : Reached) :
    Recalls g invs age m m :=
  ⟨.refl m, fun _ _ _ h => .known h⟩

theorem recallsAt (h : Recalls g invs age m m') (ht : t.isSingle = true) :
    RecallsAt g invs age t m m' :=
  ⟨h.toRemembers, fun r => h.arrives t r ht⟩

theorem arrives_iff (h : Recalls g invs age m m') (ht : t.isSingle = true) {r : RegionId} :
    Arrives g invs age t m' r ↔ Arrives g invs age t m r :=
  (h.recallsAt ht).arrives_iff

theorem trans (h : Recalls g invs age m m') (h' : Recalls g invs age m' m'') :
    Recalls g invs age m m'' :=
  ⟨h.toRemembers.trans h'.toRemembers,
    fun t r ht hr => (h.arrives_iff ht).1 (h'.arrives t r ht hr)⟩

end Recalls

namespace Marks

theorem refl (g : Multiworld) (invs : Array Inventory) (age : Age) (t : TimeOfDay) (m : Reached) :
    Marks g invs age t m m :=
  ⟨.refl m, fun _ _ h => .inl h⟩

/-- Times may be marked where they arrive. -/
theorem grant (h : Marks g invs age t m m') {r : RegionId} (hr : Arrives g invs age t m r) :
    Marks g invs age t m (m'.grant r t) := by
  refine ⟨h.toRemembers.grant r t, fun u s hs => ?_⟩
  rw [Reached.hasTime_grant, Bool.or_eq_true, Bool.and_eq_true, Bool.and_eq_true,
    decide_eq_true_iff] at hs
  rcases hs with hs | ⟨⟨rfl, -⟩, hmeets⟩
  · exact h.arrives u s hs
  · exact .inr ⟨hmeets, hr⟩

/-- The given times themselves are only marked where they arrive. -/
theorem recallsAt (h : Marks g invs age t m m') : RecallsAt g invs age t m m' :=
  ⟨h.toRemembers, fun r hr => (h.arrives t r hr).elim .known And.right⟩

/-- If day or night alone is given, no other time is marked. -/
theorem recalls (h : Marks g invs age t m m') (ht : t.isSingle = true) :
    Recalls g invs age m m' := by
  refine ⟨h.toRemembers, fun u r hu hr => ?_⟩
  rcases h.arrives u r hr with hknown | ⟨hmeets, harrives⟩
  · exact .known hknown
  · rwa [← TimeOfDay.eq_of_meets ht hu hmeets]

end Marks

/-! ### Spreading -/

theorem remembers_spread (g : Multiworld) (passes : Exit → Bool) (goal : RegionId)
    (times : TimeOfDay) (queue : List ExitId) (m : Reached) :
    Remembers m (spread g passes goal times queue m).2 := by
  fun_induction spread g passes goal times queue m with
  | case1 m => exact .refl m
  | case2 _ _ _ _ ih => exact ih
  | case3 m id queue hc hl => exact Remembers.grant (.refl m) goal times
  | case4 m id queue target _ _ _ ih => exact (Remembers.grant (.refl m) target times).trans ih
  | case5 _ _ _ _ _ _ ih => exact ih

/-- Spreading marks the times only where they arrive, and it succeeds only if they arrive at
the goal. -/
theorem spread_sound {m₀ : Reached} (goal : RegionId) (queue : List ExitId) (m : Reached)
    (hm : Marks g invs age t m₀ m)
    (hqueue : ∀ id ∈ queue, ∃ r, Arrives g invs age t m₀ r ∧ id ∈ (g.region r).exits) :
    Marks g invs age t m₀ (spread g (·.passesAt invs age t) goal t queue m).2 ∧
      ((spread g (·.passesAt invs age t) goal t queue m).1 = true →
        Arrives g invs age t m₀ goal) := by
  -- an exit that lets the times through leads where they arrive
  have step : ∀ {m : Reached} {id : ExitId} {target : RegionId}, Marks g invs age t m₀ m →
      (∃ r, Arrives g invs age t m₀ r ∧ id ∈ (g.region r).exits) →
      (g.exit id).connected = some target →
      m.lacks target t = true ∧ (g.exit id).passesAt invs age t = true →
      Arrives g invs age t m₀ target := by
    rintro m id target hm ⟨r, hr, hid⟩ hc ⟨hl, hp⟩
    exact .through hr hid hc (hm.contains target ▸ Reached.contains_of_lacks hl) hp
  fun_induction spread g (·.passesAt invs age t) goal t queue m with
  | case1 m =>
    refine ⟨hm, ?_⟩
    intro h
    cases h
  | case2 m id queue _ ih => exact ih hm fun e he => hqueue e (List.mem_cons_of_mem _ he)
  | case3 m id queue hc hl =>
    have htarget := step hm (hqueue id List.mem_cons_self) hc hl
    exact ⟨hm.grant htarget, fun _ => htarget⟩
  | case4 m id queue target hc hl _ ih =>
    have htarget := step hm (hqueue id List.mem_cons_self) hc hl
    refine ih (hm.grant htarget) fun e he => ?_
    rcases List.mem_append.1 he with he | he
    · exact hqueue e (List.mem_cons_of_mem _ he)
    · exact ⟨target, htarget, he⟩
  | case5 m id queue target _ _ ih =>
    exact ih hm fun e he => hqueue e (List.mem_cons_of_mem _ he)

/-- Whatever lets a time through, from the regions of a world that have it, leads to
regions that have it as well or is still in the queue. -/
def Pending (g : Multiworld) (invs : Array Inventory) (age : Age) (t : TimeOfDay) (w : WorldId)
    (queue : List ExitId) (m : Reached) : Prop :=
  ∀ r, (g.region r).world = w → m.hasTime t r = true → ∀ id ∈ (g.region r).exits,
    ∀ target, (g.exit id).connected = some target → m.contains target = true →
      (g.exit id).passesAt invs age t = true → m.hasTime t target = true ∨ id ∈ queue

theorem Pending.pop {w : WorldId} {id : ExitId} {queue : List ExitId}
    (h : Pending g invs age t w (id :: queue) m)
    (hid : ∀ target, (g.exit id).connected = some target → m.contains target = true →
      (g.exit id).passesAt invs age t = true → m.hasTime t target = true) :
    Pending g invs age t w queue m := by
  intro r hw hr e he target hc htarget hp
  rcases h r hw hr e he target hc htarget hp with h | h
  · exact .inl h
  · rcases List.mem_cons.1 h with rfl | h
    · exact .inl (hid target hc htarget hp)
    · exact .inr h

theorem Pending.grant {w : WorldId} {id : ExitId} {queue : List ExitId} {target : RegionId}
    (ht : t.isNone = false) (h : Pending g invs age t w (id :: queue) m)
    (hc : (g.exit id).connected = some target) (hcon : m.contains target = true) :
    Pending g invs age t w (queue ++ (g.region target).exits) (m.grant target t) := by
  have hgranted : ∀ r, (m.grant target t).hasTime t r = true ↔
      m.hasTime t r = true ∨ r = target := by
    intro r
    rw [Reached.hasTime_grant, Bool.or_eq_true, TimeOfDay.meets_self ht, Bool.and_true,
      Bool.and_eq_true, decide_eq_true_iff]
    refine or_congr_right ⟨fun h => h.1.symm, ?_⟩
    rintro rfl
    exact ⟨rfl, hcon⟩
  intro r hw hr e he target' hc' htarget' hp
  rw [Reached.contains_grant] at htarget'
  rw [hgranted] at hr ⊢
  -- either the region had the time before, or it is the target, whose exits are queued
  rcases hr with hr | rfl
  · rcases h r hw hr e he target' hc' htarget' hp with h | h
    · exact .inl (.inl h)
    · rcases List.mem_cons.1 h with rfl | h
      · rw [hc, Option.some_inj] at hc'
        exact .inl (.inr hc'.symm)
      · exact .inr (List.mem_append_left _ h)
  · exact .inr (List.mem_append_right _ he)

/-- Spreading that fails has nowhere left to go. -/
theorem spread_complete (ht : t.isNone = false) {w : WorldId} (goal : RegionId)
    (queue : List ExitId) (m : Reached) (hp : Pending g invs age t w queue m)
    (hgoal : m.hasTime t goal = false)
    (hfail : (spread g (·.passesAt invs age t) goal t queue m).1 = false) :
    Pending g invs age t w [] (spread g (·.passesAt invs age t) goal t queue m).2 ∧
      (spread g (·.passesAt invs age t) goal t queue m).2.hasTime t goal = false := by
  fun_induction spread g (·.passesAt invs age t) goal t queue m with
  | case1 m => exact ⟨hp, hgoal⟩
  | case2 m id queue hc ih =>
    refine ih (hp.pop fun target hc' => ?_) hgoal hfail
    rw [hc] at hc'
    cases hc'
  | case3 m id queue hc hl => cases hfail
  | case4 m id queue target hc hl hne ih =>
    refine ih (hp.grant ht hc (Reached.contains_of_lacks hl.1)) ?_ hfail
    rw [Reached.hasTime_grant, hgoal, decide_eq_false hne]
    rfl
  | case5 m id queue target hc hl ih =>
    refine ih (hp.pop fun target' hc' htarget hpass => ?_) hgoal hfail
    rw [hc, Option.some_inj] at hc'
    subst hc'
    exact Reached.hasTime_of_not_lacks ht htarget fun hlacks => hl ⟨hlacks, hpass⟩

/-! ### Questions -/

/-- A time arrives along exits of one world. -/
theorem Arrives.hasTime (hg : g.WellFormed) (hm : Remembers m m') {w : WorldId}
    (hp : Pending g invs age t w [] m') {r : RegionId} (h : Arrives g invs age t m r)
    (hw : (g.region r).world = w) : m'.hasTime t r = true := by
  induction h with
  | known h => exact hm.kept t _ h
  | @through r target id hr hid hc htarget hpass ih =>
    have hworld : (g.region r).world = w := by
      rw [← (hg.exit_listed r id hid).2.2, ← (hg.connected id target hc).2, hw]
    rcases hp r hworld (ih hworld) id hid target hc ((hm.contains target).trans htarget) hpass
      with h | h
    · exact h
    · cases h

theorem mem_sourceExits (hm : m.Distinct) {w : WorldId} {id : ExitId} :
    id ∈ sourceExits g w t m ↔
      ∃ r, m.hasTime t r = true ∧ (g.region r).world = w ∧ id ∈ (g.region r).exits := by
  unfold sourceExits
  rw [List.mem_flatMap]
  constructor
  · rintro ⟨⟨r, u⟩, he, hid⟩
    obtain ⟨hmem, hu⟩ := List.mem_filter.1 he
    rw [Bool.and_eq_true, beq_iff_eq] at hu
    refine ⟨r, ?_, hu.2, hid⟩
    rw [Reached.hasTime, Reached.times?_of_mem hm hmem]
    exact hu.1
  · rintro ⟨r, hr, hw, hid⟩
    unfold Reached.hasTime at hr
    cases hu : m.times? r with
    | none => simp [hu] at hr
    | some u =>
      rw [hu] at hr
      refine ⟨(r, u), List.mem_filter.2 ⟨Reached.mem_of_times? hu, ?_⟩, hid⟩
      rw [Bool.and_eq_true, beq_iff_eq]
      exact ⟨hr, hw⟩

/-- Questions about any times change nothing but what is remembered. -/
theorem remembers_reachableAt (g : Multiworld) (invs : Array Inventory) (age : Age)
    (region : RegionId) (times : TimeOfDay) (m : Reached) :
    Remembers m (reachableAt g invs age region times m).2 := by
  unfold reachableAt
  split
  · exact .refl m
  · split
    · exact .refl m
    · exact remembers_spread ..

theorem remembers_evaluate (g : Multiworld) (invs : Array Inventory) (age : Age)
    (times : TimeOfDay) (p : Post) (m : Reached) :
    Remembers m (evaluate g invs age times p m).2 :=
  Formula.holds_keeps (P := Remembers m) (fun _ _ h => h.trans (remembers_reachableAt ..)) _ _
    (.refl m)

/-- The answer to a question is whether the times arrive, and they are marked only where they
do. -/
theorem reachableAt_marks (hg : g.WellFormed) (ht : t.isNone = false) (hm : m.Distinct)
    (r : RegionId) :
    ((reachableAt g invs age r t m).1 = true ↔ Arrives g invs age t m r) ∧
      Marks g invs age t m (reachableAt g invs age r t m).2 := by
  unfold reachableAt
  split
  · next h =>
    have hr : m.contains r = false := by
      rw [Reached.contains, h]
      rfl
    refine ⟨⟨fun h => (by cases h), fun h => ?_⟩, .refl g invs age t m⟩
    rw [h.contains] at hr
    cases hr
  · next known h =>
    rw [ht, Bool.false_or]
    have hknown : m.hasTime t r = known.meets t := by
      rw [Reached.hasTime, h]
      rfl
    split
    · next hmeets => exact ⟨iff_of_true rfl (.known (hknown.trans hmeets)), .refl g invs age t m⟩
    · next hmeets =>
      have hsource : ∀ id, id ∈ sourceExits g (g.region r).world t m ↔ _ :=
        fun id => mem_sourceExits hm
      have hsound := spread_sound r (sourceExits g (g.region r).world t m) m
        (.refl g invs age t m) fun id hid => by
          obtain ⟨s, hs, -, hid⟩ := (hsource id).1 hid
          exact ⟨s, .known hs, hid⟩
      have hpending : Pending g invs age t (g.region r).world
          (sourceExits g (g.region r).world t m) m :=
        fun s hw hs id hid target _ _ _ => .inr ((hsource id).2 ⟨s, hs, hw, hid⟩)
      refine ⟨⟨hsound.2, fun harrives => ?_⟩, hsound.1⟩
      -- spreading that failed would have reached the region, since the times arrive there
      refine Bool.not_eq_false _ ▸ fun hfail => ?_
      obtain ⟨hdone, hgoal⟩ := spread_complete ht r _ m hpending
        (by rw [hknown]; exact Bool.eq_false_iff.2 hmeets) hfail
      rw [harrives.hasTime hg hsound.1.toRemembers hdone rfl] at hgoal
      cases hgoal

/-- **The answer to a question about day or night is whether the time arrives**, and what
is remembered does not change what arrives. -/
theorem reachableAt_spec (hg : g.WellFormed) (ht : t.isSingle = true) (hm : m.Distinct)
    (r : RegionId) :
    ((reachableAt g invs age r t m).1 = true ↔ Arrives g invs age t m r) ∧
      Recalls g invs age m (reachableAt g invs age r t m).2 := by
  obtain ⟨hanswer, hmarks⟩ := reachableAt_marks hg (TimeOfDay.isNone_of_isSingle ht) hm r
  exact ⟨hanswer, hmarks.recalls ht⟩

/-! ### Rules -/

theorem exit_post_times (hg : g.WellFormed) (id : ExitId) :
    (g.exit id).post.formula.eachTime TimeOfDay.isSingle = true :=
  hg.exit_times id

theorem location_post_times (hg : g.WellFormed) (id : LocationId) :
    (g.location id).post.formula.eachTime TimeOfDay.isSingle = true :=
  hg.location_times id

/-- The answers to questions about the time of day where `m` is known. -/
def answersIn (g : Multiworld) (invs : Array Inventory) (age : Age) (m : Reached) (q : Query) :
    Bool :=
  (reachableAt g invs age q.region q.times m).1

theorem answersIn_iff (hg : g.WellFormed) (hm : m.Distinct) {q : Query}
    (hq : q.times.isSingle = true) :
    answersIn g invs age m q = true ↔ Arrives g invs age q.times m q.region :=
  (reachableAt_spec hg hq hm q.region).1

/-- What is remembered does not change the answers. -/
theorem Recalls.answersIn_eq (h : Recalls g invs age m m') (hg : g.WellFormed) (hm : m.Distinct)
    {q : Query} (hq : q.times.isSingle = true) :
    answersIn g invs age m' q = answersIn g invs age m q := by
  rw [Bool.eq_iff_iff, answersIn_iff hg (h.distinct hm) hq, answersIn_iff hg hm hq]
  exact h.arrives_iff hq

/-- **Rules are true as the times that arrive make them**, and evaluating them remembers
only such times. -/
theorem evaluate_spec (hg : g.WellFormed) (hm : m.Distinct) {p : Post}
    (hp : p.formula.eachTime TimeOfDay.isSingle = true) (times : TimeOfDay) :
    (evaluate g invs age times p m).1 =
        p.formula.holdsGiven (answersIn g invs age m) (p.situation invs age times) ∧
      Recalls g invs age m (evaluate g invs age times p m).2 := by
  refine Formula.holds_eq_holdsGiven (P := Recalls g invs age m) (fun q m' hq hm' => ?_)
    p.formula m hp (.refl g invs age m)
  exact ⟨hm'.answersIn_eq hg hm hq,
    hm'.trans (reachableAt_spec hg hq (hm'.distinct hm) q.region).2⟩

/-- What is remembered does not change the truth of rules. -/
theorem Recalls.evaluate_eq (h : Recalls g invs age m m') (hg : g.WellFormed) (hm : m.Distinct)
    {p : Post} (hp : p.formula.eachTime TimeOfDay.isSingle = true) (times : TimeOfDay) :
    (evaluate g invs age times p m').1 = (evaluate g invs age times p m).1 := by
  rw [(evaluate_spec hg hm hp times).1, (evaluate_spec hg (h.distinct hm) hp times).1]
  exact Formula.holdsGiven_congr (fun q hq => h.answersIn_eq hg hm hq) hp

/-- Nothing that is known about regions shows in a rule that does not test the time of
day. -/
theorem evaluate_of_timeless {p : Post} (hp : p.formula.timeless = true) (times : TimeOfDay) :
    (evaluate g invs age times p m').1 = (evaluate g invs age times p m).1 := by
  have given : ∀ m : Reached, (evaluate g invs age times p m).1 =
      p.formula.holdsGiven (fun _ => false) (p.situation invs age times) := fun m =>
    (Formula.holds_eq_holdsGiven (P := fun _ => True) (fun _ _ h => by cases h)
      p.formula m hp trivial).1
  rw [given, given]

end Arriving

end Progression
