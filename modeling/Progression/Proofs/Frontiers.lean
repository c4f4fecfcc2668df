import Progression.Proofs.Daytime
import Progression.Search.Basic

/-!
# What an expansion finds

An expansion tries the exits of a queue.  It finds something new just when some exit in
the queue opens at once, because as long as nothing is found nothing changes but what is
remembered about times.  What it leaves in the queue are the exits that failed, and an exit
whose rule does not test the time of day has failed for good.

## Main definitions

* `Blocked` — an exit does not lead anywhere new.
* `Explored` — how a frontier hangs together.
* `ExpansionInvariant` — what every step of an expansion keeps.

## Main results

* `expandFrom_contains_iff` — **an expansion finds nothing just when all exits in its
  queue are blocked.**
* `evaluate_of_mem_expandFrom` — the rules of the exits it leaves do not hold, unless
  they test the time of day.
* `ExpansionInvariant.expandFrom` — what every step of an expansion keeps, it keeps.
-/

namespace Progression

open Rule

variable {g : Multiworld} {invs : Array Inventory} {age : Age}

/-! ### Blocked exits -/

/-- An exit leads to no region that is not reached, or its rule does not hold. -/
def Blocked (g : Multiworld) (invs : Array Inventory) (age : Age) (m : Reached) (id : ExitId) :
    Prop :=
  ∀ target, (g.exit id).connected = some target → m.contains target = false →
    (evaluate g invs age .none (g.exit id).post m).1 = false

theorem blocked_of_unconnected {m : Reached} {id : ExitId} (h : (g.exit id).connected = none) :
    Blocked g invs age m id := by
  intro target hc
  rw [h] at hc
  cases hc

theorem blocked_of_contains {m : Reached} {id : ExitId} {target : RegionId}
    (hc : (g.exit id).connected = some target) (h : m.contains target = true) :
    Blocked g invs age m id := by
  intro target' hc' h'
  rw [hc, Option.some_inj] at hc'
  rw [← hc', h] at h'
  cases h'

/-- What is remembered opens no exit. -/
theorem Recalls.blocked_iff {m m' : Reached} (h : Recalls g invs age m m') (hg : g.WellFormed)
    (hm : m.Distinct) {id : ExitId} : Blocked g invs age m' id ↔ Blocked g invs age m id := by
  unfold Blocked
  simp only [h.contains, h.evaluate_eq hg hm (exit_post_times hg id)]

/-! ### Expanding -/

/-- Evaluating the rule of an exit remembers only times that arrive. -/
theorem recalls_evaluate (hg : g.WellFormed) {m : Reached} (hm : m.Distinct) {id : ExitId}
    {b : Bool} {m' : Reached} (he : evaluate g invs age .none (g.exit id).post m = (b, m')) :
    Recalls g invs age m m' := by
  have h : Recalls g invs age m (evaluate g invs age .none (g.exit id).post m).2 :=
    (evaluate_spec hg hm (exit_post_times hg id) .none).2
  rwa [he] at h

/-- An expansion whose exits are all blocked finds nothing. -/
theorem expandFrom_of_blocked (hg : g.WellFormed) {m₀ : Reached} (h₀ : m₀.Distinct)
    (queue failed : List ExitId) (m : Reached) (hm : Recalls g invs age m₀ m)
    (hb : ∀ id ∈ queue, Blocked g invs age m₀ id) :
    Recalls g invs age m₀ (expandFrom g invs age queue failed m).reached := by
  -- nothing is found, so an exit that was blocked at first is blocked when its turn comes
  have blocked_now : ∀ {m : Reached} {id : ExitId}, Recalls g invs age m₀ m →
      Blocked g invs age m₀ id → Blocked g invs age m id :=
    fun hm h => (hm.blocked_iff hg h₀).2 h
  fun_induction expandFrom g invs age queue failed m with
  | case1 => exact hm
  | case2 failed m id queue _ ih => exact ih hm fun e he => hb e (List.mem_cons_of_mem _ he)
  | case3 failed m id queue target _ _ ih =>
    exact ih hm fun e he => hb e (List.mem_cons_of_mem _ he)
  | case4 failed m id queue target _ _ m' he ih =>
    exact ih (hm.trans (recalls_evaluate hg (hm.distinct h₀) he))
      fun e he => hb e (List.mem_cons_of_mem _ he)
  | case5 failed m id queue target hc hn m' he =>
    have h := blocked_now hm (hb id List.mem_cons_self) target hc (Bool.eq_false_iff.2 hn)
    rw [he] at h
    cases h
  | case6 failed m id queue target hc hn m' he =>
    have h := blocked_now hm (hb id List.mem_cons_self) target hc (Bool.eq_false_iff.2 hn)
    rw [he] at h
    cases h

/-- An expansion with an exit that is not blocked finds something. -/
theorem expandFrom_of_open (hg : g.WellFormed) {m₀ : Reached} (h₀ : m₀.Distinct)
    (queue failed : List ExitId) (m : Reached) (hm : Recalls g invs age m₀ m)
    (ho : ∃ id ∈ queue, ¬ Blocked g invs age m₀ id) :
    ∃ r, (expandFrom g invs age queue failed m).reached.contains r = true ∧
      m₀.contains r = false := by
  -- the exit that is not blocked is further back in the queue
  have later : ∀ {m : Reached} {id : ExitId} {queue : List ExitId}, Recalls g invs age m₀ m →
      Blocked g invs age m id → (∃ e ∈ id :: queue, ¬ Blocked g invs age m₀ e) →
      ∃ e ∈ queue, ¬ Blocked g invs age m₀ e := by
    rintro m id queue hm hid ⟨e, he, ho⟩
    rcases List.mem_cons.1 he with rfl | he
    · exact absurd ((hm.blocked_iff hg h₀).1 hid) ho
    · exact ⟨e, he, ho⟩
  -- a region that is discovered stays reached
  have found : ∀ {m m' : Reached} {id : ExitId} {target : RegionId} (queue failed : List ExitId),
      Recalls g invs age m₀ m → ¬ m.contains target = true →
      ∃ r, (expandFrom g invs age queue failed
        (m'.discover g (g.exit id).world target)).reached.contains r = true ∧
          m₀.contains r = false := by
    intro m m' id target queue failed hm hn
    rw [hm.contains] at hn
    exact ⟨target, contains_expandFrom g invs age queue failed _ (by simp),
      Bool.eq_false_iff.2 hn⟩
  fun_induction expandFrom g invs age queue failed m with
  | case1 =>
    obtain ⟨_, h, _⟩ := ho
    cases h
  | case2 failed m id queue hc ih => exact ih hm (later hm (blocked_of_unconnected hc) ho)
  | case3 failed m id queue target hc hcon ih =>
    exact ih hm (later hm (blocked_of_contains hc hcon) ho)
  | case4 failed m id queue target hc _ m' he ih =>
    refine ih (hm.trans (recalls_evaluate hg (hm.distinct h₀) he)) (later hm ?_ ho)
    intro target' _ _
    rw [he]
  | case5 failed m id queue target hc hn m' he => exact found _ _ hm hn
  | case6 failed m id queue target hc hn m' he => exact found _ _ hm hn

/-- **An expansion finds nothing just when all exits in its queue are blocked.** -/
theorem expandFrom_contains_iff (hg : g.WellFormed) {m : Reached} (hm : m.Distinct)
    (queue failed : List ExitId) :
    (∀ r, (expandFrom g invs age queue failed m).reached.contains r = m.contains r) ↔
      ∀ id ∈ queue, Blocked g invs age m id := by
  constructor
  · intro hsame id hid
    by_cases hb : Blocked g invs age m id
    · exact hb
    · obtain ⟨r, hr, hn⟩ := expandFrom_of_open hg hm queue failed m (.refl g invs age m)
        ⟨id, hid, hb⟩
      rw [hsame, hn] at hr
      cases hr
  · intro hb
    have hrecalls := expandFrom_of_blocked hg hm queue failed m (.refl g invs age m) hb
    exact hrecalls.contains

/-- The rules of the exits that an expansion leaves do not hold, unless they test the time
of day. -/
theorem evaluate_of_mem_expandFrom (queue failed : List ExitId) (m : Reached)
    (hf : ∀ id ∈ failed, (g.exit id).post.formula.timeless = true →
      ∀ m', (evaluate g invs age .none (g.exit id).post m').1 = false) :
    ∀ id ∈ (expandFrom g invs age queue failed m).queue,
      (g.exit id).post.formula.timeless = true →
        ∀ m', (evaluate g invs age .none (g.exit id).post m').1 = false := by
  fun_induction expandFrom g invs age queue failed m with
  | case1 => exact hf
  | case2 _ _ _ _ _ ih => exact ih hf
  | case3 _ _ _ _ _ _ _ ih => exact ih hf
  | case4 failed m id queue target _ _ m' he ih =>
    -- the exit that fails now would fail whatever was known
    refine ih fun e he' ht m'' => ?_
    rcases List.mem_append.1 he' with he' | he'
    · exact hf e he' ht m''
    · rw [List.mem_singleton] at he'
      subst he'
      rw [evaluate_of_timeless ht .none (m := m), he]
  | case5 _ _ _ _ _ _ _ _ _ _ _ _ ih => exact ih hf
  | case6 _ _ _ _ _ _ _ _ _ _ _ _ ih => exact ih (List.forall_mem_nil _)

/-! ### Discoveries -/

/-- The times that the root is known to have are those that it is reachable at. -/
theorem meets_rootTimes (m : Reached) (w : WorldId) (t : TimeOfDay) :
    (rootTimes g w m).meets t = m.hasTime t (g.root w) := by
  unfold rootTimes Reached.hasTime
  cases m.times? (g.root w) with
  | none => rcases t with ⟨_ | _, _ | _⟩ <;> rfl
  | some u => rfl

theorem hasTime_discover (m : Reached) (w : WorldId) (target : RegionId) (t : TimeOfDay)
    (r : RegionId) :
    (m.discover g w target).hasTime t r =
      if target = r then (g.region target).provides.meets t
      else (m.hasTime t r || (decide (g.root w = r) && (g.region target).provides.meets t)) := by
  unfold Reached.discover
  dsimp only
  rw [Reached.hasTime_insert, Reached.hasTime_insert]
  split
  · rfl
  · split
    · next h => rw [TimeOfDay.meets_union, meets_rootTimes, h, decide_eq_true rfl, Bool.true_and]
    · next h => rw [decide_eq_false h, Bool.false_and, Bool.or_false]

theorem Reached.Distinct.discover {m : Reached} (h : m.Distinct) (w : WorldId)
    (target : RegionId) : (m.discover g w target).Distinct :=
  (h.insert _ _).insert _ _

/-! ### Explored frontiers -/

/-- Whether a region is the root of its world. -/
def Multiworld.IsRoot (g : Multiworld) (r : RegionId) : Prop := r = g.root (g.region r).world

/-- How a frontier with the exits `queue` hangs together: the roots are reached, the queue
has all exits of reached regions that can still lead to new ones and no others, and the
times that reached regions provide are known, for the regions and for the roots. -/
structure Explored (g : Multiworld) (queue : List ExitId) (m : Reached) : Prop where
  distinct : m.Distinct
  roots : ∀ w : WorldId, w.index < g.worlds.size → m.contains (g.root w) = true
  listed : ∀ id ∈ queue, ∃ r, m.contains r = true ∧ id ∈ (g.region r).exits
  queued : ∀ r, m.contains r = true → ∀ id ∈ (g.region r).exits, ∀ target,
    (g.exit id).connected = some target → m.contains target = false → id ∈ queue
  provided : ∀ r, m.contains r = true → ¬ g.IsRoot r → ∀ t,
    (g.region r).provides.meets t = true → m.hasTime t r = true
  rootProvided : ∀ r, m.contains r = true → ¬ g.IsRoot r → ∀ t,
    (g.region r).provides.meets t = true → m.hasTime t (g.root (g.region r).world) = true

namespace Explored

variable {queue queue' : List ExitId} {m m' : Reached}

/-- Only the members of the queue matter. -/
theorem of_mem_iff (h : Explored g queue m) (hq : ∀ id, id ∈ queue' ↔ id ∈ queue) :
    Explored g queue' m where
  distinct := h.distinct
  roots := h.roots
  listed id hid := h.listed id ((hq id).1 hid)
  queued r hr id hid target hc hn := (hq id).2 (h.queued r hr id hid target hc hn)
  provided := h.provided
  rootProvided := h.rootProvided

theorem remembers (h : Explored g queue m) (hm : Remembers m m') : Explored g queue m' where
  distinct := hm.distinct h.distinct
  roots w hw := (hm.contains _).trans (h.roots w hw)
  listed id hid := by
    obtain ⟨r, hr, hid⟩ := h.listed id hid
    exact ⟨r, (hm.contains r).trans hr, hid⟩
  queued r hr id hid target hc hn :=
    h.queued r (hm.contains r ▸ hr) id hid target hc (hm.contains target ▸ hn)
  provided r hr hroot t ht := hm.kept t r (h.provided r (hm.contains r ▸ hr) hroot t ht)
  rootProvided r hr hroot t ht :=
    hm.kept t _ (h.rootProvided r (hm.contains r ▸ hr) hroot t ht)

/-- An exit that leads nowhere new may be dropped. -/
theorem drop {id : ExitId} (h : Explored g (id :: queue) m)
    (hid : ∀ target, (g.exit id).connected = some target → m.contains target = true) :
    Explored g queue m where
  distinct := h.distinct
  roots := h.roots
  listed e he := h.listed e (List.mem_cons_of_mem _ he)
  queued r hr e he target hc hn := by
    rcases List.mem_cons.1 (h.queued r hr e he target hc hn) with rfl | hq
    · rw [hid target hc] at hn
      cases hn
    · exact hq
  provided := h.provided
  rootProvided := h.rootProvided

/-- An exit that leads to a new region may be replaced by the exits of that region. -/
theorem discover (hg : g.WellFormed) {id : ExitId} {target : RegionId}
    (h : Explored g (id :: queue) m) (hc : (g.exit id).connected = some target)
    (hn : m.contains target = false) :
    Explored g ((g.region target).exits ++ queue) (m.discover g (g.exit id).world target) := by
  obtain ⟨ht, htw⟩ := hg.connected id target hc
  have hw : (g.exit id).world.index < g.worlds.size := htw ▸ hg.region_world target ht
  have hroot : m.contains (g.root (g.exit id).world) = true := h.roots _ hw
  have hcontains : ∀ r, (m.discover g (g.exit id).world target).contains r = true ↔
      r = target ∨ m.contains r = true := by
    intro r
    rw [contains_discover, Bool.or_eq_true, Bool.or_eq_true, decide_eq_true_iff,
      decide_eq_true_iff, eq_comm]
    refine or_congr_right ⟨?_, .inr⟩
    rintro (rfl | hr)
    · exact hroot
    · exact hr
  have hne : ∀ {r}, m.contains r = true → target ≠ r := by
    rintro r hr rfl
    rw [hn] at hr
    cases hr
  -- the new region was not reached, so no time that is known is lost
  have hkept : ∀ {t r}, m.hasTime t r = true →
      (m.discover g (g.exit id).world target).hasTime t r = true := by
    intro t r hr
    rw [hasTime_discover, if_neg (hne (Reached.contains_of_hasTime hr)), hr]
    rfl
  constructor
  case distinct => exact h.distinct.discover _ _
  case roots =>
    intro w hw
    exact (hcontains _).2 (.inr (h.roots w hw))
  case listed =>
    intro e he
    rcases List.mem_append.1 he with he | he
    · exact ⟨target, (hcontains _).2 (.inl rfl), he⟩
    · obtain ⟨r, hr, he⟩ := h.listed e (List.mem_cons_of_mem _ he)
      exact ⟨r, (hcontains r).2 (.inr hr), he⟩
  case queued =>
    intro r hr e he target' hc' hn'
    rcases (hcontains r).1 hr with rfl | hr
    · exact List.mem_append_left _ he
    · have hn'' : ¬ (target' = target ∨ m.contains target' = true) := by
        rw [← hcontains, hn']
        exact Bool.false_ne_true
      rw [not_or] at hn''
      -- the exit was queued, and it is not the one that led to the new region
      rcases List.mem_cons.1 (h.queued r hr e he target' hc' (Bool.eq_false_iff.2 hn''.2))
        with rfl | hq
      · rw [hc, Option.some_inj] at hc'
        exact absurd hc'.symm hn''.1
      · exact List.mem_append_right _ hq
  case provided =>
    intro r hr hnr t ht'
    rcases (hcontains r).1 hr with rfl | hr
    · rwa [hasTime_discover, if_pos rfl]
    · exact hkept (h.provided r hr hnr t ht')
  case rootProvided =>
    intro r hr hnr t ht'
    rcases (hcontains r).1 hr with rfl | hr
    · rw [hasTime_discover, htw, if_neg (hne hroot), decide_eq_true rfl, ht', Bool.true_and,
        Bool.or_true]
    · exact hkept (h.rootProvided r hr hnr t ht')

end Explored

/-! ### Invariants of an expansion -/

/-- What one step of an expansion has to keep of its exits, in any order, and of what is
reached. -/
structure ExpansionInvariant (g : Multiworld) (invs : Array Inventory) (age : Age)
    (inv : List ExitId → Reached → Prop) : Prop where
  of_mem_iff : ∀ {queue queue' m}, inv queue m → (∀ id, id ∈ queue' ↔ id ∈ queue) → inv queue' m
  /-- An exit that leads nowhere new is dropped. -/
  drop : ∀ {id queue m}, inv (id :: queue) m →
    (∀ target, (g.exit id).connected = some target → m.contains target = true) → inv queue m
  /-- The rule of an exit fails. -/
  fail : ∀ {id queue m m'}, inv (id :: queue) m →
    evaluate g invs age .none (g.exit id).post m = (false, m') → inv (id :: queue) m'
  /-- The rule of an exit holds. -/
  discover : ∀ {id queue m m' target}, inv (id :: queue) m →
    (g.exit id).connected = some target → m.contains target = false →
    evaluate g invs age .none (g.exit id).post m = (true, m') →
      inv ((g.region target).exits ++ queue) (m'.discover g (g.exit id).world target)

/-- **What every step keeps, an expansion keeps.** -/
theorem ExpansionInvariant.expandFrom {inv : List ExitId → Reached → Prop}
    (hinv : ExpansionInvariant g invs age inv) (queue failed : List ExitId) (m : Reached)
    (h : inv (queue ++ failed) m) :
    inv (expandFrom g invs age queue failed m).queue
      (expandFrom g invs age queue failed m).reached := by
  fun_induction Progression.expandFrom g invs age queue failed m with
  | case1 => exact h
  | case2 failed m id queue hc ih =>
    exact ih (hinv.drop h fun _ hc' => by rw [hc] at hc'; cases hc')
  | case3 failed m id queue target hc hcon ih =>
    refine ih (hinv.drop h fun target' hc' => ?_)
    rw [hc, Option.some_inj] at hc'
    rwa [← hc']
  | case4 failed m id queue target _ _ m' he ih =>
    have h : inv (id :: (queue ++ failed)) m := h
    exact ih (hinv.of_mem_iff (hinv.fail h he) fun e => by grind)
  | case5 failed m id queue target hc hn m' he _ _ _ ih =>
    have h : inv (id :: (queue ++ failed)) m := h
    exact ih (hinv.of_mem_iff (hinv.discover h hc (Bool.eq_false_iff.2 hn) he) fun e => by grind)
  | case6 failed m id queue target hc hn m' he _ _ _ ih =>
    have h : inv (id :: (queue ++ failed)) m := h
    exact ih (hinv.of_mem_iff (hinv.discover h hc (Bool.eq_false_iff.2 hn) he) fun e => by grind)

/-- Evaluating a rule changes nothing but what is remembered. -/
theorem remembers_of_evaluate {m m' : Reached} {p : Post} {b : Bool}
    (he : evaluate g invs age .none p m = (b, m')) : Remembers m m' := by
  have h := remembers_evaluate g invs age .none p m
  rwa [he] at h

/-- **Frontiers keep hanging together.** -/
theorem explored_invariant (hg : g.WellFormed) : ExpansionInvariant g invs age (Explored g) where
  of_mem_iff h hq := h.of_mem_iff hq
  drop h hid := h.drop hid
  fail h he := h.remembers (remembers_of_evaluate he)
  discover h hc hn he :=
    (h.remembers (remembers_of_evaluate he)).discover hg hc
      (((remembers_of_evaluate he).contains _).trans hn)

end Progression
