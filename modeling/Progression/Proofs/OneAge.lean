import Progression.Proofs.Runs

/-!
# One age at a time

A rule that is evaluated as an age may ask the search again, which knows the regions of both
ages.  But the question is asked as the same age, and so are the questions that arise when
times of day spread in order to answer it; at a given time a rule asks nothing at all.  So
whatever is done as one age reads and changes the regions and the exits of this age alone,
and what is done as the one age does not show in what is done as the other.

## Main definitions

* `Search.evaluateThrough`, `Search.reachableThrough`, `Search.expandThrough` — rules,
  questions and expansions that put every question of a rule to the whole search.
* `Search.ConfinedTo` — a step reads and changes what belongs to one age alone.

## Main results

* `Formula.holds_related` — oracles that cannot be told apart make no difference to a formula.
* `Search.evaluateThrough_consult`, `Search.reachableThrough_eq`, `Search.expandThrough_eq` —
  the whole search answers as the regions of one age do.
* `Search.ages_apart` — **rules, expansions and questions as one age are confined to it**;
  so the ages can be expanded in any order, and be asked about one by one.
-/

namespace Progression

open Rule

/-- The scope of a question that is asked as an age, or as anybody. -/
def AgeScope.ofAge : Option Age → AgeScope
  | none => .either
  | some .child => .child
  | some .adult => .adult

namespace Rule.Formula

/-! ### Oracles that cannot be told apart -/

section Related

variable {σ τ : Type} {ask : Query → σ → Bool × σ} {ask' : Query → τ → Bool × τ}
  {cx : Situation} {R : σ → τ → Prop}

mutual

/-- If two oracles give the same answers in memories that are related, and relate them again,
then so does a formula that asks them.  At a given time they are not asked. -/
theorem holds_related
    (hask : cx.times.isNone = true → ∀ times s t, R s t →
      (askAt ask cx times s).1 = (askAt ask' cx times t).1 ∧
        R (askAt ask cx times s).2 (askAt ask' cx times t).2) :
    ∀ (f : Formula) (s : σ) (t : τ), R s t →
      (f.holds ask cx s).1 = (f.holds ask' cx t).1 ∧
        R (f.holds ask cx s).2 (f.holds ask' cx t).2
  | .const _, _, _, h | .item _, _, _, h | .count .., _, _, h | .any _, _, _, h
  | .all _, _, _, h | .compare .., _, _, h | .bottle, _, _, h | .atLeast .., _, _, h
  | .allGoals, _, _, h | .won, _, _, h => ⟨rfl, h⟩
  | .and fs, s, t, h => holdsAll_related hask fs s t h
  | .or fs, s, t, h => holdsAny_related hask fs s t h
  | .not f, s, t, h => by
    obtain ⟨hb, hr⟩ := holds_related hask f s t h
    exact ⟨congrArg Bool.not hb, hr⟩
  | .time times none, s, t, h => by
    unfold holds
    split
    · next hnone => exact hask hnone times s t h
    · exact ⟨rfl, h⟩
  | .time times (some escape), s, t, h => by
    unfold holds
    split
    · next hnone =>
      obtain ⟨hb, hr⟩ := holds_related hask escape s t h
      dsimp only
      rw [hb]
      split
      · exact ⟨rfl, hr⟩
      · exact hask hnone times _ _ hr
    · exact ⟨rfl, h⟩

theorem holdsAll_related
    (hask : cx.times.isNone = true → ∀ times s t, R s t →
      (askAt ask cx times s).1 = (askAt ask' cx times t).1 ∧
        R (askAt ask cx times s).2 (askAt ask' cx times t).2) :
    ∀ (fs : List Formula) (s : σ) (t : τ), R s t →
      (holdsAll ask cx fs s).1 = (holdsAll ask' cx fs t).1 ∧
        R (holdsAll ask cx fs s).2 (holdsAll ask' cx fs t).2
  | [], _, _, h => ⟨rfl, h⟩
  | f :: fs, s, t, h => by
    obtain ⟨hb, hr⟩ := holds_related hask f s t h
    unfold holdsAll
    dsimp only
    rw [hb]
    split
    · exact holdsAll_related hask fs _ _ hr
    · exact ⟨rfl, hr⟩

theorem holdsAny_related
    (hask : cx.times.isNone = true → ∀ times s t, R s t →
      (askAt ask cx times s).1 = (askAt ask' cx times t).1 ∧
        R (askAt ask cx times s).2 (askAt ask' cx times t).2) :
    ∀ (fs : List Formula) (s : σ) (t : τ), R s t →
      (holdsAny ask cx fs s).1 = (holdsAny ask' cx fs t).1 ∧
        R (holdsAny ask cx fs s).2 (holdsAny ask' cx fs t).2
  | [], _, _, h => ⟨rfl, h⟩
  | f :: fs, s, t, h => by
    obtain ⟨hb, hr⟩ := holds_related hask f s t h
    unfold holdsAny
    dsimp only
    rw [hb]
    split
    · exact ⟨rfl, hr⟩
    · exact holdsAny_related hask fs _ _ hr

end

/-- At a given time a formula asks nothing. -/
theorem holds_of_times (h : cx.times.isNone = false) (f : Formula) (s : σ) :
    f.holds ask cx s = (f.holdsAt cx, s) := by
  have hrelated := @holds_related σ Unit ask (fun _ u => (false, u)) cx (fun t _ => t = s)
    (fun hnone => absurd hnone (by simp [h])) f s () rfl
  exact Prod.ext hrelated.1 hrelated.2

end Related

end Rule.Formula

namespace Progress

variable (p : Progress) (age : Age) (m m' : Reached)

@[simp] theorem reached_setReached : (p.setReached age m).reached age = m := by
  cases age <;> rfl

@[simp] theorem setReached_setReached :
    (p.setReached age m).setReached age m' = p.setReached age m' := by
  cases age <;> rfl

@[simp] theorem setFrontier_setReached (f : Frontier) :
    (p.setReached age m).setFrontier age f = p.setFrontier age f := by
  cases age <;> rfl

@[simp] theorem setReached_reached : p.setReached age (p.reached age) = p := by
  cases age <;> rfl

end Progress

namespace Search

variable {g : Multiworld} {age : Age}

/-- A search that has reached other regions as an age. -/
def withReached (s : Search) (age : Age) (m : Reached) : Search :=
  { s with progress := s.progress.setReached age m }

theorem ask_eq (s : Search) (question : Reached → Bool × Reached) :
    s.ask age question = ((question (s.progress.reached age)).1,
      s.withReached age (question (s.progress.reached age)).2) := rfl

theorem withReached_reached (s : Search) : s.withReached age (s.progress.reached age) = s := by
  simp [withReached]

/-! ### Rules that ask the whole search -/

theorem canReach_ofAge (age : Age) (region : RegionId) (times : TimeOfDay) :
    canReach g region (.ofAge (some age)) times = Search.reachableAt g age region times := by
  cases age <;> rfl

/-- Put a question of a rule to the whole search. -/
def consult (g : Multiworld) (q : Query) : Search → Bool × Search :=
  canReach g q.region (.ofAge q.age) q.times

/-- Whether a rule holds as an age at the given times, if its questions are put to `ask`. -/
def evaluateThrough (ask : Query → Search → Bool × Search) (age : Age) (times : TimeOfDay)
    (p : Post) (s : Search) : Bool × Search :=
  p.formula.holds ask (p.situation s.inventories age times) s

/-- At a given time a rule asks nothing. -/
theorem evaluateThrough_of_times (ask : Query → Search → Bool × Search) {times : TimeOfDay}
    (h : times.isNone = false) (p : Post) (s : Search) :
    s.evaluateThrough ask age times p =
      (p.formula.holdsAt (p.situation s.inventories age times), s) :=
  Formula.holds_of_times h p.formula s

/-- Of the whole search a rule sees the regions of its age alone. -/
theorem evaluateThrough_consult (age : Age) (times : TimeOfDay) (p : Post) (s : Search) :
    s.evaluateThrough (consult g) age times p = s.evaluate g age times p := by
  have hask : ∀ (q : Query) (m : Reached), q.age = some age →
      let answer := Progression.reachableAt g s.inventories age q.region q.times m
      consult g q (s.withReached age m) = (answer.1, s.withReached age answer.2) := by
    rintro ⟨region, _, times⟩ m rfl
    rw [consult, canReach_ofAge, Search.reachableAt, ask_eq]
    simp [withReached]
  have hrelated := @Formula.holds_related Search Reached (consult g)
    (fun q => Progression.reachableAt g s.inventories age q.region q.times)
    (p.situation s.inventories age times) (fun t m => t = s.withReached age m)
    (by
      rintro - times' _ m rfl
      simp only [Formula.askAt, Post.situation]
      rw [hask _ m rfl]
      exact ⟨rfl, rfl⟩)
    p.formula s (s.progress.reached age) (withReached_reached s).symm
  exact Prod.ext hrelated.1 hrelated.2

/-! ### Questions that put nested questions to anybody -/

/-- Spread the times as `spread` does, but in the whole search, and put the questions of the
rules on the way to `ask`. -/
def spreadThrough (g : Multiworld) (ask : Query → Search → Bool × Search) (age : Age)
    (goal : RegionId) (times : TimeOfDay) (ht : times.isNone = false) (queue : List ExitId)
    (s : Search) : Bool × Search :=
  match queue with
  | [] => (false, s)
  | id :: queue =>
    match _hc : (g.exit id).connected with
    | none => spreadThrough g ask age goal times ht queue s
    | some target =>
      if _h : (s.progress.reached age).lacks target times = true then
        match _he : s.evaluateThrough ask age times (g.exit id).post with
        | (false, s') => spreadThrough g ask age goal times ht queue s'
        | (true, s') =>
          let s' := s'.withReached age ((s'.progress.reached age).grant target times)
          if target = goal then (true, s')
          else spreadThrough g ask age goal times ht (queue ++ (g.region target).exits) s'
      else spreadThrough g ask age goal times ht queue s
termination_by (shortExits g times (s.progress.reached age), queue.length)
decreasing_by
  · exact Prod.Lex.right _ (by simp)
  · rw [evaluateThrough_of_times ask ht] at _he
    obtain rfl := congrArg Prod.snd _he
    exact Prod.Lex.right _ (by simp)
  · rw [evaluateThrough_of_times ask ht] at _he
    obtain rfl := congrArg Prod.snd _he
    refine Prod.Lex.left _ _ ?_
    simpa [withReached] using shortExits_grant_lt _hc _h
  · exact Prod.Lex.right _ (by simp)

theorem spreadThrough_eq (ask : Query → Search → Bool × Search) (goal : RegionId)
    {times : TimeOfDay} (ht : times.isNone = false) (queue : List ExitId) (s : Search) :
    s.spreadThrough g ask age goal times ht queue =
      s.ask age (spread g
        (fun e => e.post.formula.holdsAt (e.post.situation s.inventories age times))
        goal times queue) := by
  -- the rule of an exit is evaluated in the search as it stands
  have hpasses : ∀ {s s' : Search} {b : Bool} {p : Post},
      s.evaluateThrough ask age times p = (b, s') →
        s = s' ∧ p.formula.holdsAt (p.situation s.inventories age times) = b := by
    intro s s' b p he
    rw [evaluateThrough_of_times ask ht] at he
    exact ⟨congrArg Prod.snd he, congrArg Prod.fst he⟩
  fun_induction spreadThrough g ask age goal times ht queue s with
  | case1 s => simp [ask_eq, spread, withReached_reached]
  | case2 s id queue hc ih => rw [ih, ask_eq, ask_eq, spread_cons, hc]
  | case3 s id queue target hc hlacks s' he ih =>
    obtain ⟨rfl, hb⟩ := hpasses he
    rw [ih, ask_eq, ask_eq, spread_cons, hc]
    simp [hb]
  | case4 s id queue s' he hc hlacks s'' =>
    obtain ⟨rfl, hb⟩ := hpasses he
    rw [ask_eq, spread_cons, hc]
    simp [hlacks, hb, s'']
  | case5 s id queue target hc hlacks s' he s'' hne ih =>
    obtain ⟨rfl, hb⟩ := hpasses he
    rw [ih, ask_eq, ask_eq, spread_cons, hc]
    simp [hlacks, hb, hne, s'', withReached]
  | case6 s id queue target hc hlacks ih =>
    rw [ih, ask_eq, ask_eq, spread_cons, hc]
    simp [hlacks]

/-- Whether a region is reachable as an age, found out in the whole search, whoever answers
the questions of the rules on the way. -/
def reachableThrough (g : Multiworld) (ask : Query → Search → Bool × Search) (age : Age)
    (region : RegionId) (times : TimeOfDay) (s : Search) : Bool × Search :=
  match (s.progress.reached age).times? region with
  | none => (false, s)
  | some known =>
    if h : (times.isNone || known.meets times) = true then (true, s)
    else
      s.spreadThrough g ask age region times (by simp_all)
        (sourceExits g (g.region region).world times (s.progress.reached age))

/-- Nobody is asked: only the regions of the age are looked at. -/
theorem reachableThrough_eq (ask : Query → Search → Bool × Search) (age : Age)
    (region : RegionId) (times : TimeOfDay) (s : Search) :
    s.reachableThrough g ask age region times = s.reachableAt g age region times := by
  rw [Search.reachableAt, ask_eq]
  unfold reachableThrough Progression.reachableAt
  cases (s.progress.reached age).times? region with
  | none => simp [withReached_reached]
  | some known =>
    dsimp only
    split
    · rw [withReached_reached]
    · rw [spreadThrough_eq, ask_eq]

/-! ### Expansions that ask the whole search -/

/-- What a rule that asks the whole search finds out. -/
theorem evaluate_of_evaluateThrough {times : TimeOfDay} {p : Post} {b : Bool} {s s' : Search}
    (h : s.evaluateThrough (consult g) age times p = (b, s')) :
    ∃ m, Progression.evaluate g s.inventories age times p (s.progress.reached age) = (b, m) ∧
      s' = s.withReached age m := by
  rw [evaluateThrough_consult, Search.evaluate, ask_eq, Prod.mk.injEq] at h
  exact ⟨_, Prod.ext h.1 rfl, h.2.symm⟩

/-- It reaches no region. -/
theorem contains_evaluateThrough {times : TimeOfDay} {p : Post} {b : Bool} {s s' : Search}
    (h : s.evaluateThrough (consult g) age times p = (b, s')) (r : RegionId) :
    (s'.progress.reached age).contains r = (s.progress.reached age).contains r := by
  obtain ⟨m, hm, rfl⟩ := evaluate_of_evaluateThrough h
  have hkept := contains_evaluate g s.inventories age times p (s.progress.reached age) r
  rw [hm] at hkept
  rw [withReached, Progress.reached_setReached, hkept]

/-- Try the exits of a queue as an age as `expandFrom` does, but in the whole search, to which
every question of a rule is put. -/
def expandThrough (g : Multiworld) (age : Age) (queue failed : List ExitId) (s : Search) :
    Search :=
  match queue with
  | [] =>
    { s with progress := s.progress.setFrontier age ⟨failed, s.progress.reached age⟩ }
  | id :: queue =>
    match _hc : (g.exit id).connected with
    | none => expandThrough g age queue failed s
    | some target =>
      if _hm : (s.progress.reached age).contains target = true then
        expandThrough g age queue failed s
      else
        match _he : s.evaluateThrough (consult g) age .none (g.exit id).post with
        | (false, s') => expandThrough g age queue (failed ++ [id]) s'
        | (true, s') =>
          let region := g.region target
          let w := (g.exit id).world
          let m := s'.progress.reached age
          let s'' := s'.withReached age (m.discover g w target)
          if (rootTimes g w m).contains region.provides then
            expandThrough g age (queue ++ region.exits) failed s''
          else expandThrough g age (queue ++ failed ++ region.exits) [] s''
termination_by (Progression.openings g (s.progress.reached age), queue.length)
decreasing_by
  · exact Prod.Lex.right _ (by simp)
  · exact Prod.Lex.right _ (by simp)
  · rw [openings_congr (contains_evaluateThrough _he)]
    exact Prod.Lex.right _ (by simp)
  all_goals
    refine Prod.Lex.left _ _ (openings_lt _hc (by simpa using _hm) ?_ fun r hr => ?_)
    · simp [withReached]
    · simp [withReached, contains_evaluateThrough _he, hr]

/-- The frontier of the age is expanded, and nothing else is done. -/
theorem expandThrough_eq (queue failed : List ExitId) (s : Search) :
    s.expandThrough g age queue failed =
      { s with
        progress := s.progress.setFrontier age
          (expandFrom g s.inventories age queue failed (s.progress.reached age)) } := by
  fun_induction expandThrough g age queue failed s with
  | case1 failed s => rw [expandFrom]
  | case2 failed s id queue hc ih => rw [ih, expandFrom_cons, hc]
  | case3 failed s id queue target hc hm ih =>
    rw [ih, expandFrom_cons, hc]
    simp [hm]
  | case4 failed s id queue target hc hm s' he ih =>
    obtain ⟨m, heval, rfl⟩ := evaluate_of_evaluateThrough he
    rw [ih, expandFrom_cons, hc]
    simp [hm, heval, withReached]
  | case5 failed s id queue target hc hm s' he region w m s'' hroot ih =>
    obtain ⟨m', heval, rfl⟩ := evaluate_of_evaluateThrough he
    rw [ih, expandFrom_cons, hc]
    simp only [w, region, m, withReached, Progress.reached_setReached] at hroot
    simp [s'', region, w, m, hm, heval, hroot, withReached]
  | case6 failed s id queue target hc hm s' he region w m s'' hroot ih =>
    obtain ⟨m', heval, rfl⟩ := evaluate_of_evaluateThrough he
    rw [ih, expandFrom_cons, hc]
    simp only [w, region, m, withReached, Progress.reached_setReached] at hroot
    simp [s'', region, w, m, hm, heval, hroot, withReached]

theorem expandThrough_queue (age : Age) (s : Search) :
    s.expandThrough g age (s.progress.frontier age).queue [] = s.expand g age :=
  expandThrough_eq ..

/-! ### Steps that are confined to an age -/

/-- A step reads the inventories and the frontier of one age, and changes this frontier
alone. -/
structure ConfinedTo {α : Type} (age : Age) (step : Search → α × Search) : Prop where
  inventories : ∀ s, (step s).2.inventories = s.inventories
  visited : ∀ s, (step s).2.progress.visited = s.progress.visited
  others : ∀ s age', age' ≠ age →
    (step s).2.progress.frontier age' = s.progress.frontier age'
  reads : ∀ s t, t.inventories = s.inventories →
    t.progress.frontier age = s.progress.frontier age →
    (step t).1 = (step s).1 ∧
      (step t).2.progress.frontier age = (step s).2.progress.frontier age

/-- What is worked out from the inventories and a frontier, and put in place of it, is
confined to its age. -/
theorem confinedTo_of_frontier {α : Type} {step : Search → α × Search}
    (f : Array Inventory → Frontier → α × Frontier)
    (h : ∀ s, step s = ((f s.inventories (s.progress.frontier age)).1,
      { s with
        progress := s.progress.setFrontier age
          (f s.inventories (s.progress.frontier age)).2 })) :
    ConfinedTo age step where
  inventories s := by rw [h]
  visited s := by rw [h, Progress.visited_setFrontier]
  others s age' hne := by rw [h, Progress.frontier_setFrontier, if_neg hne.symm]
  reads s t hinv hfrontier := by
    rw [h, h, hinv, hfrontier]
    simp

theorem confinedTo_expand (g : Multiworld) (age : Age) :
    ConfinedTo age fun s => ((), s.expand g age) :=
  confinedTo_of_frontier (fun invs f => ((), f.expand g invs age)) fun _ => rfl

theorem confinedTo_ask (age : Age)
    (question : Array Inventory → Reached → Bool × Reached) :
    ConfinedTo age fun s => s.ask age (question s.inventories) :=
  confinedTo_of_frontier
    (fun invs f => ((question invs f.reached).1, { f with reached := (question invs f.reached).2 }))
    fun _ => rfl

theorem confinedTo_evaluate (g : Multiworld) (age : Age) (times : TimeOfDay) (p : Post) :
    ConfinedTo age (Search.evaluate g age times p) :=
  confinedTo_ask age fun invs => Progression.evaluate g invs age times p

theorem confinedTo_reachableAt (g : Multiworld) (age : Age) (region : RegionId)
    (times : TimeOfDay) : ConfinedTo age (Search.reachableAt g age region times) :=
  confinedTo_ask age fun invs => Progression.reachableAt g invs age region times

namespace ConfinedTo

variable {a b : Age} {α β : Type} {p : Search → α × Search} {q : Search → β × Search}

/-- A step as another age makes no difference. -/
theorem after (hq : ConfinedTo b q) (hp : ConfinedTo a p) (hab : b ≠ a) (s : Search) :
    (q (p s).2).1 = (q s).1 ∧
      (q (p s).2).2.progress.frontier b = (q s).2.progress.frontier b :=
  hq.reads s (p s).2 (hp.inventories s) (hp.others s b hab)

/-- There are two ages. -/
theorem eq_of_ages {s t : Search} (hab : a ≠ b) (hinv : t.inventories = s.inventories)
    (hvisited : t.progress.visited = s.progress.visited)
    (ha : t.progress.frontier a = s.progress.frontier a)
    (hb : t.progress.frontier b = s.progress.frontier b) : t = s := by
  obtain ⟨_, ⟨_, _, _⟩⟩ := s
  obtain ⟨_, ⟨_, _, _⟩⟩ := t
  cases a <;> cases b <;> simp_all [Progress.frontier]

/-- Steps as different ages can be taken in any order. -/
theorem comm (hp : ConfinedTo a p) (hq : ConfinedTo b q) (hab : a ≠ b) (s : Search) :
    (q (p s).2).2 = (p (q s).2).2 := by
  refine eq_of_ages hab ?_ ?_ ?_ ?_
  · rw [hq.inventories, hp.inventories, hp.inventories, hq.inventories]
  · rw [hq.visited, hp.visited, hp.visited, hq.visited]
  · rw [hq.others _ a hab, (hp.after hq hab s).2]
  · rw [hp.others _ b hab.symm, (hq.after hp hab.symm s).2]

variable {p p' q q' : Search → Bool × Search}

/-- Questions as one age in sequence are one question as this age. -/
theorem bothHold (hp : ConfinedTo a p) (hp' : ConfinedTo a p') :
    ConfinedTo a (Progression.bothHold p p') where
  inventories s := bothHold_keeps (fun t h => (hp.inventories t).trans h)
    (fun t h => (hp'.inventories t).trans h) s rfl
  visited s := bothHold_keeps (P := fun t => t.progress.visited = s.progress.visited)
    (fun t h => (hp.visited t).trans h) (fun t h => (hp'.visited t).trans h) s rfl
  others s age' hne :=
    bothHold_keeps (P := fun t => t.progress.frontier age' = s.progress.frontier age')
      (fun t h => (hp.others t age' hne).trans h) (fun t h => (hp'.others t age' hne).trans h) s rfl
  reads s t hinv hfrontier := by
    obtain ⟨hfst, hsnd⟩ := hp.reads s t hinv hfrontier
    have hinv' : (p t).2.inventories = (p s).2.inventories := by
      rw [hp.inventories, hp.inventories, hinv]
    unfold Progression.bothHold
    dsimp only
    rw [hfst]
    split
    · exact hp'.reads _ _ hinv' hsnd
    · exact ⟨rfl, hsnd⟩

/-- Two questions as each of two ages have the same answer whether the ages take turns or not. -/
theorem interleave (hp : ConfinedTo a p) (hp' : ConfinedTo a p') (hq : ConfinedTo b q)
    (hq' : ConfinedTo b q') (hab : a ≠ b) (s : Search) :
    (Progression.bothHold (Progression.bothHold p q) (Progression.bothHold p' q') s).1 =
      ((Progression.bothHold p p' s).1 && (Progression.bothHold q q' s).1) := by
  cases hfirst : (p s).1 with
  | false => simp [bothHold_fst, hfirst]
  | true =>
    have hstate : (Progression.bothHold p q s).2 = (q (p s).2).2 := by
      simp [Progression.bothHold, hfirst]
    -- the other age leaves each question in the situation after the first one as its age
    have hq₁ := hq.after hp hab.symm s
    have hp₂ : (p' (q (p s).2).2).1 = (p' (p s).2).1 := (hp'.after hq hab (p s).2).1
    have hinv : (q (p s).2).2.inventories = (q s).2.inventories := by
      rw [hq.inventories, hq.inventories, hp.inventories]
    have hq₂ : (q' (p' (q (p s).2).2).2).1 = (q' (q s).2).1 :=
      (hq'.after hp' hab.symm _).1.trans (hq'.reads _ _ hinv hq₁.2).1
    rw [bothHold_fst, bothHold_fst, bothHold_fst, bothHold_fst, bothHold_fst, hstate, hfirst, hq₁.1,
      hp₂, hq₂]
    cases (q s).1 <;> simp

end ConfinedTo

/-- What is found out about a spot as an age. -/
theorem confinedTo_spotAccessAs (g : Multiworld) (p : Post) (times : TimeOfDay) (age : Age) :
    ConfinedTo age (spotAccessAs g p times age) :=
  (confinedTo_reachableAt g age p.region times).bothHold (confinedTo_evaluate g age times p)

/-- As both ages a spot is accessible just when it is as each of them. -/
theorem spotAccess_both (g : Multiworld) (spot : Spot) (times : TimeOfDay) (s : Search) :
    (s.spotAccess g spot .both times).1 =
      ((s.spotAccess g spot .adult times).1 && (s.spotAccess g spot .child times).1) :=
  (confinedTo_reachableAt g .adult _ times).interleave (confinedTo_evaluate g .adult times _)
    (confinedTo_reachableAt g .child _ times) (confinedTo_evaluate g .child times _) nofun s

/-- As either age a spot is accessible just when it is as one of them. -/
theorem spotAccess_either (g : Multiworld) (spot : Spot) (times : TimeOfDay) (s : Search) :
    (s.spotAccess g spot .either times).1 =
      ((s.spotAccess g spot .adult times).1 || (s.spotAccess g spot .child times).1) := by
  have hchild := (confinedTo_spotAccessAs g (postOf g spot) times .child).after
    (confinedTo_spotAccessAs g (postOf g spot) times .adult) nofun s
  exact (eitherHolds_fst _ _ s).trans (congrArg _ hchild.1)

/-- **Rules, expansions and questions as one age are confined to it**, though every question
of a rule is put to the whole search.  So it makes no difference which age is expanded first,
and a question for both ages or for either one is answered as by asking it as each of them. -/
theorem ages_apart (g : Multiworld) :
    (∀ age times p,
      evaluateThrough (consult g) age times p = Search.evaluate g age times p ∧
        ConfinedTo age (Search.evaluate g age times p)) ∧
    (∀ age,
      (∀ s : Search,
        s.expandThrough g age (s.progress.frontier age).queue [] = s.expand g age) ∧
        ConfinedTo age fun s => ((), s.expand g age)) ∧
    (∀ age region times,
      (∀ ask, reachableThrough g ask age region times =
        canReach g region (.ofAge (some age)) times) ∧
        ConfinedTo age (canReach g region (.ofAge (some age)) times)) ∧
    (∀ s : Search, s.nextSphere g = (s.expand g .child).expand g .adult) ∧
    ∀ spot times (s : Search),
      (s.spotAccess g spot .both times).1 =
          ((s.spotAccess g spot .adult times).1 && (s.spotAccess g spot .child times).1) ∧
        (s.spotAccess g spot .either times).1 =
          ((s.spotAccess g spot .adult times).1 || (s.spotAccess g spot .child times).1) := by
  refine ⟨fun age times p => ?_, fun age => ?_, fun age region times => ?_, fun s => ?_,
    fun spot times s => ⟨spotAccess_both g spot times s, spotAccess_either g spot times s⟩⟩
  · exact ⟨funext (evaluateThrough_consult age times p), confinedTo_evaluate g age times p⟩
  · exact ⟨expandThrough_queue age, confinedTo_expand g age⟩
  · rw [canReach_ofAge]
    exact ⟨fun ask => funext (reachableThrough_eq ask age region times),
      confinedTo_reachableAt g age region times⟩
  · exact (confinedTo_expand g .adult).comm (confinedTo_expand g .child) nofun s

end Search

end Progression
