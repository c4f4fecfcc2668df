import Progression.Proofs.OneAge
import Progression.Search.Spheres

/-!
# The loops of a search end

A search runs five kinds of loops.  Times of day are spread and frontiers are expanded by going
through a queue that is appended to on the way, and an expansion may put everything that failed
so far back into it.  A cursor passes over the candidates again and again, for as long as a pass
finds something, and whoever holds the cursor may collect items between its steps.  Spheres are
split off for as long as there is a location in the next one.

Each loop is written here turn by turn, with the queue and the position in it, the flags of the
cursor and the candidates that remain as its state, and nothing in it bounds the number of turns.
A run of a loop is a finite sequence of turns.  That there is one from every state is therefore
the statement that the loop ends.

Why they end differs.  A turn that appends to the queue of a spread grants times to a reached
region that lacks them, and one that appends to the queue of an expansion reaches a new region;
of both there are only so many, and all other turns go on in the queue.  An expansion evaluates
rules that may ask for times, and so start a spread.  But a spread evaluates rules at a given
time, and these ask nothing, so it does not start another one.  A pass that finds something
leaves fewer candidates that are not visited, and a sphere leaves fewer candidates.

## Main definitions

* `Ends` — a loop ends with a result after finitely many turns.
* `Scan` — a queue with a position in it.
* `Search.spreadTurn`, `Search.expandTurn` — the turns of the loops that go through a queue.
* `Cursor`, `Search.cursorTurn` — a cursor and its turns, by whoever holds it.
* `Search.sphereTurn` — the turns of the loop that splits off spheres.

## Main results

* `Search.ends_spread`, `Search.ends_expand`, `Search.ends_explore`, `Search.ends_spheres` —
  where the loops end.
* `Search.loops_end` — **all loops of a search end, and a spread starts no other one.**
-/

namespace Progression

open Rule

/-! ### Loops -/

/-- A loop ends with a result after finitely many turns: a turn goes on to another state, or
stops with the result. -/
inductive Ends {σ ρ : Type} (turn : σ → σ ⊕ ρ) : σ → ρ → Prop where
  | stop {s : σ} {x : ρ} (h : turn s = .inr x) : Ends turn s x
  | go {s t : σ} {x : ρ} (h : turn s = .inl t) (hrest : Ends turn t x) : Ends turn s x

namespace Ends

variable {σ ρ : Type} {turn : σ → σ ⊕ ρ}

theorem unique {s : σ} {x y : ρ} (hx : Ends turn s x) (hy : Ends turn s y) : x = y := by
  induction hx with
  | stop h =>
    cases hy with
    | stop h' => exact Sum.inr.inj (h.symm.trans h')
    | go h' _ => exact absurd (h.symm.trans h') Sum.inr_ne_inl
  | go h _ ih =>
    cases hy with
    | stop h' => exact absurd (h'.symm.trans h) Sum.inr_ne_inl
    | go h' hrest => exact ih (Sum.inl.inj (h.symm.trans h') ▸ hrest)

/-- A loop that ends does so with one result. -/
theorem iff_eq {s : σ} {x : ρ} (h : Ends turn s x) (y : ρ) : Ends turn s y ↔ y = x :=
  ⟨fun hy => hy.unique h, fun hy => hy ▸ h⟩

end Ends

/-! ### Queues -/

/-- What is dropped up to an index begins with what is at the index. -/
theorem eq_of_drop_eq_cons {α : Type} {xs rest : List α} {i : Nat} {x : α}
    (h : xs.drop i = x :: rest) : xs[i]? = some x ∧ xs.drop (i + 1) = rest := by
  constructor
  · rw [← List.head?_drop, h, List.head?_cons]
  · rw [← List.tail_drop, h, List.tail_cons]

/-- A queue with a position in it.  What comes before the position has been dealt with. -/
structure Scan where
  queue : List ExitId
  next : Nat

namespace Scan

/-- The exit at the position, unless the end of the queue is reached. -/
def current? (q : Scan) : Option ExitId := q.queue[q.next]?

/-- Go on by one. -/
def step (q : Scan) : Scan := { q with next := q.next + 1 }

/-- Append to the queue. -/
def append (q : Scan) (exits : List ExitId) : Scan := { q with queue := q.queue ++ exits }

/-- What is still to be dealt with. -/
def rest (q : Scan) : List ExitId := q.queue.drop q.next

theorem current_of_nil {q : Scan} (h : q.rest = []) : q.current? = none := by
  rw [rest, List.drop_eq_nil_iff] at h
  exact List.getElem?_eq_none h

theorem current_of_cons {q : Scan} {id : ExitId} {queue : List ExitId} (h : q.rest = id :: queue) :
    q.current? = some id :=
  (eq_of_drop_eq_cons h).1

theorem rest_step {q : Scan} {id : ExitId} {queue : List ExitId} (h : q.rest = id :: queue) :
    q.step.rest = queue :=
  (eq_of_drop_eq_cons h).2

/-- What is appended comes after what is still to be dealt with. -/
theorem rest_append {q : Scan} {id : ExitId} {queue : List ExitId} (h : q.rest = id :: queue)
    (exits : List ExitId) : (q.step.append exits).rest = queue ++ exits := by
  have hlength := congrArg List.length h
  rw [rest, List.length_drop, List.length_cons] at hlength
  rw [← rest_step h]
  exact List.drop_append_of_le_length (show q.next + 1 ≤ q.queue.length by omega)

end Scan

/-- Only some times can be lacked. -/
theorem Reached.isNone_of_lacks {m : Reached} {r : RegionId} {times : TimeOfDay}
    (h : m.lacks r times = true) : times.isNone = false := by
  rcases times with ⟨_ | _, _ | _⟩
  · cases hr : m.times? r <;> simp [lacks, hr, TimeOfDay.contains] at h
  all_goals rfl

namespace Search

variable {g : Multiworld}

/-! ### Spreading -/

section Spread

theorem withReached_withReached (s : Search) (age : Age) (m m' : Reached) :
    (s.withReached age m).withReached age m' = s.withReached age m' := by
  simp only [withReached, Progress.setReached_setReached]

variable {μ : Type}

/-- A turn of spreading times up to a region.  The rule of an exit puts its questions to `ask`,
which may change the search and has a memory of its own. -/
def spreadTurn (g : Multiworld) (ask : Query → μ × Search → Bool × μ × Search) (age : Age)
    (goal : RegionId) (times : TimeOfDay) :
    Scan × μ × Search → (Scan × μ × Search) ⊕ (Bool × μ × Search)
  | (q, m, s) =>
    match q.current? with
    | none => .inr (false, m, s)
    | some id =>
      match (g.exit id).connected with
      | none => .inl (q.step, m, s)
      | some target =>
        if (s.progress.reached age).lacks target times = true then
          let p := (g.exit id).post
          match p.formula.holds ask (p.situation s.inventories age times) (m, s) with
          | (false, m, s) => .inl (q.step, m, s)
          | (true, m, s) =>
            let s := s.withReached age ((s.progress.reached age).grant target times)
            if target = goal then .inr (true, m, s)
            else .inl (q.step.append (g.region target).exits, m, s)
        else .inl (q.step, m, s)

/-- Whether the rule of an exit holds at the given times, when nobody is asked. -/
def letsThrough (s : Search) (age : Age) (times : TimeOfDay) (e : Exit) : Bool :=
  e.post.formula.holdsAt (e.post.situation s.inventories age times)

/-- Nobody is asked on the way: a region lacks times only if there are some, and at given times
a rule asks nothing. -/
theorem holds_of_lacks (ask : Query → μ × Search → Bool × μ × Search) {age : Age}
    {times : TimeOfDay} {reached : Reached} {target : RegionId}
    (h : reached.lacks target times = true) (e : Exit) (m : μ) (s : Search) :
    e.post.formula.holds ask (e.post.situation s.inventories age times) (m, s) =
      (s.letsThrough age times e, m, s) :=
  Formula.holds_of_times (Reached.isNone_of_lacks h) _ _

/-- A spread goes on from what is reached by then. -/
theorem ends_spread_withReached (ask : Query → μ × Search → Bool × μ × Search) (age : Age)
    (goal : RegionId) (times : TimeOfDay) (q : Scan) (m : μ) (s : Search) (reached : Reached) :
    Ends (spreadTurn g ask age goal times) (q, m, s.withReached age reached)
      (let answer := spread g (s.letsThrough age times) goal times q.rest reached
       (answer.1, m, s.withReached age answer.2)) := by
  have hreached : ∀ reached, (s.withReached age reached).progress.reached age = reached :=
    fun _ => Progress.reached_setReached ..
  have hrule : ∀ reached e, (s.withReached age reached).letsThrough age times e =
      s.letsThrough age times e := fun _ _ => rfl
  generalize hrest : q.rest = queue
  fun_induction spread g (s.letsThrough age times) goal times queue reached generalizing q with
  | case1 reached => exact .stop (by rw [spreadTurn, Scan.current_of_nil hrest])
  | case2 reached id queue hc ih =>
    refine .go ?_ (ih q.step (Scan.rest_step hrest))
    simp only [spreadTurn, Scan.current_of_cons hrest, hc]
  | case3 reached id queue hc h =>
    refine .stop ?_
    simp only [spreadTurn, Scan.current_of_cons hrest, hc, hreached, h.1, holds_of_lacks ask h.1,
      hrule, h.2, withReached_withReached, if_true]
  | case4 reached id queue target hc h hne ih =>
    refine .go ?_ (ih _ (Scan.rest_append hrest (g.region target).exits))
    simp only [spreadTurn, Scan.current_of_cons hrest, hc, hreached, h.1, holds_of_lacks ask h.1,
      hrule, h.2, withReached_withReached, if_true, if_neg hne]
  | case5 reached id queue target hc h ih =>
    refine .go ?_ (ih q.step (Scan.rest_step hrest))
    simp only [spreadTurn, Scan.current_of_cons hrest, hc, hreached]
    split
    · next hlacks =>
      have hblocked : s.letsThrough age times (g.exit id) = false := by simpa [hlacks] using h
      simp only [holds_of_lacks ask hlacks, hrule, hblocked]
    · rfl

/-- A spread ends. -/
theorem ends_spread (ask : Query → μ × Search → Bool × μ × Search) (age : Age) (goal : RegionId)
    (times : TimeOfDay) (q : Scan) (m : μ) (s : Search) :
    Ends (spreadTurn g ask age goal times) (q, m, s)
      (let answer := s.ask age (spread g (s.letsThrough age times) goal times q.rest)
       (answer.1, m, answer.2)) := by
  have hends := ends_spread_withReached (g := g) ask age goal times q m s (s.progress.reached age)
  rwa [withReached_reached] at hends

end Spread

/-! ### Expanding -/

/-- A turn of expanding a frontier, with the exits that failed so far.  The rule of an exit puts
its questions to the search, which may spread times to answer them. -/
def expandTurn (g : Multiworld) (age : Age) :
    Scan × List ExitId × Search → (Scan × List ExitId × Search) ⊕ Search
  | (q, failed, s) =>
    match q.current? with
    | none =>
      .inr { s with progress := s.progress.setFrontier age ⟨failed, s.progress.reached age⟩ }
    | some id =>
      match (g.exit id).connected with
      | none => .inl (q.step, failed, s)
      | some target =>
        if (s.progress.reached age).contains target = true then .inl (q.step, failed, s)
        else
          match s.evaluateThrough (consult g) age .none (g.exit id).post with
          | (false, s) => .inl (q.step, failed ++ [id], s)
          | (true, s) =>
            let region := g.region target
            let w := (g.exit id).world
            let m := s.progress.reached age
            let s := s.withReached age (m.discover g w target)
            if (rootTimes g w m).contains region.provides = true then
              .inl (q.step.append region.exits, failed, s)
            else .inl (q.step.append (failed ++ region.exits), [], s)

/-- An expansion ends. -/
theorem ends_expand (age : Age) (q : Scan) (failed : List ExitId) (s : Search) :
    Ends (expandTurn g age) (q, failed, s) (s.expandThrough g age q.rest failed) := by
  generalize hrest : q.rest = queue
  fun_induction expandThrough g age queue failed s generalizing q with
  | case1 failed s => exact .stop (by rw [expandTurn, Scan.current_of_nil hrest])
  | case2 failed s id queue hc ih =>
    refine .go ?_ (ih q.step (Scan.rest_step hrest))
    simp only [expandTurn, Scan.current_of_cons hrest, hc]
  | case3 failed s id queue target hc hm ih =>
    refine .go ?_ (ih q.step (Scan.rest_step hrest))
    simp only [expandTurn, Scan.current_of_cons hrest, hc, hm, if_true]
  | case4 failed s id queue target hc hm s' he ih =>
    refine .go ?_ (ih q.step (Scan.rest_step hrest))
    simp only [expandTurn, Scan.current_of_cons hrest, hc, if_neg hm, he]
  | case5 failed s id queue target hc hm s' he region w m s'' htimes ih =>
    refine .go ?_ (ih _ (Scan.rest_append hrest region.exits))
    simp only [expandTurn, Scan.current_of_cons hrest, hc, if_neg hm, he]
    rw [if_pos htimes]
  | case6 failed s id queue target hc hm s' he region w m s'' htimes ih =>
    have hrest' : (q.step.append (failed ++ region.exits)).rest =
        queue ++ failed ++ region.exits := by
      rw [Scan.rest_append hrest, List.append_assoc]
    refine .go ?_ (ih _ hrest')
    simp only [expandTurn, Scan.current_of_cons hrest, hc, if_neg hm, he]
    rw [if_neg htimes]

/-! ### Cursors -/

/-- A position in the passes over some candidates. -/
structure Cursor where
  candidates : List LocationId
  next : Nat
  /-- Whether the pass has found something. -/
  found : Bool
  done : Bool

namespace Cursor

/-- A cursor that has not been moved. -/
def new (candidates : List LocationId) : Cursor := ⟨candidates, 0, false, false⟩

/-- A cursor that has just passed over the last candidate, after it has found some locations
from where it was.  A pass that finds nothing is the last one. -/
def passed (c : Cursor) (found : List LocationId) : Cursor :=
  { c with next := 0, found := c.found || !found.isEmpty, done := !(c.found || !found.isEmpty) }

theorem passed_nil (c : Cursor) : c.passed [] = { c with next := 0, done := !c.found } := by
  simp [passed]

theorem passed_cons (c : Cursor) (id : LocationId) (found : List LocationId) :
    c.passed (id :: found) =
      ({ c with next := c.next + 1, found := true } : Cursor).passed found := by
  simp [passed]

end Cursor

/-- A cursor that is moved until it yields nothing more, with the locations it has yielded. -/
structure CursorRun where
  cursor : Cursor
  /-- Whether the cursor is within a pass, and not in front of one. -/
  passing : Bool
  yielded : List LocationId
  search : Search

/-- A turn of moving a cursor.  Its holder deals with each location that it yields. -/
def cursorTurn (g : Multiworld) (manner : Manner) :
    CursorRun → CursorRun ⊕ (List LocationId × Search)
  | ⟨c, false, yielded, s⟩ =>
    if c.done = true then .inr (yielded, s)
    else if c.next = 0 then .inl ⟨{ c with found := false }, true, yielded, s.nextSphere g⟩
    else .inl ⟨c, true, yielded, s⟩
  | ⟨c, true, yielded, s⟩ =>
    match c.candidates[c.next]? with
    | none => .inl ⟨{ c with next := 0, done := !c.found }, false, yielded, s⟩
    | some id =>
      let c := { c with next := c.next + 1 }
      match s.tryVisit g id with
      | (false, s) => .inl ⟨c, true, yielded, s⟩
      | (true, s) =>
        .inl ⟨{ c with found := true }, false, yielded ++ [id], s.treat g id manner⟩

/-- A cursor that is not done goes on from where it is in a pass. -/
theorem cursorTurn_resume {manner : Manner} {c : Cursor} (hdone : c.done = false)
    (hnext : c.next ≠ 0) {yielded : List LocationId} {s : Search} :
    cursorTurn g manner ⟨c, false, yielded, s⟩ = .inl ⟨c, true, yielded, s⟩ := by
  rw [cursorTurn, if_neg (by simp [hdone]), if_neg hnext]

/-- The rest of a pass is a sweep over the rest of the candidates. -/
theorem ends_of_sweep {manner : Manner} {c : Cursor} (hdone : c.done = false)
    {yielded found : List LocationId} {s t : Search} {x : List LocationId × Search}
    (hsweep : s.sweep g manner (c.candidates.drop c.next) none = (found, t))
    (hrest : Ends (cursorTurn g manner) ⟨c.passed found, false, yielded ++ found, t⟩ x) :
    Ends (cursorTurn g manner) ⟨c, true, yielded, s⟩ x := by
  generalize hids : c.candidates.drop c.next = ids at hsweep
  induction ids generalizing c yielded found s with
  | nil =>
    obtain ⟨rfl, rfl⟩ := Prod.mk.inj hsweep
    have hnone : c.candidates[c.next]? = none :=
      List.getElem?_eq_none (List.drop_eq_nil_iff.1 hids)
    rw [Cursor.passed_nil, List.append_nil] at hrest
    exact .go (by rw [cursorTurn, hnone]) hrest
  | cons id ids ih =>
    obtain ⟨hsome, hdrop⟩ := eq_of_drop_eq_cons hids
    rw [sweep, if_neg (Option.some_ne_none 0).symm] at hsweep
    split at hsweep
    · next u ht =>
      have hpast := ih (c := { c with next := c.next + 1 }) hdone hrest hdrop hsweep
      refine .go ?_ hpast
      rw [cursorTurn, hsome]
      simp only [ht]
    · next u ht =>
      obtain ⟨rfl, rfl⟩ := Prod.mk.inj hsweep
      rw [Cursor.passed_cons, List.append_cons] at hrest
      have hpast := ih (c := { c with next := c.next + 1, found := true }) hdone hrest hdrop rfl
      -- the holder of the cursor moves it on in the middle of the pass
      have hresume := Ends.go (cursorTurn_resume
        (c := { c with next := c.next + 1, found := true }) hdone (Nat.succ_ne_zero _)) hpast
      refine .go ?_ hresume
      rw [cursorTurn, hsome]
      simp only [ht]

/-- A cursor yields nothing more in the end. -/
theorem ends_explore (manner : Manner) (ids yielded : List LocationId) (s : Search)
    (found : Bool) :
    Ends (cursorTurn g manner) ⟨⟨ids, 0, found, false⟩, false, yielded, s⟩
      (yielded ++ (s.explore g manner ids none).1, (s.explore g manner ids none).2) := by
  generalize hlimit : (none : Option Nat) = limit
  fun_induction explore g manner ids limit s generalizing yielded found with
  | case1 s => cases hlimit
  | case2 limit s hne t hs =>
    subst hlimit
    rw [List.append_nil]
    refine .go (by rfl) (ends_of_sweep (c := .new ids) rfl hs ?_)
    rw [List.append_nil]
    exact .stop (by rfl)
  | case3 limit s hne id rest t hs more u hmore ih =>
    subst hlimit
    have hends := ih (yielded ++ id :: rest) true rfl
    rw [hmore] at hends
    refine .go (by rfl) (ends_of_sweep (c := .new ids) rfl hs ?_)
    rwa [List.append_assoc, List.cons_append] at hends

/-! ### Spheres -/

/-- A turn of splitting off a sphere from the candidates that remain. -/
def sphereTurn (g : Multiworld) :
    List LocationId × List Sphere × Search →
      (List LocationId × List Sphere × Search) ⊕ (List Sphere × Search)
  | (remaining, spheres, s) =>
    match s.explore g .look remaining none with
    | ([], s) => .inr (spheres, s)
    | (id :: found, s) =>
      let s := s.collectAllAt g (id :: found)
      let sphere : Sphere :=
        ⟨id :: found, s.progress.child.reached.length, s.progress.adult.reached.length⟩
      .inl (outside (id :: found) remaining, spheres ++ [sphere], s)

/-- There is a last sphere. -/
theorem ends_spheres (ids : List LocationId) (spheres : List Sphere) (s : Search) :
    Ends (sphereTurn g) (ids, spheres, s)
      (spheres ++ (s.spheresOf g ids).1, (s.spheresOf g ids).2) := by
  fun_induction spheresOf g ids s generalizing spheres with
  | case1 ids s t hs => exact .stop (by rw [sphereTurn, hs, List.append_nil])
  | case2 ids s id found t hs t' sphere more u hmore ih =>
    rw [hmore] at ih
    refine .go (by rw [sphereTurn, hs]) ?_
    simpa using ih (spheres ++ [sphere])

/-! ### All loops -/

/-- **The loops of a search end**, in every search: each of them, from its start, ends with one
result.  A spread leaves the memory of whoever answers the questions of rules as it is, so that
none is asked and no other spread begins within it. -/
theorem loops_end (g : Multiworld) (s : Search) :
    (∀ (μ : Type) (ask : Query → μ × Search → Bool × μ × Search) (m m' : μ) (age : Age)
        (goal : RegionId) (times : TimeOfDay) (queue : List ExitId) (b : Bool) (t : Search),
      Ends (spreadTurn g ask age goal times) (⟨queue, 0⟩, m, s) (b, m', t) ↔
        m' = m ∧ (b, t) = s.ask age (spread g (s.letsThrough age times) goal times queue)) ∧
    (∀ (age : Age) (t : Search),
      Ends (expandTurn g age) (⟨(s.progress.frontier age).queue, 0⟩, [], s) t ↔
        t = s.expand g age) ∧
    (∀ (manner : Manner) (ids yielded : List LocationId) (t : Search),
      Ends (cursorTurn g manner) ⟨.new ids, false, [], s⟩ (yielded, t) ↔
        (yielded, t) = s.explore g manner ids none) ∧
    ∀ (ids : List LocationId) (spheres : List Sphere) (t : Search),
      Ends (sphereTurn g) (ids, [], s) (spheres, t) ↔ (spheres, t) = s.spheresOf g ids := by
  refine ⟨fun μ ask m m' age goal times queue b t => ?_, fun age t => ?_,
    fun manner ids yielded t => ?_, fun ids spheres t => ?_⟩
  · rw [(ends_spread ask age goal times ⟨queue, 0⟩ m s).iff_eq]
    simp only [Prod.ext_iff, Scan.rest, List.drop_zero]
    exact and_left_comm
  · have hends := ends_expand (g := g) age ⟨(s.progress.frontier age).queue, 0⟩ [] s
    rw [Scan.rest, List.drop_zero, expandThrough_queue] at hends
    exact hends.iff_eq t
  · exact (ends_explore manner ids [] s false).iff_eq _
  · exact (ends_spheres ids [] s).iff_eq _

end Search

end Progression
