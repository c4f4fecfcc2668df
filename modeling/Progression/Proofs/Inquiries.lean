import Mathlib.Logic.Relation
import Progression.Proofs.Asking
import Progression.Proofs.Looping
import Progression.Proofs.Questions

/-!
# Questions within questions

A rule that is evaluated at no given time asks whether the region of its spot can be reached at
some time of day.  To find out, a search may spread that time, and on the way it evaluates the
rules of exits, which have the search to ask in their turn.  So rules ask questions, questions
spread times, and spreads evaluate rules, and nothing in the shape of these calls says that they
are not nested ever deeper.

They are not, because of the one thing that a spread hands to the rules on its way: the time.
At a given time a rule asks nothing, wherever its tests of the time of day stand and whatever
their escapes are.  The calls therefore lose height, from a rule that leaves the time open, over
its question and the spread that answers it, down to rules at a given time, which call nothing.

## Main definitions

* `Formula.asked` — the questions of an evaluation, one after the other.
* `Formula.withoutEscapes` — a formula without the escapes of its tests.
* `Search.Responds` — what a question comes to if the rules on the way ask anybody.
* `Search.Call`, `Search.Calls` — rules, questions and spreads, and which of them call which.

## Main results

* `Formula.of_mem_asked` — what a rule asks, and when it does.
* `Formula.holds_of_withoutEscapes` — at a given time, escapes and the region do not matter.
* `Search.responds_iff` — the answer to a question does not depend on who is asked on the way.
* `Search.Calls.height_lt` — every call loses height.
* `Search.questions_one_deep` — **rules ask only where the time is left open, and a spread
  starts no other one.**
-/

namespace Progression

open Rule

namespace Rule.Formula

/-! ### The questions of an evaluation -/

section Asked

variable {σ : Type} (ask : Query → σ → Bool × σ) (cx : Situation)

/-- An oracle that answers as `ask` does and notes down every question, with its memory at the
moment it is asked. -/
def noting (q : Query) (x : List (Query × σ) × σ) : Bool × List (Query × σ) × σ :=
  ((ask q x.2).1, x.1 ++ [(q, x.2)], (ask q x.2).2)

/-- The questions that an evaluation puts to its oracle, one after the other, each with the
memory of the oracle at the moment it is asked. -/
def asked (f : Formula) (s : σ) : List (Query × σ) := (f.holds (noting ask) cx ([], s)).2.1

theorem askAt_noting (times : TimeOfDay) (x : List (Query × σ) × σ) :
    (askAt (noting ask) cx times x).1 = (askAt ask cx times x.2).1 ∧
      (askAt (noting ask) cx times x).2.2 = (askAt ask cx times x.2).2 := by
  unfold askAt
  cases cx.region <;> exact ⟨rfl, rfl⟩

/-- Noting down the questions changes nothing else. -/
theorem holds_noting (f : Formula) (x : List (Query × σ) × σ) :
    (f.holds (noting ask) cx x).1 = (f.holds ask cx x.2).1 ∧
      (f.holds (noting ask) cx x).2.2 = (f.holds ask cx x.2).2 := by
  refine holds_related (R := fun x s => x.2 = s) (fun _ times x s hxs => ?_) f x x.2 rfl
  subst hxs
  exact askAt_noting ask cx times x

/-- What holds of a list to which only further questions of the tests are added, holds of the
questions of an evaluation. -/
theorem asked_induction {P : List (Query × σ) × σ → Prop} (f : Formula) (s : σ) (hs : P ([], s))
    (hask : cx.times.isNone = true → ∀ region, cx.region = some region → ∀ times ∈ f.tests, ∀ x,
      P x → P (noting ask ⟨region, cx.age, times⟩ x).2) :
    P (f.asked ask cx s, (f.holds ask cx s).2) := by
  have hnoted : P (f.holds (noting ask) cx ([], s)).2 := by
    refine holds_keeps_of_tests f _ hs fun hnone times ht x hx => ?_
    unfold askAt
    split
    · next region hregion => exact hask hnone region hregion times ht x hx
    · exact hx
  rwa [← (holds_noting ask cx f ([], s)).2]

variable {ask cx}

/-- **What a formula asks**: nothing unless the time is left open, and then for the region and
the age of its situation, at the times of one of its tests. -/
theorem of_mem_asked {f : Formula} {s : σ} {c : Query × σ} (hc : c ∈ f.asked ask cx s) :
    cx.times.isNone = true ∧ cx.region = some c.1.region ∧ c.1.age = cx.age ∧
      c.1.times ∈ f.tests := by
  refine asked_induction ask cx
    (P := fun x => ∀ c ∈ x.1, cx.times.isNone = true ∧ cx.region = some c.1.region ∧
      c.1.age = cx.age ∧ c.1.times ∈ f.tests)
    f s (fun _ h => nomatch h) (fun hnone region hregion times ht x hx c hc => ?_) c hc
  rcases List.mem_append.1 hc with hc | hc
  · exact hx c hc
  · obtain rfl := List.mem_singleton.1 hc
    exact ⟨hnone, hregion, rfl, ht⟩

/-- The memory of an oracle is what the questions have made of it. -/
theorem holds_snd_eq_foldl (f : Formula) (s : σ) :
    (f.holds ask cx s).2 = (f.asked ask cx s).foldl (fun t c => (ask c.1 t).2) s := by
  refine asked_induction ask cx
    (P := fun x => x.2 = x.1.foldl (fun t c => (ask c.1 t).2) s) f s rfl ?_
  intro _ region _ times _ x hx
  rw [noting, List.foldl_append, ← hx]
  rfl

theorem asked_eq_nil_of_times (h : cx.times.isNone = false) (f : Formula) (s : σ) :
    f.asked ask cx s = [] := by
  refine List.eq_nil_iff_forall_not_mem.2 fun c hc => ?_
  rw [(of_mem_asked hc).1] at h
  cases h

theorem asked_eq_nil_of_region (h : cx.region = none) (f : Formula) (s : σ) :
    f.asked ask cx s = [] := by
  refine List.eq_nil_iff_forall_not_mem.2 fun c hc => ?_
  cases (of_mem_asked hc).2.1.symm.trans h

end Asked

/-! ### Escapes -/

mutual

/-- A formula whose tests of the time of day have no escapes. -/
def withoutEscapes : Formula → Formula
  | .and fs => .and (withoutEscapesOf fs)
  | .or fs => .or (withoutEscapesOf fs)
  | .not f => .not (withoutEscapes f)
  | .time times _ => .time times none
  | f => f

/-- Some formulas whose tests of the time of day have no escapes. -/
def withoutEscapesOf : List Formula → List Formula
  | [] => []
  | f :: fs => withoutEscapes f :: withoutEscapesOf fs

end

theorem withoutEscapesOf_eq_map (fs : List Formula) :
    withoutEscapesOf fs = fs.map withoutEscapes := by
  induction fs with
  | nil => rfl
  | cons f fs ih => rw [withoutEscapesOf, ih, List.map_cons]

/-- At a given time the escapes of a formula and the region of its spot make no difference. -/
theorem holdsAt_withoutEscapes {cx : Situation} (h : cx.times.isNone = false)
    (region : Option RegionId) (f : Formula) :
    f.withoutEscapes.holdsAt { cx with region } = f.holdsAt cx := by
  -- the oracle that always says no gives fixed answers
  change holdsGiven (fun _ => false) _ _ = holdsGiven (fun _ => false) _ _
  induction f using Formula.induction with
  | const | item | count | any | all | compare | bottle | atLeast | allGoals | won => rfl
  | and fs ih =>
    rw [withoutEscapes, withoutEscapesOf_eq_map, holdsGiven_and, holdsGiven_and, List.all_map,
      Bool.eq_iff_iff, List.all_eq_true, List.all_eq_true]
    exact forall₂_congr fun f hf => by rw [Function.comp_apply, ih f hf]
  | or fs ih =>
    rw [withoutEscapes, withoutEscapesOf_eq_map, holdsGiven_or, holdsGiven_or, List.any_map,
      Bool.eq_iff_iff, List.any_eq_true, List.any_eq_true]
    exact exists_congr fun f => and_congr_right fun hf => by rw [Function.comp_apply, ih f hf]
  | not f ih => rw [withoutEscapes, holdsGiven_not, holdsGiven_not, ih]
  | time times e _ =>
    cases e with
    | none => simp [withoutEscapes, h]
    | some escape => simp [withoutEscapes, h]

/-- **At a given time the truth of a formula does not depend on who is asked, on the region of
its spot or on escapes.** -/
theorem holds_of_withoutEscapes {σ τ : Type} {ask : Query → σ → Bool × σ}
    {ask' : Query → τ → Bool × τ} {cx : Situation} (h : cx.times.isNone = false)
    {f f' : Formula} (hf : f'.withoutEscapes = f.withoutEscapes) (region : Option RegionId)
    (s : σ) (t : τ) :
    (f'.holds ask' { cx with region } t).1 = (f.holds ask cx s).1 := by
  have hgiven : ({ cx with region } : Situation).times.isNone = false := h
  rw [holds_of_times hgiven, holds_of_times h, ← holdsAt_withoutEscapes hgiven region f',
    ← holdsAt_withoutEscapes h region f, hf]

end Rule.Formula

namespace Search

/-! ### Answers -/

section Answers

variable {g : Multiworld} {age : Age} {region : RegionId} {times : TimeOfDay}

/-- Whether a region is reached as an age, but not known to be reachable at any of some times. -/
def Unsettled (s : Search) (age : Age) (region : RegionId) (times : TimeOfDay) : Prop :=
  ∃ known, (s.progress.reached age).times? region = some known ∧
    (times.isNone || known.meets times) = false

theorem reachableAt_of_unreached {s : Search}
    (h : (s.progress.reached age).times? region = none) :
    s.reachableAt g age region times = (false, s) := by
  rw [Search.reachableAt, ask_eq]
  simp [Progression.reachableAt, h, withReached_reached]

theorem reachableAt_of_known {s : Search} {known : TimeOfDay}
    (h : (s.progress.reached age).times? region = some known)
    (hknown : (times.isNone || known.meets times) = true) :
    s.reachableAt g age region times = (true, s) := by
  rw [Search.reachableAt, ask_eq]
  simp only [Progression.reachableAt, h, hknown, if_true, withReached_reached]

theorem reachableAt_of_unsettled {s : Search} (h : s.Unsettled age region times) :
    s.reachableAt g age region times =
      s.ask age (spread g (s.letsThrough age times) region times
        (sourceExits g (g.region region).world times (s.progress.reached age))) := by
  obtain ⟨known, h, hunknown⟩ := h
  rw [Search.reachableAt, ask_eq, ask_eq]
  simp only [Progression.reachableAt, h, hunknown, Bool.false_eq_true, if_false]
  rfl

variable {μ : Type} {ask : Query → μ × Search → Bool × μ × Search}

/-- Where the spreading of times up to a region begins. -/
def spreadStart (g : Multiworld) (age : Age) (goal : RegionId) (times : TimeOfDay)
    (x : μ × Search) : Scan × μ × Search :=
  (⟨sourceExits g (g.region goal).world times (x.2.progress.reached age), 0⟩, x)

/-- What comes of the question whether a region is reachable as an age at one of the times, if
the rules on the way put their questions to `ask`. -/
inductive RespondsAs (g : Multiworld) (ask : Query → μ × Search → Bool × μ × Search) (age : Age)
    (region : RegionId) (times : TimeOfDay) : μ × Search → Bool × μ × Search → Prop where
  | unreached {x : μ × Search} (h : (x.2.progress.reached age).times? region = none) :
    RespondsAs g ask age region times x (false, x)
  | known {x : μ × Search} {known : TimeOfDay}
    (h : (x.2.progress.reached age).times? region = some known)
    (hknown : (times.isNone || known.meets times) = true) :
    RespondsAs g ask age region times x (true, x)
  | spread {x : μ × Search} {y : Bool × μ × Search} (h : x.2.Unsettled age region times)
    (hends : Ends (spreadTurn g ask age region times) (spreadStart g age region times x) y) :
    RespondsAs g ask age region times x y

/-- What comes of a question of a rule, if the rules on the way put their questions to `ask`.
What is asked as nobody is asked as the adult, and as the child unless the adult can. -/
inductive Responds (g : Multiworld) (ask : Query → μ × Search → Bool × μ × Search) :
    Query → μ × Search → Bool × μ × Search → Prop where
  | as {age : Age} {region : RegionId} {times : TimeOfDay} {x : μ × Search}
    {y : Bool × μ × Search} (h : RespondsAs g ask age region times x y) :
    Responds g ask ⟨region, some age, times⟩ x y
  | adult {region : RegionId} {times : TimeOfDay} {x y : μ × Search}
    (h : RespondsAs g ask .adult region times x (true, y)) :
    Responds g ask ⟨region, none, times⟩ x (true, y)
  | child {region : RegionId} {times : TimeOfDay} {x y : μ × Search} {z : Bool × μ × Search}
    (h : RespondsAs g ask .adult region times x (false, y))
    (h' : RespondsAs g ask .child region times y z) :
    Responds g ask ⟨region, none, times⟩ x z

/-- A question to a search, next to which there is a memory that nobody touches. -/
def beside (question : Search → Bool × Search) (x : μ × Search) : Bool × μ × Search :=
  ((question x.2).1, x.1, (question x.2).2)

theorem ends_spreadStart (ask : Query → μ × Search → Bool × μ × Search) {x : μ × Search}
    (h : x.2.Unsettled age region times) :
    Ends (spreadTurn g ask age region times) (spreadStart g age region times x)
      (beside (Search.reachableAt g age region times) x) := by
  rw [beside, reachableAt_of_unsettled h]
  exact ends_spread ask age region times _ x.1 x.2

/-- A question as an age is answered as by the search alone. -/
theorem respondsAs_iff {x : μ × Search} {y : Bool × μ × Search} :
    RespondsAs g ask age region times x y ↔
      y = beside (Search.reachableAt g age region times) x := by
  constructor
  · rintro (h | ⟨h, hknown⟩ | ⟨h, hends⟩)
    · rw [beside, reachableAt_of_unreached h]
    · rw [beside, reachableAt_of_known h hknown]
    · exact hends.unique (ends_spreadStart ask h)
  · rintro rfl
    cases h : (x.2.progress.reached age).times? region with
    | none =>
      rw [beside, reachableAt_of_unreached h]
      exact .unreached h
    | some known =>
      cases hknown : times.isNone || known.meets times with
      | false =>
        have hunsettled : x.2.Unsettled age region times := ⟨known, h, hknown⟩
        exact .spread hunsettled (ends_spreadStart ask hunsettled)
      | true =>
        rw [beside, reachableAt_of_known h hknown]
        exact .known h hknown

theorem beside_eitherHolds (p q : Search → Bool × Search) (x : μ × Search) :
    beside (eitherHolds p q) x = eitherHolds (beside p) (beside q) x := by
  unfold beside eitherHolds
  dsimp only
  split <;> rfl

/-- **The answer to a question does not depend on who is asked on the way**, and nobody is. -/
theorem responds_iff {q : Query} {x : μ × Search} {y : Bool × μ × Search} :
    Responds g ask q x y ↔ y = beside (consult g q) x := by
  obtain ⟨region, _ | age, times⟩ := q
  · have hanswer : beside (consult g ⟨region, none, times⟩) x =
        eitherHolds (beside (Search.reachableAt g .adult region times))
          (beside (Search.reachableAt g .child region times)) x :=
      beside_eitherHolds ..
    rw [hanswer, eitherHolds]
    constructor
    · rintro (_ | h | ⟨h, h'⟩)
      · rw [← respondsAs_iff.1 h]
        rfl
      · rw [← respondsAs_iff.1 h]
        exact respondsAs_iff.1 h'
    · rintro rfl
      cases h : beside (Search.reachableAt g .adult region times) x with
      | mk b y =>
        have hadult : RespondsAs g ask .adult region times x (b, y) := respondsAs_iff.2 h.symm
        cases b with
        | true => exact .adult hadult
        | false => exact .child hadult (respondsAs_iff.2 rfl)
  · rw [consult, canReach_ofAge, ← respondsAs_iff]
    constructor
    · rintro ⟨h⟩
      exact h
    · exact .as

end Answers

/-! ### Calls -/

/-- What calls and is called while rules are evaluated, with the memories at that moment: those
of whoever is asked, and of the search. -/
inductive Call (μ : Type) where
  /-- A rule is evaluated. -/
  | rule (f : Formula) (cx : Situation) (x : μ × Search)
  /-- A rule asks a question. -/
  | question (q : Query) (x : μ × Search)
  /-- A question is asked as an age. -/
  | reach (age : Age) (region : RegionId) (times : TimeOfDay) (x : μ × Search)
  /-- Times are spread up to a region. -/
  | spread (age : Age) (goal : RegionId) (times : TimeOfDay) (x : μ × Search)

/-- How deep a call can be nested further: a rule that leaves the time open is the highest, and
one that is evaluated at a given time the lowest. -/
def Call.height {μ : Type} : Call μ → Nat
  | .rule _ cx _ => if cx.times.isNone then 4 else 0
  | .question .. => 3
  | .reach .. => 2
  | .spread .. => 1

section Calls

variable {g : Multiworld} {μ : Type} {ask : Query → μ × Search → Bool × μ × Search} {a b : Call μ}

/-- What calls what, if the questions of all rules are put to `ask`. -/
inductive Calls (g : Multiworld) (ask : Query → μ × Search → Bool × μ × Search) :
    Call μ → Call μ → Prop where
  /-- A rule calls the questions that it asks. -/
  | asks {f : Formula} {cx : Situation} {x y : μ × Search} {q : Query}
    (h : (q, y) ∈ f.asked ask cx x) : Calls g ask (.rule f cx x) (.question q y)
  /-- A question is asked as its age, and as nobody in the order of the answers. -/
  | as {age : Age} {region : RegionId} {times : TimeOfDay} {x : μ × Search} :
    Calls g ask (.question ⟨region, some age, times⟩ x) (.reach age region times x)
  | adult {region : RegionId} {times : TimeOfDay} {x : μ × Search} :
    Calls g ask (.question ⟨region, none, times⟩ x) (.reach .adult region times x)
  | child {region : RegionId} {times : TimeOfDay} {x y : μ × Search}
    (h : RespondsAs g ask .adult region times x (false, y)) :
    Calls g ask (.question ⟨region, none, times⟩ x) (.reach .child region times y)
  /-- Times are spread if it is not settled already whether they arrive. -/
  | spreads {age : Age} {region : RegionId} {times : TimeOfDay} {x : μ × Search}
    (h : x.2.Unsettled age region times) :
    Calls g ask (.reach age region times x) (.spread age region times x)
  /-- A spread calls the rule of an exit that it comes to after some turns, if the exit leads
  to a reached region that lacks some of the times. -/
  | tries {age : Age} {goal target : RegionId} {times : TimeOfDay} {x y : μ × Search} {q : Scan}
    {id : ExitId}
    (hturns : Relation.ReflTransGen (fun c d => spreadTurn g ask age goal times c = .inl d)
      (spreadStart g age goal times x) (q, y))
    (hid : q.current? = some id) (hc : (g.exit id).connected = some target)
    (hlacks : (y.2.progress.reached age).lacks target times = true) :
    Calls g ask (.spread age goal times x)
      (.rule (g.exit id).post.formula ((g.exit id).post.situation y.2.inventories age times) y)

/-- **Every call loses height**: a rule that asks leaves the time open, and a spread evaluates
rules at the times that it spreads. -/
theorem Calls.height_lt (h : Calls g ask a b) : b.height < a.height := by
  cases h with
  | asks h => simp [Call.height, (Formula.of_mem_asked h).1]
  | as | adult | child _ | spreads _ => simp [Call.height]
  | tries _ _ _ hlacks =>
    simp [Call.height, Post.situation, Reached.isNone_of_lacks hlacks]

/-- So does everything that is called in the course of a call. -/
theorem height_lt_of_transGen (h : Relation.TransGen (Calls g ask) a b) : b.height < a.height := by
  induction h with
  | single h => exact h.height_lt
  | tail _ h ih => exact Nat.lt_trans h.height_lt ih

/-- Calls are not nested without end. -/
theorem wellFounded_calls (g : Multiworld) (ask : Query → μ × Search → Bool × μ × Search) :
    WellFounded fun b a => Calls g ask a b :=
  Subrelation.wf (fun h => h.height_lt) (measure Call.height).wf

/-- In the course of a spread only rules are called, at given times. -/
theorem rule_of_transGen_spread {age : Age} {goal : RegionId} {times : TimeOfDay}
    {x : μ × Search} {c : Call μ}
    (h : Relation.TransGen (Calls g ask) (.spread age goal times x) c) :
    ∃ f cx y, c = .rule f cx y ∧ cx.times.isNone = false := by
  have hlow : c.height = 0 := Nat.lt_one_iff.1 (height_lt_of_transGen h)
  cases c with
  | rule f cx y => exact ⟨f, cx, y, rfl, by simpa [Call.height] using hlow⟩
  | question | reach | spread => exact absurd hlow (Nat.succ_ne_zero _)

end Calls

/-- **Rules ask only where the time is left open, and a spread starts no other one.**  At a given
time a rule asks nothing, and neither the one who would be asked, nor the region of its spot, nor
escapes make a difference.  If the time is left open, it asks for the region of its spot, as its
age, at the times of its tests, and without a region nothing.  Therefore the answer to a question
is the same whoever is asked by the rules on the way, and in the course of a spread nothing but
rules is called. -/
theorem questions_one_deep (g : Multiworld) :
    (∀ (f : Formula) (cx : Situation) (σ : Type) (ask : Query → σ → Bool × σ) (s : σ),
      (f.holds ask cx s).2 = (f.asked ask cx s).foldl (fun t c => (ask c.1 t).2) s ∧
      (cx.times.isNone = false →
        f.asked ask cx s = [] ∧
        ∀ (f' : Formula) (region : Option RegionId) (τ : Type) (ask' : Query → τ → Bool × τ)
          (t : τ), f'.withoutEscapes = f.withoutEscapes →
            (f'.holds ask' { cx with region } t).1 = (f.holds ask cx s).1) ∧
      (cx.times.isNone = true →
        (∀ c ∈ f.asked ask cx s,
          cx.region = some c.1.region ∧ c.1.age = cx.age ∧ c.1.times ∈ f.tests) ∧
        (cx.region = none → f.asked ask cx s = []))) ∧
    ∀ (μ : Type) (ask : Query → μ × Search → Bool × μ × Search),
      (∀ q x y, Responds g ask q x y ↔ y = beside (consult g q) x) ∧
      (WellFounded fun b a => Calls g ask a b) ∧
      ∀ age goal times x c, Relation.TransGen (Calls g ask) (.spread age goal times x) c →
        ∃ f cx y, c = .rule f cx y ∧ cx.times.isNone = false := by
  refine ⟨fun f cx σ ask s => ⟨f.holds_snd_eq_foldl s, fun h => ⟨?_, ?_⟩, fun _ => ⟨?_, ?_⟩⟩,
    fun μ ask => ⟨fun q x y => responds_iff, wellFounded_calls g ask, ?_⟩⟩
  · exact Formula.asked_eq_nil_of_times h f s
  · exact fun f' region τ ask' t hf => Formula.holds_of_withoutEscapes h hf region s t
  · exact fun c hc => (Formula.of_mem_asked hc).2
  · exact fun h => Formula.asked_eq_nil_of_region h f s
  · exact fun age goal times x c hc => rule_of_transGen_spread hc

/-- By day or by night, of which the night is asked for first. -/
def nightOrDay : Formula := .or [.item ⟨0⟩, .time .atDay (some (.time .atNight none))]

/-- A search that has reached the cave and knows that it is day where it began. -/
def caveReached : Search := ⟨#[], ⟨default, ⟨[], [(⟨0⟩, .atDay), (⟨2⟩, .none)]⟩, []⟩⟩

/-- In the cave a rule asks for the night and then for the day.  By day it asks nothing, and its
escape makes no difference.  When the day is spread to the cave, the exit that leads there is
tried by day. -/
theorem cave_questions_one_deep :
    let ask : Query → Unit × Search → Bool × Unit × Search :=
      fun q => beside (consult fieldAndCave q)
    let cx : Situation := ⟨default, some ⟨2⟩, some .adult, .none⟩
    let x := ((), caveReached)
    ((nightOrDay.asked ask cx x).map Prod.fst =
        [⟨⟨2⟩, some .adult, .atNight⟩, ⟨⟨2⟩, some .adult, .atDay⟩] ∧
      ∀ c ∈ nightOrDay.asked ask cx x,
        cx.region = some c.1.region ∧ c.1.age = cx.age ∧ c.1.times ∈ nightOrDay.tests) ∧
    (nightOrDay.asked ask { cx with times := .atDay } x = [] ∧
      ((Formula.or [.item ⟨0⟩, .time .atDay none]).holds (fun _ _ => (false, ()))
          { cx with times := .atDay, region := none } ()).1 =
        (nightOrDay.holds ask { cx with times := .atDay } x).1) ∧
    ∃ c, Calls fieldAndCave ask (.spread .adult ⟨2⟩ .atDay x) c ∧
      ∃ f cx y, c = .rule f cx y ∧ cx.times.isNone = false := by
  have hasked : (nightOrDay.asked (fun q => beside (consult fieldAndCave q))
      ⟨default, some ⟨2⟩, some .adult, .none⟩ ((), caveReached)).map Prod.fst =
        [⟨⟨2⟩, some .adult, .atNight⟩, ⟨⟨2⟩, some .adult, .atDay⟩] := by
    cbv
  have hstart : sourceExits fieldAndCave (fieldAndCave.region ⟨2⟩).world .atDay
      (caveReached.progress.reached .adult) = [⟨0⟩, ⟨1⟩] := by
    decide +kernel
  have hfield : (fieldAndCave.exit ⟨0⟩).connected = some ⟨1⟩ := by
    decide +kernel
  have hcave : (fieldAndCave.exit ⟨1⟩).connected = some ⟨2⟩ := by
    decide +kernel
  -- the field is not reached, so that its exit is passed over
  have hturn : spreadTurn fieldAndCave (fun q => beside (consult fieldAndCave q)) .adult ⟨2⟩
      .atDay (spreadStart fieldAndCave .adult ⟨2⟩ .atDay ((), caveReached)) =
        .inl (⟨[⟨0⟩, ⟨1⟩], 1⟩, ((), caveReached)) := by
    simp only [spreadStart, hstart, spreadTurn, Scan.current?, List.getElem?_cons_zero, hfield]
    rfl
  obtain ⟨hrules, hcalls⟩ := questions_one_deep fieldAndCave
  intro ask cx x
  have htries := Calls.tries (.single hturn) rfl hcave rfl
  have hgiven := (hrules nightOrDay { cx with times := .atDay } _ ask x).2.1 rfl
  exact ⟨⟨hasked, ((hrules nightOrDay cx _ ask x).2.2 rfl).1⟩,
    ⟨hgiven.1, hgiven.2 _ none _ _ () rfl⟩,
    _, htries, (hcalls Unit ask).2.2 _ _ _ _ _ (.single htries)⟩

end Search

end Progression
