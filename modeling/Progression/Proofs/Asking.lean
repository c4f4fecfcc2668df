import Progression.Rule.Fold
import Progression.Rule.Holds

/-!
# What formulas ask about the time of day

A formula asks its oracle only through its tests of the time of day.  When the
answers of the oracle are fixed beforehand, the truth of the formula is a plain
Boolean function of them, whatever the oracle remembers; and if no test stands
under a negation, further answers of yes make no formula false.

## Main definitions

* `Formula.holdsGiven` — the truth of a formula under fixed answers.
* `Formula.eachTime` — a condition on every test of the time of day in a formula.
* `Formula.timeless`, `Formula.positive` — no such test at all, or none under a negation.

## Main results

* `Formula.holds_eq_holdsGiven` — **a memory that does not show in the answers
  does not show in the truth.**
* `Formula.holdsGiven_mono` — positive formulas are monotone in the answers.
-/

namespace Progression.Rule.Formula

/-! ### Truth under fixed answers -/

section Given

variable (answers : Query → Bool) (cx : Situation)

/-- Whether a formula holds if the questions about the time of day have the given
answers. -/
def holdsGiven (f : Formula) : Bool := (f.holds (fun q s => (answers q, s)) cx ()).1

/-- The answer to a test of the time of day that the situation leaves open. -/
def givenAt (times : TimeOfDay) : Bool :=
  cx.region.any fun region => answers ⟨region, cx.age, times⟩

theorem askAt_given (times : TimeOfDay) :
    (askAt (fun q s => (answers q, s)) cx times ()).1 = givenAt answers cx times := by
  unfold askAt givenAt
  cases cx.region <;> rfl

@[simp] theorem holdsGiven_const (b : Bool) : (const b).holdsGiven answers cx = b := rfl

@[simp] theorem holdsGiven_item (id : ItemId) :
    (item id).holdsGiven answers cx = cx.inventory.has id 1 := rfl

@[simp] theorem holdsGiven_count (id : ItemId) (n : Count) :
    (count id n).holdsGiven answers cx = cx.inventory.has id n := rfl

@[simp] theorem holdsGiven_any (ids : List ItemId) :
    (any ids).holdsGiven answers cx = cx.inventory.hasAny ids := rfl

@[simp] theorem holdsGiven_all (ids : List ItemId) :
    (all ids).holdsGiven answers cx = cx.inventory.hasAll ids := rfl

@[simp] theorem holdsGiven_not (f : Formula) :
    (not f).holdsGiven answers cx = !f.holdsGiven answers cx := rfl

@[simp] theorem holdsGiven_compare (op : Comparator) (l r : Operand) :
    (compare op l r).holdsGiven answers cx = (op.holds? (l.value cx) (r.value cx)).getD false :=
  rfl

@[simp] theorem holdsGiven_bottle : bottle.holdsGiven answers cx = cx.inventory.hasBottle := rfl

@[simp] theorem holdsGiven_atLeast (tally : Tally) (n : Count) :
    (atLeast tally n).holdsGiven answers cx = (tally.value cx.inventory).any (n ≤ ·) := rfl

@[simp] theorem holdsGiven_allGoals :
    allGoals.holdsGiven answers cx = cx.inventory.meetsAll := rfl

@[simp] theorem holdsGiven_won : won.holdsGiven answers cx = cx.inventory.won := rfl

@[simp] theorem holdsGiven_and (fs : List Formula) :
    (and fs).holdsGiven answers cx = fs.all (holdsGiven answers cx) := by
  change (holdsAll _ cx fs ()).1 = _
  -- the memory is trivial, so stopping early does not show
  induction fs with
  | nil => rfl
  | cons f fs ih =>
    rw [holdsAll_cons, List.all_cons, ← ih]
    change (if f.holdsGiven answers cx then _ else _ : Bool × Unit).1 = _
    cases f.holdsGiven answers cx <;> rfl

@[simp] theorem holdsGiven_or (fs : List Formula) :
    (or fs).holdsGiven answers cx = fs.any (holdsGiven answers cx) := by
  change (holdsAny _ cx fs ()).1 = _
  induction fs with
  | nil => rfl
  | cons f fs ih =>
    rw [holdsAny_cons, List.any_cons, ← ih]
    change (if f.holdsGiven answers cx then _ else _ : Bool × Unit).1 = _
    cases f.holdsGiven answers cx <;> rfl

@[simp] theorem holdsGiven_time_none (times : TimeOfDay) :
    (time times none).holdsGiven answers cx =
      if cx.times.isNone then givenAt answers cx times else cx.times.meets times := by
  rw [holdsGiven, holds_time_none]
  split
  · exact askAt_given answers cx times
  · rfl

@[simp] theorem holdsGiven_time_some (times : TimeOfDay) (escape : Formula) :
    (time times (some escape)).holdsGiven answers cx =
      if cx.times.isNone then escape.holdsGiven answers cx || givenAt answers cx times
      else cx.times.meets times := by
  rw [holdsGiven, holds_time_some]
  split
  · change (if escape.holdsGiven answers cx then _ else _ : Bool × Unit).1 = _
    cases escape.holdsGiven answers cx
    · exact askAt_given answers cx times
    · rfl
  · rfl

end Given

/-! ### The tests of the time of day in a formula -/

mutual

/-- Whether every test of the time of day in a formula is for times with `p`. -/
def eachTime (p : TimeOfDay → Bool) : Formula → Bool
  | .and fs | .or fs => eachTimeList p fs
  | .not f => eachTime p f
  | .time times none => p times
  | .time times (some escape) => p times && eachTime p escape
  | _ => true

/-- Whether every test of the time of day in some formulas is for times with `p`. -/
def eachTimeList (p : TimeOfDay → Bool) : List Formula → Bool
  | [] => true
  | f :: fs => eachTime p f && eachTimeList p fs

end

theorem eachTimeList_iff {p : TimeOfDay → Bool} {fs : List Formula} :
    eachTimeList p fs = true ↔ ∀ f ∈ fs, f.eachTime p = true := by
  induction fs with
  | nil => simp [eachTimeList]
  | cons f fs ih => simp [eachTimeList, ih]

theorem eachTime_true (f : Formula) : f.eachTime (fun _ => true) = true := by
  induction f using Formula.induction with
  | and fs ih | or fs ih => exact eachTimeList_iff.2 ih
  | not f ih => exact ih
  | time times e ih =>
    cases e with
    | none => rfl
    | some escape => exact ih escape rfl
  | _ => rfl

/-- Whether a formula has no test of the time of day. -/
def timeless (f : Formula) : Bool := f.eachTime fun _ => false

mutual

/-- Whether no test of the time of day in a formula stands under a negation. -/
def positive : Formula → Bool
  | .and fs | .or fs => positiveList fs
  | .not f => f.timeless
  | .time _ (some escape) => positive escape
  | _ => true

/-- Whether no test of the time of day in some formulas stands under a negation. -/
def positiveList : List Formula → Bool
  | [] => true
  | f :: fs => positive f && positiveList fs

end

theorem positiveList_iff {fs : List Formula} :
    positiveList fs = true ↔ ∀ f ∈ fs, f.positive = true := by
  induction fs with
  | nil => simp [positiveList]
  | cons f fs ih => simp [positiveList, ih]

/-! ### Answers that do not depend on the memory -/

section Fixed

variable {σ : Type} {ask : Query → σ → Bool × σ} {answers : Query → Bool} {cx : Situation}
  {P : σ → Prop} {p : TimeOfDay → Bool}

theorem askAt_eq_givenAt
    (hask : ∀ q s, p q.times = true → P s → (ask q s).1 = answers q ∧ P (ask q s).2)
    {times : TimeOfDay} (ht : p times = true) (s : σ) (hs : P s) :
    (askAt ask cx times s).1 = givenAt answers cx times ∧ P (askAt ask cx times s).2 := by
  unfold askAt givenAt
  cases cx.region with
  | none => exact ⟨rfl, hs⟩
  | some region => exact hask _ s ht hs

theorem holdsAll_eq_all {fs : List Formula}
    (h : ∀ f ∈ fs, ∀ s, P s →
      (f.holds ask cx s).1 = f.holdsGiven answers cx ∧ P (f.holds ask cx s).2)
    (s : σ) (hs : P s) :
    (holdsAll ask cx fs s).1 = fs.all (holdsGiven answers cx) ∧ P (holdsAll ask cx fs s).2 := by
  induction fs generalizing s with
  | nil => exact ⟨rfl, hs⟩
  | cons f fs ih =>
    obtain ⟨hf, hfs⟩ := List.forall_mem_cons.1 h
    obtain ⟨hfirst, hs'⟩ := hf s hs
    rw [holdsAll_cons, List.all_cons, ← hfirst]
    cases (f.holds ask cx s).1 with
    | false => exact ⟨rfl, hs'⟩
    | true => exact ih hfs _ hs'

theorem holdsAny_eq_any {fs : List Formula}
    (h : ∀ f ∈ fs, ∀ s, P s →
      (f.holds ask cx s).1 = f.holdsGiven answers cx ∧ P (f.holds ask cx s).2)
    (s : σ) (hs : P s) :
    (holdsAny ask cx fs s).1 = fs.any (holdsGiven answers cx) ∧ P (holdsAny ask cx fs s).2 := by
  induction fs generalizing s with
  | nil => exact ⟨rfl, hs⟩
  | cons f fs ih =>
    obtain ⟨hf, hfs⟩ := List.forall_mem_cons.1 h
    obtain ⟨hfirst, hs'⟩ := hf s hs
    rw [holdsAny_cons, List.any_cons, ← hfirst]
    cases (f.holds ask cx s).1 with
    | false => exact ih hfs _ hs'
    | true => exact ⟨rfl, hs'⟩

/-- **Fixed answers decide the truth.**  If, as long as its memory satisfies `P`, the
oracle gives the answers `answers` to all that the formula can ask, then the formula is
true under its guidance just when it is true under these answers, and `P` is kept. -/
theorem holds_eq_holdsGiven
    (hask : ∀ q s, p q.times = true → P s → (ask q s).1 = answers q ∧ P (ask q s).2)
    (f : Formula) (s : σ) (hf : f.eachTime p = true) (hs : P s) :
    (f.holds ask cx s).1 = f.holdsGiven answers cx ∧ P (f.holds ask cx s).2 := by
  induction f using Formula.induction generalizing s with
  | const | item | count | any | all | compare | bottle | atLeast | allGoals | won =>
    exact ⟨rfl, hs⟩
  | and fs ih =>
    rw [eachTime, eachTimeList_iff] at hf
    rw [holdsGiven_and]
    exact holdsAll_eq_all (fun f hm s => ih f hm s (hf f hm)) s hs
  | or fs ih =>
    rw [eachTime, eachTimeList_iff] at hf
    rw [holdsGiven_or]
    exact holdsAny_eq_any (fun f hm s => ih f hm s (hf f hm)) s hs
  | not f ih =>
    obtain ⟨h, hs'⟩ := ih s hf hs
    rw [holdsGiven_not, ← h]
    exact ⟨rfl, hs'⟩
  | time times e ih =>
    cases e with
    | none =>
      rw [holds_time_none, holdsGiven_time_none]
      split
      · exact askAt_eq_givenAt hask hf s hs
      · exact ⟨rfl, hs⟩
    | some escape =>
      rw [holds_time_some, holdsGiven_time_some]
      rw [eachTime, Bool.and_eq_true] at hf
      -- the escape is asked first, and what it remembers is kept for the question itself
      split
      · obtain ⟨h, hs'⟩ := ih escape rfl s hf.2 hs
        rw [← h]
        cases (escape.holds ask cx s).1 with
        | false => exact askAt_eq_givenAt hask hf.1 _ hs'
        | true => exact ⟨rfl, hs'⟩
      · exact ⟨rfl, hs⟩

end Fixed

/-! ### Fewer and more answers of yes -/

section Answers

variable {a b : Query → Bool} {cx : Situation}

/-- The answers matter only to the tests of the time of day. -/
theorem holdsGiven_congr {p : TimeOfDay → Bool}
    (hab : ∀ q, p q.times = true → a q = b q) {f : Formula} (hf : f.eachTime p = true) :
    f.holdsGiven a cx = f.holdsGiven b cx :=
  (holds_eq_holdsGiven (σ := Unit) (P := fun _ => True)
    (fun q _ hq _ => ⟨hab q hq, trivial⟩) f () hf trivial).1

theorem holdsGiven_congr_of_timeless {f : Formula} (hf : f.timeless = true) :
    f.holdsGiven a cx = f.holdsGiven b cx :=
  holdsGiven_congr (p := fun _ => false) (fun _ h => absurd h Bool.false_ne_true) hf

/-- They matter only where the formula is evaluated. -/
theorem holdsGiven_congr_of_givenAt (hab : ∀ times, givenAt a cx times = givenAt b cx times)
    (f : Formula) : f.holdsGiven a cx = f.holdsGiven b cx := by
  induction f using Formula.induction with
  | const | item | count | any | all | compare | bottle | atLeast | allGoals | won => rfl
  | and fs ih =>
    rw [holdsGiven_and, holdsGiven_and, Bool.eq_iff_iff, List.all_eq_true, List.all_eq_true]
    exact forall₂_congr fun f hm => by rw [ih f hm]
  | or fs ih =>
    rw [holdsGiven_or, holdsGiven_or, Bool.eq_iff_iff, List.any_eq_true, List.any_eq_true]
    exact exists_congr fun f => and_congr_right fun hm => by rw [ih f hm]
  | not f ih => rw [holdsGiven_not, holdsGiven_not, ih]
  | time times e ih =>
    cases e with
    | none => rw [holdsGiven_time_none, holdsGiven_time_none, hab]
    | some escape => rw [holdsGiven_time_some, holdsGiven_time_some, hab, ih escape rfl]

theorem givenAt_mono (hab : ∀ q, a q = true → b q = true) {times : TimeOfDay}
    (h : givenAt a cx times = true) : givenAt b cx times = true := by
  unfold givenAt at *
  cases hr : cx.region with
  | none => simp [hr] at h
  | some region =>
    rw [hr] at h
    exact hab _ h

/-- **Positive formulas are monotone in the answers.** -/
theorem holdsGiven_mono (hab : ∀ q, a q = true → b q = true) :
    ∀ f : Formula, f.positive = true → f.holdsGiven a cx = true → f.holdsGiven b cx = true := by
  intro f
  induction f using Formula.induction with
  | const | item | count | any | all | compare | bottle | atLeast | allGoals | won =>
    intro _ h
    exact h
  | and fs ih =>
    intro hf h
    rw [positive, positiveList_iff] at hf
    rw [holdsGiven_and, List.all_eq_true] at h ⊢
    intro f hm
    exact ih f hm (hf f hm) (h f hm)
  | or fs ih =>
    intro hf h
    rw [positive, positiveList_iff] at hf
    rw [holdsGiven_or, List.any_eq_true] at h ⊢
    obtain ⟨f, hm, h⟩ := h
    exact ⟨f, hm, ih f hm (hf f hm) h⟩
  | not f _ =>
    intro hf h
    rw [holdsGiven_not] at h ⊢
    rw [positive] at hf
    -- below a negation the answers play no part
    have hsame : f.holdsGiven a cx = f.holdsGiven b cx := holdsGiven_congr_of_timeless hf
    rwa [← hsame]
  | time times e ih =>
    intro hf h
    cases e with
    | none =>
      rw [holdsGiven_time_none] at h ⊢
      by_cases hc : cx.times.isNone = true
      · rw [if_pos hc] at h ⊢
        exact givenAt_mono hab h
      · rwa [if_neg hc] at h ⊢
    | some escape =>
      rw [holdsGiven_time_some] at h ⊢
      by_cases hc : cx.times.isNone = true
      · rw [if_pos hc, Bool.or_eq_true] at h ⊢
        rcases h with h | h
        · rw [positive] at hf
          exact .inl (ih escape rfl hf h)
        · exact .inr (givenAt_mono hab h)
      · rwa [if_neg hc] at h ⊢

end Answers

end Progression.Rule.Formula
