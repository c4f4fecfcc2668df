import Progression.Age
import Progression.Item
import Progression.Rule.Term
import Progression.Value

/-!
# Formulas

A formula is a rule after every name in it has been looked up: it asks only for
counts of items, the age and the time of day.

## Main definitions

* `Tally`, `Operand` — the numbers that a formula can ask for.
* `Formula` — the formulas, with decidable equality.
* `Formula.tests` — the times that a formula tests for.
* `Formula.induction` — induction on formulas, with a hypothesis for every operand.
-/

namespace Progression.Rule

/-- A number that an inventory counts over a group of items. -/
inductive Tally where
  | hearts
  | medallions
  | stones
  | dungeonRewards
  | ocarinaButtons
  deriving DecidableEq, Inhabited

/-- A side of a comparison. -/
inductive Operand where
  | age
  | literal (v : Value)
  | itemCount (id : ItemId)
  | heartCount
  deriving DecidableEq, Inhabited

/-- A rule without names. -/
inductive Formula where
  | const (b : Bool)
  /-- There is a copy of the item. -/
  | item (id : ItemId)
  /-- There are at least `n` copies of the item. -/
  | count (id : ItemId) (n : Count)
  /-- There is a copy of one of the items. -/
  | any (ids : List ItemId)
  /-- There is a copy of each of the items. -/
  | all (ids : List ItemId)
  | and (operands : List Formula)
  | or (operands : List Formula)
  | not (operand : Formula)
  | compare (op : Comparator) (left right : Operand)
  | bottle
  | atLeast (tally : Tally) (n : Count)
  | allGoals
  | won
  /-- It is one of the given times, or `escape` holds, or the region of the spot
  can be reached at one of the times. -/
  | time (times : TimeOfDay) (escape : Option Formula)
  deriving Inhabited

namespace Formula

/-! ### Induction -/

/-- Induction on formulas: the hypotheses cover every operand, also inside lists. -/
@[elab_as_elim]
theorem induction {motive : Formula → Prop}
    (const : ∀ b, motive (.const b)) (item : ∀ id, motive (.item id))
    (count : ∀ id n, motive (.count id n)) (any : ∀ ids, motive (.any ids))
    (all : ∀ ids, motive (.all ids))
    (and : ∀ fs, (∀ f ∈ fs, motive f) → motive (.and fs))
    (or : ∀ fs, (∀ f ∈ fs, motive f) → motive (.or fs))
    (not : ∀ f, motive f → motive (.not f)) (compare : ∀ op l r, motive (.compare op l r))
    (bottle : motive .bottle) (atLeast : ∀ t n, motive (.atLeast t n))
    (allGoals : motive .allGoals) (won : motive .won)
    (time : ∀ t e, (∀ f ∈ e, motive f) → motive (.time t e)) (f : Formula) : motive f :=
  @Formula.rec motive (fun fs => ∀ f ∈ fs, motive f) (fun e => ∀ f ∈ e, motive f)
    const item count any all and or not compare bottle atLeast allGoals won time
    (fun _ h => nomatch h) (fun _ _ h hs => List.forall_mem_cons.2 ⟨h, hs⟩)
    (fun _ h => nomatch h) (fun _ h _ hf => Option.mem_some.1 hf ▸ h) f

/-! ### The times that are tested for -/

mutual

/-- The times that a formula tests for, the tests in its escapes included. -/
def tests : Formula → List TimeOfDay
  | .and fs | .or fs => testsOf fs
  | .not f => tests f
  | .time times none => [times]
  | .time times (some escape) => times :: tests escape
  | _ => []

/-- The times that some formulas test for. -/
def testsOf : List Formula → List TimeOfDay
  | [] => []
  | f :: fs => tests f ++ testsOf fs

end

theorem tests_subset_testsOf {f : Formula} {fs : List Formula} (h : f ∈ fs) :
    f.tests ⊆ testsOf fs := by
  induction fs with
  | nil => cases h
  | cons f' fs ih =>
    rw [testsOf]
    rcases List.mem_cons.1 h with rfl | h
    · exact List.subset_append_left _ _
    · exact List.subset_append_of_subset_right _ (ih h)

/-! ### Equality -/

mutual

/-- Whether two formulas are the same. -/
def same : Formula → Formula → Bool
  | .const a, .const b => a == b
  | .item a, .item b => a == b
  | .count a m, .count b n => a == b && m == n
  | .any as, .any bs => as == bs
  | .all as, .all bs => as == bs
  | .and as, .and bs => sameList as bs
  | .or as, .or bs => sameList as bs
  | .not a, .not b => same a b
  | .compare o a b, .compare p c d => o == p && a == c && b == d
  | .bottle, .bottle => true
  | .atLeast s m, .atLeast t n => s == t && m == n
  | .allGoals, .allGoals => true
  | .won, .won => true
  | .time s none, .time t none => s == t
  | .time s (some a), .time t (some b) => s == t && same a b
  | _, _ => false

/-- Whether two lists of formulas are the same. -/
def sameList : List Formula → List Formula → Bool
  | [], [] => true
  | a :: as, b :: bs => same a b && sameList as bs
  | _, _ => false

end

mutual

theorem same_iff : ∀ a b : Formula, same a b = true ↔ a = b
  | .const _, b | .item _, b | .count _ _, b | .any _, b | .all _, b | .bottle, b
  | .atLeast _ _, b | .allGoals, b | .won, b => by cases b <;> simp [same]
  | .compare _ _ _, b => by cases b <;> simp [same, and_assoc]
  | .and as, b | .or as, b => by cases b <;> simp [same, sameList_iff as]
  | .not a, b => by cases b <;> simp [same, same_iff a]
  | .time _ none, b => by
    cases b with
    | time _ e => cases e <;> simp [same]
    | _ => simp [same]
  | .time _ (some a), b => by
    cases b with
    | time _ e => cases e <;> simp [same, same_iff a]
    | _ => simp [same]

theorem sameList_iff : ∀ as bs : List Formula, sameList as bs = true ↔ as = bs
  | [], bs => by cases bs <;> simp [sameList]
  | a :: as, bs => by cases bs <;> simp [sameList, same_iff a, sameList_iff as]

end

instance : DecidableEq Formula := fun a b => decidable_of_iff _ (same_iff a b)

end Formula

end Progression.Rule
