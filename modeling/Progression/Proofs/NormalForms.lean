import Progression.Proofs.Grouping
import Progression.Proofs.Resolving

/-!
# Normal forms

The formula of a rule is in normal form: a connective has at least two different operands, none
of them a constant or of its own kind, and only the first one can be a test for items that would
merge with others; merged tests ascend; a negation is of nothing negated; and what can be
decided when the rule is resolved is decided.  Every way of putting formulas together keeps
this, but for one.  The name of a count alone asks that the count is not zero, and where that is
the name of a constant or of an item, a comparison of two literals is left as it is.

## Main definitions

* `Formula.Operands` — the operands of a connective in normal form.
* `Formula.Reduced` — normal forms that are not constant, except for some comparisons.
* `Formula.NormalBut`, `Formula.Normal` — normal forms, with such exceptions and without.
* `Formula.comparesLiterals` — whether a comparison of two literals is left in a formula.

## Main results

* `Formula.NormalBut.group` — connectives of normal forms are in normal form.
* `normal_of_resolve` — **the formula of a rule is in normal form just when it compares no two
  literals**, and it compares none but the value of a count with zero.
-/

namespace Progression.Rule

namespace Formula

variable {op : Connective}

/-! ### Normal forms -/

/-- The operands of a connective in normal form. -/
structure Operands (op : Connective) (fs : List Formula) : Prop where
  two : 2 ≤ fs.length
  distinct : fs.Nodup
  flat : ∀ f ∈ fs, f.kind? ≠ some op
  /-- Only the first operand can be a test for items that would merge with others. -/
  merged : ∀ f ∈ fs.tail, mergedItems op f = none

/-- A formula that is not constant and in normal form throughout, except that values with `S`
may be compared with zero. -/
inductive Reduced (S : Value → Prop) : Formula → Prop where
  | item (id : ItemId) : Reduced S (.item id)
  | count {id : ItemId} {n : Count} (h : 2 ≤ n.toNat) : Reduced S (.count id n)
  | any {ids : List ItemId} (htwo : 2 ≤ ids.length) (h : ids.Pairwise (· < ·)) :
    Reduced S (.any ids)
  | all {ids : List ItemId} (htwo : 2 ≤ ids.length) (h : ids.Pairwise (· < ·)) :
    Reduced S (.all ids)
  | and {fs : List Formula} (hop : Operands .and fs) (h : ∀ f ∈ fs, Reduced S f) :
    Reduced S (.and fs)
  | or {fs : List Formula} (hop : Operands .or fs) (h : ∀ f ∈ fs, Reduced S f) :
    Reduced S (.or fs)
  | not {f : Formula} (h : Reduced S f) (hnot : ∀ g, f ≠ .not g) : Reduced S (.not f)
  | compare {op : Comparator} {left right : Operand}
    (h : (left.isLiteral && right.isLiteral) = false) : Reduced S (.compare op left right)
  | unfolded {value : Value} (h : S value) :
    Reduced S (.compare .gt (.literal value) (.literal (.int 0)))
  | bottle : Reduced S .bottle
  | atLeast (tally : Tally) (n : Count) : Reduced S (.atLeast tally n)
  | allGoals : Reduced S .allGoals
  | won : Reduced S .won
  | time (times : TimeOfDay) : Reduced S (.time times none)
  | timeOr (times : TimeOfDay) {escape : Formula} (h : Reduced S escape) :
    Reduced S (.time times (some escape))

/-- A normal form, except that values with `S` may be compared with zero.  Constants occur only
alone. -/
def NormalBut (S : Value → Prop) (f : Formula) : Prop := (∃ b, f = .const b) ∨ Reduced S f

/-- A formula in normal form. -/
def Normal (f : Formula) : Prop := f.NormalBut fun _ => False

/-! ### Connectives of normal forms -/

section Folding

variable {S : Value → Prop} {ids : List ItemId} {fs ls : List Formula} {f l : Formula}

theorem Reduced.ne_const (h : Reduced S f) (b : Bool) : f ≠ .const b := by
  rintro rfl
  cases h

theorem NormalBut.reduced (h : NormalBut S f) (hne : ∀ b, f ≠ .const b) : Reduced S f := by
  rcases h with ⟨b, hb⟩ | h
  · exact absurd hb (hne b)
  · exact h

/-- The leaves of normal forms are in normal form. -/
theorem NormalBut.of_mem_leavesList (h : ∀ f ∈ fs, NormalBut S f) (hl : l ∈ leavesList op fs) :
    NormalBut S l := by
  obtain ⟨f, hf, hl⟩ := mem_leavesList.1 hl
  refine (forall_mem_leaves (p := NormalBut S) (fun gs hgs g hg => ?_) (fun gs hgs g hg => ?_) f
    (h f hf) l hl).2
  · cases hgs.reduced nofun with
    | and _ h => exact .inr (h g hg)
  · cases hgs.reduced nofun with
    | or _ h => exact .inr (h g hg)

theorem reduced_of_mem_itemTest (hids : ids.Pairwise (· < ·)) (hl : l ∈ itemTest op ids) :
    Reduced S l := by
  match ids with
  | [] => cases hl
  | [id] => exact List.mem_singleton.1 hl ▸ .item id
  | id :: id' :: ids =>
    cases op with
    | and => exact List.mem_singleton.1 hl ▸ .all (Nat.le_add_left ..) hids
    | or => exact List.mem_singleton.1 hl ▸ .any (Nat.le_add_left ..) hids

theorem ne_const_of_isOther (h : isOther op l = true) (b : Bool) : l ≠ .const b := by
  rintro rfl
  cases h

/-- Each operand of a connective of normal forms is reduced. -/
theorem reduced_of_mem_operandsOf (h : ∀ f ∈ fs, NormalBut S f)
    (hl : l ∈ operandsOf op (leavesList op fs)) : Reduced S l := by
  rcases List.mem_append.1 hl with hl | hl
  · exact reduced_of_mem_itemTest (testedItems_pairwise ..) hl
  · obtain ⟨hmem, hother⟩ := mem_others.1 hl
    exact (NormalBut.of_mem_leavesList h hmem).reduced (ne_const_of_isOther hother)

/-- There is one test for items at most. -/
theorem itemTest_cases (op : Connective) (ids : List ItemId) :
    itemTest op ids = [] ∨ ∃ l, itemTest op ids = [l] :=
  match ids with
  | [] => .inl rfl
  | [_] => .inr ⟨_, rfl⟩
  | _ :: _ :: _ => .inr ⟨_, rfl⟩

theorem operands_operandsOf (op : Connective) (fs : List Formula)
    (htwo : 2 ≤ (operandsOf op (leavesList op fs)).length) :
    Operands op (operandsOf op (leavesList op fs)) where
  two := htwo
  distinct := by
    have hnodup : (itemTest op (testedItems op (leavesList op fs))).Nodup := by
      rcases itemTest_cases op (testedItems op (leavesList op fs)) with h | ⟨l, h⟩ <;> simp [h]
    refine List.nodup_append.2 ⟨hnodup, others_nodup .., fun l hl l' hl' heq => ?_⟩
    -- a merged test is not one of the others
    have hmerged := mergedItems_of_mem_itemTest hl
    rw [heq, mergedItems_of_isOther (mem_others.1 hl').2] at hmerged
    cases hmerged
  flat l hl := kind_of_mem_operandsOf hl
  merged l hl := by
    have hothers : l ∈ others op (leavesList op fs) := by
      rw [operandsOf] at hl
      rcases itemTest_cases op (testedItems op (leavesList op fs)) with h | ⟨l', h⟩
      · rw [h] at hl
        exact List.mem_of_mem_tail hl
      · rw [h] at hl
        exact hl
    exact mergedItems_of_isOther (mem_others.1 hothers).2

theorem normalBut_join (h : ∀ l ∈ ls, Reduced S l) (hop : 2 ≤ ls.length → Operands op ls) :
    NormalBut S (join op ls) := by
  match ls with
  | [] => exact .inl ⟨_, rfl⟩
  | [l] => exact .inr (h l List.mem_cons_self)
  | l :: l' :: ls =>
    have hop := hop (Nat.le_add_left ..)
    cases op with
    | and => exact .inr (.and hop h)
    | or => exact .inr (.or hop h)

/-- **Connectives of normal forms are in normal form.** -/
theorem NormalBut.group (h : ∀ f ∈ fs, NormalBut S f) : NormalBut S (group op fs) := by
  rw [group_eq]
  by_cases hc : .const (absorbing op) ∈ leavesList op fs
  · rw [ofLeaves_of_mem hc]
    exact .inl ⟨_, rfl⟩
  · rw [ofLeaves_of_not_mem hc]
    exact normalBut_join (fun l hl => reduced_of_mem_operandsOf h hl) (operands_operandsOf op fs)

theorem negate_eq_not (hconst : ∀ b, f ≠ .const b) (hnot : ∀ g, f ≠ .not g) :
    f.negate = .not f := by
  cases f with
  | const b => exact absurd rfl (hconst b)
  | not g => exact absurd rfl (hnot g)
  | _ => rfl

theorem NormalBut.negate (h : NormalBut S f) : NormalBut S f.negate := by
  rcases h with ⟨b, rfl⟩ | h
  · exact .inl ⟨!b, rfl⟩
  · by_cases hnot : ∃ g, f = .not g
    · obtain ⟨g, rfl⟩ := hnot
      cases h with
      | not h _ => exact .inr h
    · have hnot : ∀ g, f ≠ .not g := fun g hg => hnot ⟨g, hg⟩
      rw [negate_eq_not h.ne_const hnot]
      exact .inr (.not h hnot)

theorem normalBut_has (id : ItemId) (n : Int) : NormalBut S (has id n) := by
  unfold has
  split
  · exact .inl ⟨true, rfl⟩
  · split
    · exact .inr (.item id)
    · refine .inr (.count ?_)
      rw [Count.toNat_clamp, Count.greatest]
      omega

/-- The escape of a test of the time of day is not constant. -/
theorem NormalBut.timeOrSong (h : NormalBut S f) (times : TimeOfDay) :
    NormalBut S (timeOrSong times f) := by
  unfold Rule.timeOrSong
  split
  · exact .inl ⟨true, rfl⟩
  · next htrue =>
    split
    · exact .inr (.time times)
    · next hfalse =>
      refine .inr (.timeOr times (h.reduced fun b => ?_))
      cases b with
      | true => exact htrue
      | false => exact hfalse

end Folding

/-! ### Comparisons that are left -/

mutual

/-- Whether a formula compares two literals somewhere. -/
def comparesLiterals : Formula → Bool
  | .and fs | .or fs => anyComparesLiterals fs
  | .not f => comparesLiterals f
  | .compare _ left right => left.isLiteral && right.isLiteral
  | .time _ (some escape) => comparesLiterals escape
  | _ => false

/-- Whether some formula of a list compares two literals somewhere. -/
def anyComparesLiterals : List Formula → Bool
  | [] => false
  | f :: fs => comparesLiterals f || anyComparesLiterals fs

end

theorem anyComparesLiterals_eq_false {fs : List Formula} :
    anyComparesLiterals fs = false ↔ ∀ f ∈ fs, f.comparesLiterals = false := by
  induction fs with
  | nil => simp [anyComparesLiterals]
  | cons f fs ih => simp [anyComparesLiterals, ih]

section Exceptions

variable {S : Value → Prop} {f : Formula}

theorem Reduced.comparesLiterals_eq_false (h : Reduced (fun _ => False) f) :
    f.comparesLiterals = false := by
  induction h with
  | and _ _ ih | or _ _ ih => exact anyComparesLiterals_eq_false.2 ih
  | not _ _ ih | timeOr _ _ ih => exact ih
  | compare h => exact h
  | unfolded h => exact h.elim
  | _ => rfl

/-- Without comparisons of literals there are no exceptions. -/
theorem Reduced.of_comparesLiterals_eq_false (h : Reduced S f) (hc : f.comparesLiterals = false) :
    Reduced (fun _ => False) f := by
  induction h with
  | item id => exact .item id
  | count h => exact .count h
  | any htwo h => exact .any htwo h
  | all htwo h => exact .all htwo h
  | and hop _ ih => exact .and hop fun f hf => ih f hf (anyComparesLiterals_eq_false.1 hc f hf)
  | or hop _ ih => exact .or hop fun f hf => ih f hf (anyComparesLiterals_eq_false.1 hc f hf)
  | not _ hnot ih => exact .not (ih hc) hnot
  | compare h => exact .compare h
  | unfolded _ => cases hc
  | bottle => exact .bottle
  | atLeast tally n => exact .atLeast tally n
  | allGoals => exact .allGoals
  | won => exact .won
  | time times => exact .time times
  | timeOr times _ ih => exact .timeOr times (ih hc)

/-- Without the exceptions, a normal form compares no two literals. -/
theorem NormalBut.normal_iff (h : NormalBut S f) : f.Normal ↔ f.comparesLiterals = false := by
  constructor
  · rintro (⟨b, rfl⟩ | hf)
    · rfl
    · exact hf.comparesLiterals_eq_false
  · intro hc
    rcases h with hconst | h
    · exact .inl hconst
    · exact .inr (h.of_comparesLiterals_eq_false hc)

end Exceptions

end Formula

/-! ### Resolving -/

/-- The tests of rules are in normal form, but for the value of a count that is compared with
zero, and folding keeps this. -/
theorem normalBut_kept (lx : Lexicon) :
    KeptByResolving lx (Formula.NormalBut lx.StandsForCount) where
  const b := .inl ⟨b, rfl⟩
  item id := .inr (.item id)
  has := Formula.normalBut_has
  bottle := .inr .bottle
  atLeast tally n := .inr (.atLeast tally n)
  allGoals := .inr .allGoals
  won := .inr .won
  compare _ _ _ h := .inr (.compare h)
  nonzero v hv := by
    cases v with
    | literal value => exact .inr (.unfolded (hv value rfl))
    | _ => exact .inr (.compare rfl)
  day _ h := h.timeOrSong .atDay
  night _ h := h.timeOrSong .atNight
  gravekeeper := .inr (.time .atNight)
  group _ _ h := .group h
  negate _ h := h.negate

/-- **The formula of a rule is in normal form just when it compares no two literals.**  It
compares none but the value that the name of a count stands for with zero. -/
theorem normal_of_resolve {lx : Lexicon} {term : Term} {r : Registry} {f : Formula}
    (h : (Action.result (resolve lx term) r).1 = .ok f) :
    f.NormalBut lx.StandsForCount ∧ (f.Normal ↔ f.comparesLiterals = false) := by
  have htrue : Registry.Stable fun _ => True :=
    ⟨fun _ _ _ => trivial, fun _ _ _ _ => trivial⟩
  have hf : f.NormalBut lx.StandsForCount :=
    ((keeps_of_kept htrue (normalBut_kept lx) term).run r trivial).2 f h
  exact ⟨hf, hf.normal_iff⟩

/-- A setting can have the name of a count.  That it is not zero is known when the rule is
resolved, but the formula asks for it. -/
theorem not_normal_itemCount :
    let lx : Lexicon := ⟨{ Profile.plain with settings := .ofList [("item_count", .int 3)] },
      .empty, none⟩
    let f : Formula := .compare .gt (.literal (.int 3)) (.literal (.int 0))
    (Action.result (resolve lx (.name "item_count")) ⟨.empty, .empty⟩).1 = .ok f ∧
      f.NormalBut lx.StandsForCount ∧ ¬ f.Normal := by
  intro lx f
  have h : (Action.result (resolve lx (.name "item_count")) ⟨.empty, .empty⟩).1 = .ok f := by
    decide
  obtain ⟨hbut, hnormal⟩ := normal_of_resolve h
  refine ⟨h, hbut, fun hf => ?_⟩
  cases hnormal.1 hf

end Progression.Rule
