import Progression.Proofs.Asking

/-!
# Folding keeps the meaning

The connectives simplify as they are put together: operands of their own kind are
opened, tests for items are merged into one test for an ascending list, repeated
operands and neutral constants go, and one deciding constant settles the rest.  None of
this shows in the truth of a formula, nor does it bring in a test of the time of day.

A connective is decided by its *absorbing* value: a conjunction by a false operand, a
disjunction by a true one.  Every step is therefore shown to keep the answer to one
question, whether some operand has that value.

## Main definitions

* `Connective.among` — the truth of a connective of truth values.
* `Formula.kind?` — the connective of a formula.

## Main results

* `Formula.holdsGiven_group` — **a connective holds as its operands say.**
* `Formula.holdsGiven_negate` — so does a negation.
* `Formula.eachTime_group`, `Formula.eachTime_negate` — folding asks nothing new.
-/

namespace Progression

/-! ### Ascending lists -/

theorem mem_insertKey {κ : Type} [DecidableEq κ] [LT κ] [DecidableLT κ] {k x : κ} :
    ∀ {xs : List κ}, x ∈ insertKey k xs ↔ x = k ∨ x ∈ xs
  | [] => by simp [insertKey]
  | y :: ys => by
    unfold insertKey
    split
    · next h => simp [h]
    · split
      · exact List.mem_cons
      · rw [List.mem_cons, mem_insertKey, List.mem_cons, or_left_comm]

theorem mem_foldr_insertKey {κ : Type} [DecidableEq κ] [LT κ] [DecidableLT κ] {x : κ}
    {xs : List κ} : x ∈ xs.foldr insertKey [] ↔ x ∈ xs := by
  induction xs with
  | nil => rfl
  | cons y ys ih => rw [List.foldr_cons, mem_insertKey, ih, List.mem_cons]

namespace Rule

/-- The truth of a connective of some truth values. -/
def Connective.among : Connective → List Bool → Bool
  | .and, bs => bs.all id
  | .or, bs => bs.any id

namespace Formula

@[simp] theorem absorbing_and : absorbing .and = false := rfl

@[simp] theorem absorbing_or : absorbing .or = true := rfl

/-- A connective takes its absorbing value just when one of its operands has it. -/
theorem among_eq_absorbing {op : Connective} {bs : List Bool} :
    op.among bs = absorbing op ↔ absorbing op ∈ bs := by
  cases op <;> simp [Connective.among]

theorem eq_of_absorbing_iff (op : Connective) {a b : Bool}
    (h : a = absorbing op ↔ b = absorbing op) : a = b := by
  revert h
  cases absorbing op <;> cases a <;> cases b <;> simp

/-! ### Opening operands -/

theorem leavesList_eq_flatMap (op : Connective) (fs : List Formula) :
    leavesList op fs = fs.flatMap (leaves op) := by
  induction fs with
  | nil => rfl
  | cons f fs ih => rw [leavesList, ih, List.flatMap_cons]

theorem mem_leavesList {op : Connective} {fs : List Formula} {l : Formula} :
    l ∈ leavesList op fs ↔ ∃ f ∈ fs, l ∈ leaves op f := by
  rw [leavesList_eq_flatMap, List.mem_flatMap]

/-- The connective of a formula. -/
def kind? : Formula → Option Connective
  | .and _ => some .and
  | .or _ => some .or
  | _ => none

/-- A formula of another kind is not opened. -/
theorem leaves_of_kind {op : Connective} {f : Formula} (h : f.kind? ≠ some op) :
    leaves op f = [f] := by
  cases f with
  | and fs => exact if_neg fun hop => h (congrArg some hop.symm)
  | or fs => exact if_neg fun hop => h (congrArg some hop.symm)
  | _ => rfl

/-- Leaves are of another kind than the connective, and have what the operands of a connective
have with it. -/
theorem forall_mem_leaves {op : Connective} {p : Formula → Prop}
    (hand : ∀ fs, p (.and fs) → ∀ f ∈ fs, p f) (hor : ∀ fs, p (.or fs) → ∀ f ∈ fs, p f)
    (f : Formula) (hf : p f) : ∀ l ∈ leaves op f, l.kind? ≠ some op ∧ p l := by
  have opened : ∀ {fs : List Formula},
      (∀ f ∈ fs, p f → ∀ l ∈ leaves op f, l.kind? ≠ some op ∧ p l) → (∀ f ∈ fs, p f) →
      ∀ l ∈ leavesList op fs, l.kind? ≠ some op ∧ p l := by
    intro fs ih hfs l hl
    obtain ⟨f, hf, hl⟩ := mem_leavesList.1 hl
    exact ih f hf (hfs f hf) l hl
  induction f using Formula.induction with
  | and fs ih =>
    by_cases hop : op = .and
    · rw [leaves, if_pos hop]
      exact opened ih (hand fs hf)
    · rw [leaves, if_neg hop]
      exact List.forall_mem_singleton.2 ⟨fun heq => hop (Option.some.inj heq).symm, hf⟩
  | or fs ih =>
    by_cases hop : op = .or
    · rw [leaves, if_pos hop]
      exact opened ih (hor fs hf)
    · rw [leaves, if_neg hop]
      exact List.forall_mem_singleton.2 ⟨fun heq => hop (Option.some.inj heq).symm, hf⟩
  | _ => exact List.forall_mem_singleton.2 ⟨nofun, hf⟩

@[simp] theorem mem_firsts {f : Formula} {fs : List Formula} : f ∈ firsts fs ↔ f ∈ fs := by
  induction fs with
  | nil => rfl
  | cons g gs ih =>
    by_cases h : f = g <;> simp [firsts, ih, h]

section Truth

variable {answers : Query → Bool} {cx : Situation} {op : Connective}

/-- Whether some formula of a list has the absorbing value of a connective. -/
def Decides (answers : Query → Bool) (cx : Situation) (op : Connective) (fs : List Formula) :
    Prop :=
  ∃ f ∈ fs, f.holdsGiven answers cx = absorbing op

theorem decides_append {fs gs : List Formula} :
    Decides answers cx op (fs ++ gs) ↔ Decides answers cx op fs ∨ Decides answers cx op gs := by
  simp only [Decides, List.mem_append, or_and_right, exists_or]

theorem decides_singleton {f : Formula} :
    Decides answers cx op [f] ↔ f.holdsGiven answers cx = absorbing op := by
  simp [Decides]

/-- A conjunction is decided by its operands as a connective, and so is a disjunction. -/
theorem decides_and {fs : List Formula} :
    (and fs).holdsGiven answers cx = absorbing .and ↔ Decides answers cx .and fs := by
  simp [Decides]

theorem decides_or {fs : List Formula} :
    (or fs).holdsGiven answers cx = absorbing .or ↔ Decides answers cx .or fs := by
  simp [Decides]

theorem decides_leavesList {fs : List Formula}
    (h : ∀ f ∈ fs,
      Decides answers cx op (leaves op f) ↔ f.holdsGiven answers cx = absorbing op) :
    Decides answers cx op (leavesList op fs) ↔ Decides answers cx op fs := by
  constructor
  · rintro ⟨l, hl, hv⟩
    obtain ⟨f, hf, hl⟩ := mem_leavesList.1 hl
    exact ⟨f, hf, (h f hf).1 ⟨l, hl, hv⟩⟩
  · rintro ⟨f, hf, hv⟩
    obtain ⟨l, hl, hv⟩ := (h f hf).2 hv
    exact ⟨l, mem_leavesList.2 ⟨f, hf, hl⟩, hv⟩

/-- The operands that a formula contributes decide a connective as the formula does. -/
theorem decides_leaves (f : Formula) :
    Decides answers cx op (leaves op f) ↔ f.holdsGiven answers cx = absorbing op := by
  induction f using Formula.induction with
  | and fs ih =>
    unfold leaves
    split
    · next h =>
      subst h
      rw [decides_leavesList ih, decides_and]
    · exact decides_singleton
  | or fs ih =>
    unfold leaves
    split
    · next h =>
      subst h
      rw [decides_leavesList ih, decides_or]
    · exact decides_singleton
  | _ => exact decides_singleton

/-! ### Merging tests for items -/

theorem holdsGiven_of_mergedItems {f : Formula} {ids : List ItemId}
    (h : mergedItems op f = some ids) :
    f.holdsGiven answers cx = absorbing op ↔
      ∃ id ∈ ids, cx.inventory.has id 1 = absorbing op := by
  cases f with
  | item id =>
    cases h
    simp
  | all ids' =>
    cases op <;> simp_all [mergedItems, Inventory.hasAll]
  | any ids' =>
    cases op <;> simp_all [mergedItems, Inventory.hasAny]
  | _ => cases h

theorem decides_itemTest {ids : List ItemId} :
    Decides answers cx op (itemTest op ids) ↔
      ∃ id ∈ ids, cx.inventory.has id 1 = absorbing op := by
  match ids with
  | [] => simp [Decides, itemTest]
  | [id] => simp [Decides, itemTest]
  | id :: id' :: ids =>
    refine decides_singleton.trans ?_
    cases op
    · exact holdsGiven_of_mergedItems rfl
    · exact holdsGiven_of_mergedItems rfl

/-! ### Connectives -/

theorem decides_join {fs : List Formula} :
    (join op fs).holdsGiven answers cx = absorbing op ↔ Decides answers cx op fs := by
  match fs with
  | [] => simp [join, Decides]
  | [f] => exact decides_singleton.symm
  | f :: g :: fs =>
    cases op
    · exact decides_and
    · exact decides_or

/-- What is left of the operands once they are opened and their tests for items merged
decides the connective as before. -/
theorem decides_merged {leaves : List Formula}
    (hc : leaves.contains (.const (absorbing op)) = false) :
    (Decides answers cx op
        (itemTest op ((leaves.flatMap fun f => (mergedItems op f).getD []).foldr insertKey [])) ∨
      Decides answers cx op (firsts (leaves.filter (isOther op)))) ↔
      Decides answers cx op leaves := by
  rw [decides_itemTest]
  simp only [mem_foldr_insertKey, List.mem_flatMap]
  constructor
  · rintro (⟨id, ⟨f, hf, hid⟩, hv⟩ | ⟨f, hf, hv⟩)
    · cases hm : mergedItems op f with
      | none => simp [hm] at hid
      | some ids =>
        rw [hm] at hid
        exact ⟨f, hf, (holdsGiven_of_mergedItems hm).2 ⟨id, hid, hv⟩⟩
    · exact ⟨f, (List.mem_filter.1 (mem_firsts.1 hf)).1, hv⟩
  · rintro ⟨f, hf, hv⟩
    -- an operand is either merged or kept as it is
    cases hm : mergedItems op f with
    | some ids =>
      obtain ⟨id, hid, hv⟩ := (holdsGiven_of_mergedItems hm).1 hv
      exact .inl ⟨id, ⟨f, hf, by rwa [hm]⟩, hv⟩
    | none =>
      refine .inr ⟨f, mem_firsts.2 (List.mem_filter.2 ⟨hf, ?_⟩), hv⟩
      -- a constant with the absorbing value would have settled the connective before
      cases f with
      | const b =>
        rw [holdsGiven_const] at hv
        subst hv
        simp [hf] at hc
      | _ => simp_all [isOther]

theorem decides_group {fs : List Formula} :
    (group op fs).holdsGiven answers cx = absorbing op ↔ Decides answers cx op fs := by
  rw [← decides_leavesList fun f _ => decides_leaves f]
  unfold group
  dsimp only
  split
  · next hc =>
    -- a constant settles the connective, and is one of the operands
    rw [List.contains_iff_mem] at hc
    exact iff_of_true rfl ⟨_, hc, rfl⟩
  · next hc =>
    rw [decides_join, decides_append]
    exact decides_merged (Bool.not_eq_true _ ▸ hc)

/-- **A connective holds as its operands say.** -/
@[simp] theorem holdsGiven_group (op : Connective) (fs : List Formula) :
    (group op fs).holdsGiven answers cx = op.among (fs.map (holdsGiven answers cx)) := by
  refine eq_of_absorbing_iff op ?_
  rw [decides_group, among_eq_absorbing, List.mem_map]
  rfl

@[simp] theorem holdsGiven_negate (f : Formula) :
    f.negate.holdsGiven answers cx = !f.holdsGiven answers cx := by
  cases f <;> simp [negate]

@[simp] theorem holdsGiven_hasAll (ids : List ItemId) :
    (hasAll ids).holdsGiven answers cx = cx.inventory.hasAll ids := by
  simp [hasAll, Connective.among, Inventory.hasAll, Function.comp_def]

@[simp] theorem holdsGiven_hasAny (ids : List ItemId) :
    (hasAny ids).holdsGiven answers cx = cx.inventory.hasAny ids := by
  simp [hasAny, Connective.among, Inventory.hasAny, Function.comp_def]

end Truth

/-! ### Folding asks nothing new -/

section Times

variable {p : TimeOfDay → Bool} {op : Connective}

theorem eachTime_and {fs : List Formula} :
    (and fs).eachTime p = true ↔ ∀ f ∈ fs, f.eachTime p = true := by
  rw [eachTime, eachTimeList_iff]

theorem eachTime_or {fs : List Formula} :
    (or fs).eachTime p = true ↔ ∀ f ∈ fs, f.eachTime p = true := by
  rw [eachTime, eachTimeList_iff]

theorem eachTime_leaves (f : Formula) (hf : f.eachTime p = true) :
    ∀ l ∈ leaves op f, l.eachTime p = true := fun l hl =>
  (forall_mem_leaves (p := fun f => f.eachTime p = true) (fun _ => eachTime_and.1)
    (fun _ => eachTime_or.1) f hf l hl).2

theorem eachTime_itemTest {ids : List ItemId} :
    ∀ f ∈ itemTest op ids, f.eachTime p = true := by
  match ids with
  | [] => exact List.forall_mem_nil _
  | [id] => exact List.forall_mem_singleton.2 rfl
  | id :: id' :: ids => cases op <;> exact List.forall_mem_singleton.2 rfl

theorem eachTime_join {fs : List Formula} (h : ∀ f ∈ fs, f.eachTime p = true) :
    (join op fs).eachTime p = true := by
  match fs with
  | [] => rfl
  | [f] => exact h f List.mem_cons_self
  | f :: g :: fs =>
    cases op
    · exact eachTime_and.2 h
    · exact eachTime_or.2 h

theorem eachTime_group {fs : List Formula} (h : ∀ f ∈ fs, f.eachTime p = true) :
    (group op fs).eachTime p = true := by
  unfold group
  dsimp only
  split
  · rfl
  · refine eachTime_join fun f hf => ?_
    rcases List.mem_append.1 hf with hf | hf
    · exact eachTime_itemTest f hf
    · obtain ⟨g, hg, hl⟩ := mem_leavesList.1 (List.mem_filter.1 (mem_firsts.1 hf)).1
      exact eachTime_leaves g (h g hg) f hl

theorem eachTime_negate {f : Formula} (h : f.eachTime p = true) :
    f.negate.eachTime p = true := by
  cases f <;> first | rfl | exact h

theorem eachTime_has {id : ItemId} {n : Int} : (has id n).eachTime p = true := by
  unfold has
  split
  · rfl
  · split <;> rfl

end Times

end Formula

end Rule

end Progression
