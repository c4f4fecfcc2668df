import Mathlib.Data.List.Sort
import Progression.Proofs.Folding

/-!
# What a connective is made of

A connective is put together from its leaves, that is from its operands once those of its own
kind are opened.  Only three things about the leaves show in it: whether one of them is the
constant that decides it, which items they test for, and which other leaves there are, in the
order in which they come up first.  So it makes no difference how the operands of one connective
are put in parentheses, nor in which order, how often or where between the others the tests for
items stand.

## Main definitions

* `Formula.testedItems`, `Formula.others` — what the leaves test for, and the other leaves.
* `Formula.ofLeaves` — the connective of some leaves.
* `Formula.Interchangeable` — leaves that make the same connective, whatever stands around them.

## Main results

* `Formula.testedItems_pairwise`, `Formula.others_nodup` — the items ascend, and nothing is said
  twice.
* `Formula.group_parenthesized` — **operands can be put in parentheses.**
* `Formula.group_congr_items` — **only the set of the tests for items matters.**
-/

namespace Progression

/-! ### Ascending lists of items -/

instance : Std.Irrefl (α := ItemId) (· < ·) := ⟨fun a h => Nat.lt_irrefl a.index h⟩

instance : Std.Antisymm (α := ItemId) (· < ·) :=
  ⟨fun _ _ h h' => absurd h' (Nat.lt_asymm h)⟩

/-- An item is put in its place in an ascending list. -/
theorem pairwise_insertKey {id : ItemId} {ids : List ItemId} (h : ids.Pairwise (· < ·)) :
    (insertKey id ids).Pairwise (· < ·) := by
  induction ids with
  | nil => exact List.pairwise_singleton ..
  | cons x xs ih =>
    obtain ⟨hx, hxs⟩ := List.pairwise_cons.1 h
    unfold insertKey
    split
    · exact h
    · next hne =>
      split
      · next hlt =>
        -- what comes after the next greater item is greater still
        refine List.pairwise_cons.2 ⟨fun y hy => ?_, h⟩
        rcases List.mem_cons.1 hy with rfl | hy
        · exact hlt
        · exact Nat.lt_trans hlt (hx y hy)
      · next hnlt =>
        refine List.pairwise_cons.2 ⟨fun y hy => ?_, ih hxs⟩
        rcases mem_insertKey.1 hy with rfl | hy
        · refine Nat.lt_of_le_of_ne (Nat.le_of_not_lt hnlt) fun heq => hne ?_
          exact congrArg ItemId.mk heq
        · exact hx y hy

theorem pairwise_foldr_insertKey (ids : List ItemId) :
    (ids.foldr insertKey []).Pairwise (· < ·) := by
  induction ids with
  | nil => exact .nil
  | cons id ids ih => exact pairwise_insertKey ih

namespace Rule.Formula

variable {op : Connective}

/-! ### First occurrences -/

theorem firsts_append (fs gs : List Formula) :
    firsts (fs ++ gs) = firsts fs ++ (firsts gs).filter (· ∉ fs) := by
  induction fs with
  | nil => simp [firsts]
  | cons f fs ih =>
    rw [List.cons_append, firsts, firsts, ih, List.filter_append, List.filter_filter,
      List.cons_append]
    congr 2
    refine List.filter_congr fun g _ => ?_
    by_cases h : g = f <;> simp [h]

theorem nodup_firsts (fs : List Formula) : (firsts fs).Nodup := by
  induction fs with
  | nil => exact .nil
  | cons f fs ih =>
    rw [firsts, List.nodup_cons]
    exact ⟨by simp, ih.filter _⟩

theorem firsts_eq_self {fs : List Formula} (h : fs.Nodup) : firsts fs = fs := by
  induction fs with
  | nil => rfl
  | cons f fs ih =>
    obtain ⟨hf, hfs⟩ := List.nodup_cons.1 h
    rw [firsts, ih hfs, List.filter_eq_self.2]
    rintro g hg
    exact bne_iff_ne.2 fun heq => hf (heq ▸ hg)

/-! ### Leaves -/

theorem leavesList_append (fs gs : List Formula) :
    leavesList op (fs ++ gs) = leavesList op fs ++ leavesList op gs := by
  rw [leavesList_eq_flatMap, List.flatMap_append, ← leavesList_eq_flatMap,
    ← leavesList_eq_flatMap]

/-- No leaf of a connective is of its own kind. -/
theorem kind_of_mem_leavesList {fs : List Formula} {l : Formula} (h : l ∈ leavesList op fs) :
    l.kind? ≠ some op := by
  obtain ⟨f, -, hl⟩ := mem_leavesList.1 h
  exact (forall_mem_leaves (p := fun _ => True) (fun _ _ _ _ => trivial)
    (fun _ _ _ _ => trivial) f trivial l hl).1

theorem leavesList_eq_self {fs : List Formula} (h : ∀ f ∈ fs, f.kind? ≠ some op) :
    leavesList op fs = fs := by
  rw [leavesList_eq_flatMap, List.flatMap_congr fun f hf => leaves_of_kind (h f hf)]
  exact List.flatMap_singleton' fs

/-! ### The connective of some leaves -/

/-- The items that some leaves test for. -/
def testedItems (op : Connective) (ls : List Formula) : List ItemId :=
  (ls.flatMap fun l => (mergedItems op l).getD []).foldr insertKey []

/-- The leaves that are neither constants nor merged, each where it comes up first. -/
def others (op : Connective) (ls : List Formula) : List Formula :=
  firsts (ls.filter (isOther op))

/-- The operands of the connective of some leaves. -/
def operandsOf (op : Connective) (ls : List Formula) : List Formula :=
  itemTest op (testedItems op ls) ++ others op ls

/-- The connective of some leaves. -/
def ofLeaves (op : Connective) (ls : List Formula) : Formula :=
  if ls.contains (.const (absorbing op)) then .const (absorbing op) else join op (operandsOf op ls)

theorem group_eq (op : Connective) (fs : List Formula) :
    group op fs = ofLeaves op (leavesList op fs) := rfl

theorem ofLeaves_of_mem {ls : List Formula} (h : .const (absorbing op) ∈ ls) :
    ofLeaves op ls = .const (absorbing op) :=
  if_pos (List.contains_iff_mem.2 h)

theorem ofLeaves_of_not_mem {ls : List Formula} (h : .const (absorbing op) ∉ ls) :
    ofLeaves op ls = join op (operandsOf op ls) :=
  if_neg fun hc => h (List.contains_iff_mem.1 hc)

theorem mem_testedItems {ls : List Formula} {id : ItemId} :
    id ∈ testedItems op ls ↔ ∃ l ∈ ls, id ∈ (mergedItems op l).getD [] := by
  rw [testedItems, mem_foldr_insertKey, List.mem_flatMap]

theorem mem_testedItems_append {ls ls' : List Formula} {id : ItemId} :
    id ∈ testedItems op (ls ++ ls') ↔ id ∈ testedItems op ls ∨ id ∈ testedItems op ls' := by
  simp only [mem_testedItems, List.mem_append, or_and_right, exists_or]

theorem testedItems_pairwise (op : Connective) (ls : List Formula) :
    (testedItems op ls).Pairwise (· < ·) :=
  pairwise_foldr_insertKey _

theorem others_nodup (op : Connective) (ls : List Formula) : (others op ls).Nodup :=
  nodup_firsts _

theorem mem_others {ls : List Formula} {l : Formula} :
    l ∈ others op ls ↔ l ∈ ls ∧ isOther op l = true := by
  rw [others, mem_firsts, List.mem_filter]

theorem others_append (ls ls' : List Formula) :
    others op (ls ++ ls') = others op ls ++ (others op ls').filter (· ∉ ls) := by
  rw [others, List.filter_append, firsts_append]
  refine congrArg (others op ls ++ ·) (List.filter_congr fun l hl => ?_)
  -- what is to be left out is neither a constant nor merged
  simp [(mem_others.1 hl).2]

theorem mergedItems_of_isOther {l : Formula} (h : isOther op l = true) :
    mergedItems op l = none := by
  cases l with
  | const b => rfl
  | _ => exact Option.isNone_iff_eq_none.1 h

/-! ### The same connective -/

/-- Some leaves make the same connective as others, whatever stands around them. -/
structure Interchangeable (op : Connective) (ls ls' : List Formula) : Prop where
  absorbs : .const (absorbing op) ∈ ls ↔ .const (absorbing op) ∈ ls'
  tested : ∀ id, id ∈ testedItems op ls ↔ id ∈ testedItems op ls'
  others : others op ls = others op ls'

namespace Interchangeable

variable {ls ls' ks : List Formula}

theorem refl (op : Connective) (ls : List Formula) : Interchangeable op ls ls :=
  ⟨Iff.rfl, fun _ => Iff.rfl, rfl⟩

theorem ofLeaves_eq (h : Interchangeable op ls ls') : ofLeaves op ls = ofLeaves op ls' := by
  have htested : testedItems op ls = testedItems op ls' :=
    (testedItems_pairwise op ls).eq_of_mem_iff (testedItems_pairwise op ls') h.tested
  by_cases hc : .const (absorbing op) ∈ ls
  · rw [ofLeaves_of_mem hc, ofLeaves_of_mem (h.absorbs.1 hc)]
  · rw [ofLeaves_of_not_mem hc, ofLeaves_of_not_mem fun hc' => hc (h.absorbs.2 hc'), operandsOf,
      operandsOf, htested, h.others]

/-- The same leaves may stand before. -/
theorem append_left (h : Interchangeable op ls ls') (ks : List Formula) :
    Interchangeable op (ks ++ ls) (ks ++ ls') where
  absorbs := by rw [List.mem_append, List.mem_append, h.absorbs]
  tested id := by rw [mem_testedItems_append, mem_testedItems_append, h.tested]
  others := by rw [others_append, others_append, h.others]

/-- The same leaves may stand behind. -/
theorem append_right (h : Interchangeable op ls ls') (ks : List Formula) :
    Interchangeable op (ls ++ ks) (ls' ++ ks) where
  absorbs := by rw [List.mem_append, List.mem_append, h.absorbs]
  tested id := by rw [mem_testedItems_append, mem_testedItems_append, h.tested]
  others := by
    rw [others_append, others_append, h.others]
    refine congrArg (Formula.others op ls' ++ ·) (List.filter_congr fun l hl => ?_)
    -- a leaf that comes up before does so on either side
    have hother := (mem_others.1 hl).2
    have hmem : l ∈ Formula.others op ls ↔ l ∈ Formula.others op ls' := by rw [h.others]
    rw [mem_others, mem_others, and_iff_left hother, and_iff_left hother] at hmem
    rw [decide_eq_decide, hmem]

end Interchangeable

/-! ### Parentheses -/

/-- What is put together of items is merged with them again. -/
theorem mergedItems_of_mem_itemTest {ids : List ItemId} {l : Formula} (h : l ∈ itemTest op ids) :
    mergedItems op l = some ids := by
  match ids with
  | [] => cases h
  | [id] =>
    cases List.mem_singleton.1 h
    rfl
  | id :: id' :: ids => cases op <;> cases List.mem_singleton.1 h <;> rfl

theorem kind_of_mergedItems {ids : List ItemId} {l : Formula}
    (h : mergedItems op l = some ids) : l.kind? = none := by
  cases l with
  | and fs | or fs => cases h
  | _ => rfl

/-- No operand of a connective is of its own kind. -/
theorem kind_of_mem_operandsOf {fs : List Formula} {l : Formula}
    (h : l ∈ operandsOf op (leavesList op fs)) : l.kind? ≠ some op := by
  rcases List.mem_append.1 h with h | h
  · rw [kind_of_mergedItems (mergedItems_of_mem_itemTest h)]
    exact nofun
  · exact kind_of_mem_leavesList (mem_others.1 h).1

/-- A connective of leaves is opened again, unless there are none. -/
theorem leaves_join {ls : List Formula} (h : ∀ l ∈ ls, l.kind? ≠ some op) (hne : ls ≠ []) :
    leaves op (join op ls) = ls := by
  match ls with
  | [] => exact absurd rfl hne
  | [l] => exact leaves_of_kind (h l List.mem_cons_self)
  | l :: l' :: ls =>
    cases op with
    | and => exact leavesList_eq_self h
    | or => exact leavesList_eq_self h

/-- A merged test asks for its items. -/
theorem mem_testedItems_itemTest {ids : List ItemId} {id : ItemId} :
    id ∈ testedItems op (itemTest op ids) ↔ id ∈ ids := by
  rw [mem_testedItems]
  match ids with
  | [] => simp [itemTest]
  | [id'] => simp [itemTest, mergedItems]
  | id' :: id'' :: ids => cases op <;> simp [itemTest, mergedItems]

theorem filter_isOther_itemTest (ids : List ItemId) :
    (itemTest op ids).filter (isOther op) = [] := by
  refine List.filter_eq_nil_iff.2 fun l hl hother => ?_
  have hmerged := mergedItems_of_mem_itemTest hl
  rw [mergedItems_of_isOther hother] at hmerged
  cases hmerged

/-- The operands of a connective can take the place of the leaves that it is put together
from. -/
theorem interchangeable_operandsOf {ls : List Formula} (hc : .const (absorbing op) ∉ ls) :
    Interchangeable op (operandsOf op ls) ls where
  absorbs := by
    refine iff_of_false (fun h => ?_) hc
    rcases List.mem_append.1 h with h | h
    · cases mergedItems_of_mem_itemTest h
    · exact hc (mem_others.1 h).1
  tested id := by
    have hothers : id ∉ testedItems op (others op ls) := by
      rw [mem_testedItems]
      rintro ⟨l, hl, hid⟩
      rw [mergedItems_of_isOther (mem_others.1 hl).2] at hid
      cases hid
    rw [operandsOf, mem_testedItems_append, mem_testedItems_itemTest, or_iff_left hothers]
  others := by
    have hothers : (others op ls).filter (isOther op) = others op ls :=
      List.filter_eq_self.2 fun l hl => (mem_others.1 hl).2
    rw [others, operandsOf, List.filter_append, filter_isOther_itemTest, List.nil_append, hothers,
      firsts_eq_self (others_nodup op ls)]

/-- The neutral constant can take the place of no leaves at all. -/
theorem interchangeable_neutral : Interchangeable op [.const !absorbing op] [] where
  absorbs := by cases op <;> simp
  tested id := by simp [mem_testedItems, mergedItems]
  others := rfl

/-- **Operands can be put in parentheses**: a connective among the operands of one of its kind
can be replaced by its own operands. -/
theorem group_parenthesized (op : Connective) (xs ys zs : List Formula) :
    group op (xs ++ [group op ys] ++ zs) = group op (xs ++ ys ++ zs) := by
  have hleaves : leavesList op [group op ys] = leaves op (group op ys) := List.append_nil _
  simp only [group_eq op (_ ++ _), leavesList_append, hleaves]
  by_cases hc : .const (absorbing op) ∈ leavesList op ys
  · -- the deciding constant decides both
    rw [group_eq, ofLeaves_of_mem hc, ofLeaves_of_mem, ofLeaves_of_mem]
    · simp [hc]
    · simp [leaves]
  · refine Interchangeable.ofLeaves_eq (.append_right (.append_left ?_ _) _)
    have hoperands := interchangeable_operandsOf hc
    rw [group_eq, ofLeaves_of_not_mem hc]
    by_cases hne : operandsOf op (leavesList op ys) = []
    · rw [hne] at hoperands ⊢
      exact ⟨interchangeable_neutral.absorbs.trans hoperands.absorbs,
        fun id => (interchangeable_neutral.tested id).trans (hoperands.tested id),
        interchangeable_neutral.others.trans hoperands.others⟩
    · rw [leaves_join (fun l hl => kind_of_mem_operandsOf hl) hne]
      exact hoperands

/-! ### Tests for items -/

/-- Whether a formula is the test for one item. -/
def isItem : Formula → Bool
  | .item _ => true
  | _ => false

/-- The leaves that are not merged do not come from tests for items. -/
theorem filter_isOther_leavesList (fs : List Formula) :
    (leavesList op fs).filter (isOther op) =
      (leavesList op (fs.filter (!·.isItem))).filter (isOther op) := by
  induction fs with
  | nil => rfl
  | cons f fs ih =>
    rw [leavesList, List.filter_append, ih]
    cases f with
    | item id => rfl
    | _ => exact (List.filter_append ..).symm

/-- **Only the set of the tests for items matters**, not their order, their places between the
other operands, nor how often they are repeated. -/
theorem group_congr_items (op : Connective) {xs ys : List Formula}
    (hothers : xs.filter (!·.isItem) = ys.filter (!·.isItem))
    (hitems : ∀ id, .item id ∈ xs ↔ .item id ∈ ys) : group op xs = group op ys := by
  have hmem : ∀ f, f ∈ xs ↔ f ∈ ys := by
    intro f
    cases hf : f.isItem with
    | true =>
      cases f with
      | item id => exact hitems id
      | _ => cases hf
    | false =>
      have hfilter : f ∈ xs.filter (!·.isItem) ↔ f ∈ ys.filter (!·.isItem) := by rw [hothers]
      simpa [List.mem_filter, hf] using hfilter
  have hleaves : ∀ l, l ∈ leavesList op xs ↔ l ∈ leavesList op ys := by
    intro l
    simp only [mem_leavesList, hmem]
  rw [group_eq, group_eq]
  refine Interchangeable.ofLeaves_eq ⟨hleaves _, fun id => ?_, ?_⟩
  · simp only [mem_testedItems, hleaves]
  · rw [others, filter_isOther_leavesList, hothers, ← filter_isOther_leavesList, others]

end Rule.Formula

end Progression
