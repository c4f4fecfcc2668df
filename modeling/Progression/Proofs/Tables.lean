import Mathlib.Data.List.Induction
import Mathlib.Logic.Function.Iterate
import Mathlib.Order.Defs.Unbundled
import Progression.Table

/-!
# Tables in ascending order

A table that is built by binding keys has its keys in ascending order.  No key has two entries
then, and to bind a key changes what is found under it and nothing else.

## Main definitions

* `Table.Ascending` — the keys ascend.

## Main results

* `Table.Ascending.update` — binding a key keeps the order.
* `Table.Ascending.find?_update` — what is found once a key is bound.
* `Table.Ascending.find?_foldl_update` — what is found once a list of keys is gone through.
* `Table.find?_ofList_iff` — a table of a list of bindings finds what is in the list.
-/

namespace Progression.Table

variable {κ α : Type} [LT κ]

/-- The keys ascend. -/
def Ascending (t : Table κ α) : Prop := t.Pairwise fun a b => a.1 < b.1

theorem ascending_nil : Ascending ([] : Table κ α) := .nil

theorem ascending_cons {e : κ × α} {t : Table κ α} :
    Ascending (e :: t) ↔ (∀ e' ∈ t, e.1 < e'.1) ∧ Ascending t := List.pairwise_cons

variable [DecidableEq κ]

/-- A key that comes before all others is not bound. -/
theorem find?_eq_none_of_lt [Std.Irrefl (α := κ) (· < ·)] {k : κ} {t : Table κ α}
    (h : ∀ e ∈ t, k < e.1) : t.find? k = none := by
  induction t with
  | nil => rfl
  | cons e t ih =>
    obtain ⟨he, ht⟩ := List.forall_mem_cons.1 h
    have hne : e.1 ≠ k := by
      intro heq
      rw [heq] at he
      exact irrefl k he
    rw [find?_cons, if_neg hne, ih ht]

variable [DecidableLT κ]

theorem mem_update {k : κ} {f : Option α → α} {e : κ × α} {t : Table κ α}
    (h : e ∈ update k f t) : e.1 = k ∨ e ∈ t := by
  induction t with
  | nil =>
    obtain rfl := List.mem_singleton.1 h
    exact .inl rfl
  | cons e' t ih =>
    rw [update] at h
    split at h
    · rcases List.mem_cons.1 h with rfl | h
      · exact .inl rfl
      · exact .inr (List.mem_cons_of_mem _ h)
    · split at h
      · rcases List.mem_cons.1 h with rfl | h
        · exact .inl rfl
        · exact .inr h
      · rcases List.mem_cons.1 h with rfl | h
        · exact .inr List.mem_cons_self
        · exact (ih h).imp_right (List.mem_cons_of_mem _)

theorem ofList_concat (bindings : List (κ × α)) (e : κ × α) :
    ofList (bindings ++ [e]) = (ofList bindings).insert e.1 e.2 := by
  rw [ofList, List.foldl_append]
  rfl

variable [IsStrictTotalOrder κ (· < ·)]

namespace Ascending

variable {t : Table κ α}

theorem update (h : t.Ascending) (k : κ) (f : Option α → α) : (t.update k f).Ascending := by
  induction t with
  | nil => exact List.pairwise_singleton _ _
  | cons e t ih =>
    obtain ⟨hlt, ht⟩ := ascending_cons.1 h
    rw [Table.update]
    split
    · next heq =>
      subst heq
      exact ascending_cons.2 ⟨hlt, ht⟩
    · next hne =>
      split
      · next hk =>
        refine ascending_cons.2 ⟨fun e' he' => ?_, h⟩
        rcases List.mem_cons.1 he' with rfl | he'
        · exact hk
        · exact IsTrans.trans k e.1 e'.1 hk (hlt e' he')
      · next hk =>
        have hek : e.1 < k := (trichotomous e.1 k).resolve_right fun h => h.elim hne hk
        refine ascending_cons.2 ⟨fun e' he' => ?_, ih ht⟩
        rcases mem_update he' with heq | he'
        · rwa [heq]
        · exact hlt e' he'

/-- To bind a key changes what is found under it, and nothing else. -/
theorem find?_update (h : t.Ascending) (k k' : κ) (f : Option α → α) :
    (t.update k f).find? k' = if k = k' then some (f (t.find? k)) else t.find? k' := by
  induction t with
  | nil => rw [Table.update, find?_cons, find?_nil, find?_nil]
  | cons e t ih =>
    obtain ⟨hlt, ht⟩ := ascending_cons.1 h
    rw [Table.update]
    split
    · next heq =>
      subst heq
      rw [find?_cons, find?_cons, find?_cons, if_pos rfl]
      split <;> rfl
    · next hne =>
      split
      · next hk =>
        have hnone : find? k (e :: t) = none := by
          refine find?_eq_none_of_lt fun e' he' => ?_
          rcases List.mem_cons.1 he' with rfl | he'
          · exact hk
          · exact IsTrans.trans k e.1 e'.1 hk (hlt e' he')
        rw [hnone, find?_cons]
      · rw [find?_cons, ih ht, find?_cons, find?_cons, if_neg hne]
        split
        · next heq =>
          subst heq
          rw [if_neg (Ne.symm hne)]
        · rfl

/-- To go through a list of keys changes what is found under a key once for each time that the
key is in the list. -/
theorem find?_foldl_update (h : t.Ascending) (ks : List κ) (f : κ → α → α) (init : α) (k : κ) :
    (ks.foldl (fun t k => t.update k fun v => f k (v.getD init)) t).find? k =
      if k ∈ ks then some ((f k)^[ks.count k] ((t.find? k).getD init)) else t.find? k := by
  induction ks generalizing t with
  | nil => rfl
  | cons k' ks ih =>
    rw [List.foldl_cons, ih (h.update k' _), h.find?_update]
    by_cases heq : k' = k
    · subst heq
      rw [if_pos rfl, if_pos List.mem_cons_self, List.count_cons_self,
        Function.iterate_succ_apply, Option.getD_some]
      split
      · rfl
      · next hk => rw [List.count_eq_zero_of_not_mem hk, Function.iterate_zero_apply]
    · rw [if_neg heq, List.count_cons_of_ne heq]
      simp only [List.mem_cons, Ne.symm heq, false_or]

end Ascending

/-! ### Tables of lists -/

theorem ascending_ofList (bindings : List (κ × α)) : (ofList bindings).Ascending := by
  induction bindings using List.reverseRecOn with
  | nil => exact ascending_nil
  | append_singleton bindings e ih =>
    rw [ofList_concat]
    exact ih.update e.1 _

theorem find?_ofList_concat (bindings : List (κ × α)) (e : κ × α) (k : κ) :
    (ofList (bindings ++ [e])).find? k =
      if e.1 = k then some e.2 else (ofList bindings).find? k := by
  rw [ofList_concat, insert, (ascending_ofList bindings).find?_update]

/-- A table of a list of bindings finds what is in the list, if no key is bound twice. -/
theorem find?_ofList_iff {bindings : List (κ × α)}
    (h : ∀ k v w, (k, v) ∈ bindings → (k, w) ∈ bindings → v = w) {k : κ} {v : α} :
    (ofList bindings).find? k = some v ↔ (k, v) ∈ bindings := by
  induction bindings using List.reverseRecOn with
  | nil => simp [ofList]
  | append_singleton bindings e ih =>
    obtain ⟨key, w⟩ := e
    have hlast : (key, w) ∈ bindings ++ [(key, w)] := by simp
    have hbefore : ∀ k v w, (k, v) ∈ bindings → (k, w) ∈ bindings → v = w := fun k v w hv hw =>
      h k v w (List.mem_append_left _ hv) (List.mem_append_left _ hw)
    rw [find?_ofList_concat]
    split
    · next hkey =>
      subst hkey
      constructor
      · intro hv
        cases hv
        exact hlast
      · intro hv
        rw [h key v w hv hlast]
    · next hkey =>
      rw [ih hbefore, List.mem_append, List.mem_singleton, Prod.mk.injEq]
      refine ⟨.inl, fun hmem => hmem.resolve_right ?_⟩
      rintro ⟨hk, -⟩
      exact hkey hk.symm

end Progression.Table
