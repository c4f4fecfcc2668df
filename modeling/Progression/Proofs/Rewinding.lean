import Progression.Proofs.Orderly

/-!
# Taking back visits

Visits are meant to be taken back in the reverse order.  The snapshots of a search that was
never rewound are nested: what is visited in an earlier one is visited in every later one.
So the latest visit is in the latest snapshot only if that snapshot has all visits, and
going back to it loses none of the others.

But only the latest snapshot is looked at.  If the one below it has the same visits, the
search goes back once more when the next visit is taken back, and there the visit taken back
first is still made.  Two snapshots with the same visits are therefore harmless just when
there is at most one visit in them.

## Main definitions

* `Rewindable.unvisitAll` — take back several visits.
* `Rewindable.Unwinds` — taking back the latest visits leaves exactly the earlier ones.
* `Rewindable.Nested` — the snapshots are nested.

## Main results

* `Rewindable.Nested.unvisit_cons` — the first visit is always taken back well.
* `Rewindable.unwinds_iff` — **a search unwinds just when no two snapshots have the same
  visits, unless there is at most one.**
-/

namespace Progression

namespace Rewindable

variable {g : Multiworld} {r r' : Rewindable}

/-- Take back the visits to several locations, one after the other. -/
def unvisitAll : List LocationId → Rewindable → Except Search.Fault Rewindable
  | [], r => .ok r
  | id :: ids, r => do unvisitAll ids (← r.unvisit id)

/-- Taking back the latest visits, in the reverse order and however many, leaves exactly the
earlier ones. -/
def Unwinds (r : Rewindable) : Prop :=
  ∀ k ≤ r.live.progress.visited.length,
    ∃ r', unvisitAll (r.live.progress.visited.take k) r = .ok r' ∧
      ∀ l, l ∈ r'.live.progress.visited ↔ l ∈ r.live.progress.visited.drop k

/-! ### Nested snapshots -/

/-- What is visited in a snapshot is what was visited first in every later one. -/
structure Nested (r : Rewindable) : Prop where
  nodup : r.live.progress.visited.Nodup
  live : ∀ p ∈ r.history, p.visited <:+ r.live.progress.visited
  history : r.history.Pairwise fun p q => q.visited <:+ p.visited

theorem Onward.nested (h : Onward g r r') (hr : r.Nested) : r'.Nested := by
  induction h with
  | refl => exact hr
  | run _ hs ih =>
    exact ⟨hs.visited_nodup ih.nodup, fun p hp => (ih.live p hp).trans hs.visited_suffix,
      ih.history⟩
  | drop _ ih => exact ⟨ih.nodup, List.forall_mem_nil _, .nil⟩
  | checkpoint _ ih =>
    exact ⟨ih.nodup, List.forall_mem_cons.2 ⟨List.suffix_rfl, ih.live⟩,
      List.pairwise_cons.2 ⟨ih.live, ih.history⟩⟩

/-- Nothing is visited at the start. -/
theorem nested_of_start {invs : List Inventory} {s : Search}
    (hs : Search.start g invs = .ok s) : (of s).Nested :=
  ⟨Search.visited_start hs ▸ .nil, List.forall_mem_nil _, .nil⟩

/-! ### Taking back one visit -/

variable {l : LocationId} {ls : List LocationId}

/-- A snapshot with the latest visit has all of them. -/
theorem Nested.eq_of_mem (h : r.Nested) (hv : r.live.progress.visited = l :: ls) {p : Progress}
    (hp : p ∈ r.history) (hl : l ∈ p.visited) : p.visited = l :: ls := by
  have hsuffix := h.live p hp
  rw [hv, List.suffix_cons_iff] at hsuffix
  refine hsuffix.resolve_right fun hls => ?_
  have hnodup := h.nodup
  rw [hv, List.nodup_cons] at hnodup
  exact hnodup.1 (hls.subset hl)

/-- Going back for the latest visit loses no visit.  Either no snapshot has it, or the latest
one is dropped, which has the same visits as the search. -/
theorem Nested.popTo_cons (h : r.Nested) (hv : r.live.progress.visited = l :: ls) :
    (r.popTo l).live.progress.visited = l :: ls ∧
      ((r.popTo l).history = r.history ∧ (∀ p ∈ r.history, l ∉ p.visited) ∨
        ∃ p, p.visited = l :: ls ∧ r.history = p :: (r.popTo l).history) := by
  cases hh : r.history with
  | nil =>
    have hpop : r.popTo l = r := by rw [popTo, hh]
    rw [hpop]
    exact ⟨hv, .inl ⟨hh, List.forall_mem_nil _⟩⟩
  | cons p ps =>
    have hp : p ∈ r.history := by
      rw [hh]
      exact List.mem_cons_self
    by_cases hl : l ∈ p.visited
    · have hpop : r.popTo l = r.rewindTo p ps := by
        rw [popTo, hh]
        exact if_pos hl
      rw [hpop]
      have hpv := h.eq_of_mem hv hp hl
      exact ⟨hpv, .inr ⟨p, hpv, rfl⟩⟩
    · have hpop : r.popTo l = r := by
        rw [popTo, hh]
        exact if_neg hl
      rw [hpop]
      refine ⟨hv, .inl ⟨hh, List.forall_mem_cons.2 ⟨hl, fun q hq hlq => hl ?_⟩⟩⟩
      -- the earlier snapshots have fewer visits
      have hhistory := h.history
      rw [hh, List.pairwise_cons] at hhistory
      exact (hhistory.1 q hq).subset hlq

theorem unvisit_of_mem (hl : l ∈ r.live.progress.visited) :
    ∃ r', r.unvisit l = .ok r' ∧ r'.history = (r.popTo l).history ∧
      r'.live.progress.visited = (r.popTo l).live.progress.visited.filter (· ≠ l) :=
  ⟨_, if_pos (decide_eq_true hl), rfl, rfl⟩

/-- **The latest visit is taken back well.** -/
theorem Nested.unvisit_cons (h : r.Nested) (hv : r.live.progress.visited = l :: ls) :
    ∃ r', r.unvisit l = .ok r' ∧ r'.live.progress.visited = ls ∧
      (r'.history = r.history ∧ (∀ p ∈ r.history, l ∉ p.visited) ∨
        ∃ p, p.visited = l :: ls ∧ r.history = p :: r'.history) := by
  obtain ⟨r', hok, hhistory, hvisited⟩ := unvisit_of_mem (r := r) (l := l) (by simp [hv])
  obtain ⟨hpop, hcases⟩ := h.popTo_cons hv
  have hnodup := h.nodup
  rw [hv, List.nodup_cons] at hnodup
  refine ⟨r', hok, ?_, by rwa [hhistory]⟩
  rw [hvisited, hpop, List.filter_cons_of_neg (by simp), List.filter_eq_self]
  intro x hx
  exact decide_eq_true fun hxl => hnodup.1 (hxl ▸ hx)

/-- The snapshots stay nested if those that are left do not have the visit. -/
theorem Nested.of_unvisit (h : r.Nested) (hv : r.live.progress.visited = l :: ls)
    (hls : r'.live.progress.visited = ls) (hhistory : r'.history.Sublist r.history)
    (hl : ∀ p ∈ r'.history, l ∉ p.visited) : r'.Nested := by
  constructor
  case nodup =>
    have hnodup := h.nodup
    rw [hv, List.nodup_cons] at hnodup
    exact hls ▸ hnodup.2
  case live =>
    intro p hp
    have hsuffix := h.live p (hhistory.subset hp)
    rw [hv, List.suffix_cons_iff] at hsuffix
    rw [hls]
    refine hsuffix.resolve_left fun hpv => hl p hp ?_
    rw [hpv]
    exact List.mem_cons_self
  case history => exact h.history.sublist hhistory

/-! ### Taking back all visits -/

theorem unwinds_of_nil (hv : r.live.progress.visited = []) : r.Unwinds := by
  intro k _
  rw [hv, List.take_nil, List.drop_nil]
  exact ⟨r, rfl, fun l => by rw [hv]⟩

/-- Taking back all visits is taking back the latest one and then all others. -/
theorem unwinds_cons_iff (hv : r.live.progress.visited = l :: ls) (hok : r.unvisit l = .ok r')
    (hls : r'.live.progress.visited = ls) : r.Unwinds ↔ r'.Unwinds := by
  have htake : ∀ k, unvisitAll ((l :: ls).take (k + 1)) r = unvisitAll (ls.take k) r' := by
    intro k
    rw [List.take_succ_cons, unvisitAll, hok]
    rfl
  unfold Unwinds
  rw [hv, hls]
  constructor
  · intro h k hk
    obtain ⟨t, ht, hmem⟩ := h (k + 1) (Nat.succ_le_succ hk)
    exact ⟨t, htake k ▸ ht, hmem⟩
  · intro h k hk
    cases k with
    | zero => exact ⟨r, rfl, fun x => by rw [hv, List.drop_zero]⟩
    | succ k =>
      obtain ⟨t, ht, hmem⟩ := h k (Nat.le_of_succ_le_succ hk)
      exact ⟨t, (htake k).trans ht, hmem⟩

/-- If the latest snapshot still has a visit that was taken back, taking back the next one
makes it again. -/
theorem not_unwinds_of_snapshot {l' : LocationId} {p : Progress} {ps : List Progress}
    (hv : r.live.progress.visited = l' :: ls) (hh : r.history = p :: ps)
    (hp : p.visited = l :: l' :: ls) (hnodup : (l :: l' :: ls).Nodup) : ¬ r.Unwinds := by
  intro h
  obtain ⟨r', hok, hmem⟩ := h 1 (by simp [hv])
  obtain ⟨t, ht, -, hvisited⟩ := unvisit_of_mem (r := r) (l := l') (by simp [hv])
  have hpop : r.popTo l' = r.rewindTo p ps := by
    rw [popTo, hh]
    exact if_pos (by simp [hp])
  have hrt : r' = t := by
    rw [hv, List.take_succ_cons, List.take_zero, unvisitAll, ht] at hok
    cases hok
    rfl
  have hl : l ∉ l' :: ls := (List.nodup_cons.1 hnodup).1
  -- the visit was taken back before, and the snapshot has it
  have hmade : l ∈ t.live.progress.visited := by
    rw [hvisited, hpop]
    refine List.mem_filter.2 ⟨?_, decide_eq_true fun hll' => hl ?_⟩
    · change l ∈ p.visited
      rw [hp]
      exact List.mem_cons_self
    · rw [hll']
      exact List.mem_cons_self
  rw [← hrt, hmem, hv] at hmade
  exact hl (List.mem_cons_of_mem _ hmade)

/-- Where there is at most one visit, no two snapshots have the same two visits. -/
theorem Nested.pairwise_of_length_le (h : r.Nested)
    (hv : r.live.progress.visited.length ≤ 1) :
    r.history.Pairwise fun p q => p.visited = q.visited → p.visited.length ≤ 1 :=
  h.history.imp_of_mem fun hp _ _ _ => Nat.le_trans (h.live _ hp).length_le hv

/-- If an earlier snapshot has the latest visit as well, then the latest one of these has all
visits. -/
theorem Nested.exists_twin (h : r.Nested) (hv : r.live.progress.visited = l :: ls)
    {p : Progress} {ps : List Progress} (hh : r.history = p :: ps) {q : Progress} (hq : q ∈ ps)
    (hl : l ∈ q.visited) : ∃ t ts, ps = t :: ts ∧ t.visited = l :: ls := by
  have hhistory := h.history
  rw [hh, List.pairwise_cons] at hhistory
  cases ps with
  | nil => cases hq
  | cons t ts =>
    refine ⟨t, ts, rfl, h.eq_of_mem hv (by simp [hh]) ?_⟩
    rcases List.mem_cons.1 hq with rfl | hq
    · exact hl
    · exact ((List.pairwise_cons.1 hhistory.2).1 q hq).subset hl

/-- **With nested snapshots a search unwinds just when no two snapshots have the same
visits**, unless there is at most one. -/
theorem Nested.unwinds_iff_pairwise (h : r.Nested) :
    r.Unwinds ↔
      r.history.Pairwise fun p q => p.visited = q.visited → p.visited.length ≤ 1 := by
  generalize hv : r.live.progress.visited = ls
  -- by induction on the visits: each one that is taken back leaves nested snapshots, or else
  -- one that makes it again when the next one is taken back
  induction ls generalizing r with
  | nil => exact iff_of_true (unwinds_of_nil hv) (h.pairwise_of_length_le (by simp [hv]))
  | cons l ls ih =>
    have hnodup := h.nodup
    rw [hv] at hnodup
    obtain ⟨r', hok, hls, hcases⟩ := h.unvisit_cons hv
    rw [unwinds_cons_iff hv hok hls]
    rcases hcases with ⟨hsame, hfree⟩ | ⟨p, hp, hh⟩
    · rw [← hsame] at hfree ⊢
      exact ih (h.of_unvisit hv hls (hsame ▸ List.Sublist.refl _) hfree) hls
    · by_cases htwin : ∃ q ∈ r'.history, l ∈ q.visited
      · obtain ⟨q, hq, hlq⟩ := htwin
        obtain ⟨t, ts, hh', ht⟩ := h.exists_twin hv hh hq hlq
        cases ls with
        | nil =>
          exact iff_of_true (unwinds_of_nil hls) (h.pairwise_of_length_le (by simp [hv]))
        | cons l' ls =>
          refine iff_of_false (not_unwinds_of_snapshot hls hh' ht hnodup) fun hpairs => ?_
          rw [hh, hh', List.pairwise_cons] at hpairs
          have hlength := hpairs.1 t List.mem_cons_self (hp.trans ht.symm)
          rw [hp, List.length_cons, List.length_cons] at hlength
          omega
      · -- no further snapshot has the visit, so none has the visits of the dropped one
        have hfree : ∀ q ∈ r'.history, l ∉ q.visited := fun q hq hlq => htwin ⟨q, hq, hlq⟩
        rw [ih (h.of_unvisit hv hls (hh ▸ List.sublist_cons_self p _) hfree) hls, hh,
          List.pairwise_cons]
        refine (and_iff_right fun q hq hpq => absurd ?_ (hfree q hq)).symm
        rw [← hpq, hp]
        exact List.mem_cons_self

/-- **A search that was never rewound unwinds just when no two of its snapshots have the same
visits, unless there is at most one.** -/
theorem unwinds_iff {invs : List Inventory} {s : Search} (hs : Search.start g invs = .ok s)
    (h : Onward g (of s) r) :
    r.Unwinds ↔
      r.history.Pairwise fun p q => p.visited = q.visited → p.visited.length ≤ 1 :=
  (h.nested (nested_of_start hs)).unwinds_iff_pairwise

/-- With both chests visited, one snapshot does no harm, but a second one does. -/
theorem unwinds_hallWorld :
    ∃ s, Search.start hallWorld hallWorld.initialInventories = .ok s ∧
      let r : Rewindable := { of s with live := (s.visit ⟨0⟩).visit ⟨1⟩ }
      r.checkpoint.Unwinds ∧ ¬ r.checkpoint.checkpoint.Unwinds := by
  obtain ⟨s, hs⟩ := Search.exists_start_initial hallWorld
  have hrun : Onward hallWorld (of s) { of s with live := (s.visit ⟨0⟩).visit ⟨1⟩ } :=
    .run .refl ((Search.Run.visit ⟨0⟩ .refl).visit ⟨1⟩)
  have hvisited : ((s.visit ⟨0⟩).visit ⟨1⟩).progress.visited = [⟨1⟩, ⟨0⟩] := by
    rw [Search.eq_of_start hs]
    rfl
  refine ⟨s, hs, (unwinds_iff hs hrun.checkpoint).2 (List.pairwise_singleton ..), fun h => ?_⟩
  have hpairs := (unwinds_iff hs hrun.checkpoint.checkpoint).1 h
  have hlength := (List.pairwise_cons.1 hpairs).1 _ List.mem_cons_self rfl
  change ((s.visit ⟨0⟩).visit ⟨1⟩).progress.visited.length ≤ 1 at hlength
  rw [hvisited] at hlength
  exact absurd hlength (by decide)

/-- With two snapshots of both visits, taking back the first visit makes the second one again,
which was taken back before. -/
theorem revisits_hallWorld :
    ∃ s, Search.start hallWorld hallWorld.initialInventories = .ok s ∧
      let r : Rewindable := { of s with live := (s.visit ⟨0⟩).visit ⟨1⟩ }
      Onward hallWorld (of s) r.checkpoint.checkpoint ∧
        r.checkpoint.checkpoint.live.progress.visited = [⟨1⟩, ⟨0⟩] ∧
        ∃ t, unvisitAll [⟨1⟩, ⟨0⟩] r.checkpoint.checkpoint = .ok t ∧
          t.live.progress.visited = [⟨1⟩] := by
  obtain ⟨s, hs⟩ := Search.exists_start_initial hallWorld
  have hrun : Onward hallWorld (of s) { of s with live := (s.visit ⟨0⟩).visit ⟨1⟩ } :=
    .run .refl ((Search.Run.visit ⟨0⟩ .refl).visit ⟨1⟩)
  refine ⟨s, hs, hrun.checkpoint.checkpoint, ?_⟩
  obtain rfl := Search.eq_of_start hs
  exact ⟨rfl, _, rfl, rfl⟩

end Rewindable

end Progression
