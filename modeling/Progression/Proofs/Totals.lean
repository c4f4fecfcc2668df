import Progression.Proofs.Counters
import Progression.Proofs.Stock

/-!
# Totals that are too great

A counter stops at the greatest count, but the total of several counters does not: it is added up
as it comes, and there is none any more once a sum is no count.  One counter can be brought to the
greatest count by collecting the same item again and again, and an item that counts as many copies
of another one brings it there at once.  So what matters is how many of the items that a total is
over can be counted at all.  If there are two of them, some run of collecting is too much for the
total, and a rule that asks for it stops.

Boss keys that come with a ring are set and not added to.  A key that is counted in no other way
counts one at most.

## Main definitions

* `Inventory.countable`, `Inventory.unbounded` — an item can be counted, and as often as one likes.
* `Inventory.Change.copies` — the copies that a change brings.

## Main results

* `Inventory.countOf_eq_some_iff` — a total is exact.
* `Formula.never_stops_iff` — rules stop only at the totals that groups are asked for.
* `Inventory.sum_count_after_le` — there are no more copies than were collected.
* `Inventory.fits_after_iff` — **the items whose total is a count whatever is collected.**
-/

namespace Progression

open Rule

namespace Inventory

variable {b : Bearings} {es : List ItemEntry} {ids : List ItemId} {id : ItemId} {m : Counters}

/-- The exact number of copies of some items. -/
def Counters.sum (m : Counters) (ids : List ItemId) : Nat := (ids.map fun id => (m id).toNat).sum

/-- A total is exact. -/
theorem countOf_eq_some_iff (inv : Inventory) (ids : List ItemId) (n : Count) :
    inv.countOf ids = some n ↔ Counters.sum inv.count ids = n.toNat := by
  rw [countOf_eq]
  exact Count.ofNat?_eq_some_iff

/-- There is none just when it would be too great. -/
theorem isSome_countOf_iff (inv : Inventory) (ids : List ItemId) :
    (inv.countOf ids).isSome = true ↔ Counters.sum inv.count ids ≤ Count.greatest := by
  rw [countOf_eq, Count.ofNat?, Option.isSome_ite]
  rfl

theorem totalsFit_iff {inv : Inventory} :
    inv.TotalsFit ↔ ∀ t : Tally, (t.value inv).isSome = true := by
  have hfits : inv.TotalsFit ↔
      ∀ ids ∈ inv.bearings.groups.totalled, (inv.countOf ids).isSome = true :=
    forall₂_congr fun ids _ => (isSome_countOf_iff inv ids).symm
  rw [hfits]
  simp only [ItemGroups.totalled, List.forall_mem_cons, List.not_mem_nil, false_implies,
    implies_true, and_true]
  constructor
  · rintro ⟨hmedallions, hstones, hrewards, hbuttons⟩ t
    cases t with
    | hearts => rfl
    | medallions => exact hmedallions
    | stones => exact hstones
    | dungeonRewards => exact hrewards
    | ocarinaButtons => exact hbuttons
  · exact fun h => ⟨h .medallions, h .stones, h .dungeonRewards, h .ocarinaButtons⟩

end Inventory

/-! ### Rules that stop -/

namespace Rule.Formula

variable {σ : Type} {ask : Query → σ → Bool × σ} {cx : Situation}

theorem stopsAll_eq_false {fs : List Formula} (h : ∀ f ∈ fs, ∀ s, f.stops ask cx s = false)
    (s : σ) : stopsAll ask cx fs s = false := by
  induction fs generalizing s with
  | nil => rfl
  | cons f fs ih =>
    obtain ⟨hf, hfs⟩ := List.forall_mem_cons.1 h
    rw [stopsAll_cons, hf, ih hfs, Bool.and_false, Bool.or_false]

theorem stopsAny_eq_false {fs : List Formula} (h : ∀ f ∈ fs, ∀ s, f.stops ask cx s = false)
    (s : σ) : stopsAny ask cx fs s = false := by
  induction fs generalizing s with
  | nil => rfl
  | cons f fs ih =>
    obtain ⟨hf, hfs⟩ := List.forall_mem_cons.1 h
    rw [stopsAny_cons, hf, ih hfs, Bool.and_false, Bool.or_false]

/-- **No rule stops just when no total that is asked for is too great.** -/
theorem never_stops_iff {s : σ} :
    (∀ f : Formula, f.stops ask cx s = false) ↔ cx.inventory.TotalsFit := by
  rw [Inventory.totalsFit_iff]
  constructor
  · intro h t
    have hstops := h (.atLeast t 0)
    rwa [stops, Option.isNone_eq_false_iff] at hstops
  · intro h f
    induction f using Formula.induction generalizing s with
    | const | item | count | any | all | compare | bottle | allGoals | won => rfl
    | and fs ih => exact stopsAll_eq_false (fun f hf _ => ih f hf) s
    | or fs ih => exact stopsAny_eq_false (fun f hf _ => ih f hf) s
    | not f ih => exact ih
    | atLeast t n => exact Option.isNone_eq_false_iff.2 (h t)
    | time times e ih =>
      cases e with
      | none => rfl
      | some escape => rw [stops, ih escape rfl, Bool.and_false]

/-- Then it is known whether it holds. -/
theorem check?_of_totalsFit {inv : Inventory} (h : inv.TotalsFit) (f : Formula)
    (age : Option Age) (times : TimeOfDay) :
    f.check? inv age times = some (f.check inv age times) := by
  have hstops : f.stops (fun _ s => (false, s)) ⟨inv, none, age, times⟩ () = false :=
    never_stops_iff.2 h f
  rw [check?, hstops]
  rfl

end Rule.Formula

namespace Inventory

variable {b : Bearings} {es : List ItemEntry} {ids : List ItemId} {id : ItemId} {m : Counters}

/-! ### Copies that are collected -/

/-- The entry of a change. -/
def Change.entry : Change → ItemEntry
  | collect e | remove e => e

/-- The copies that a change brings at most: those that an item counts as, and a boss key that
comes with it. -/
def Change.copies (b : Bearings) : Change → Nat
  | collect e =>
    if e.advancement then (worth e).2.toNat + (if (b.bossKey? e.id).isSome then 1 else 0) else 0
  | remove _ => 0

theorem sum_map_ite (ids : List ItemId) (id : ItemId) (n : Nat) :
    (ids.map fun id' => if id = id' then n else 0).sum = ids.count id * n := by
  induction ids with
  | nil => rw [List.map_nil, List.sum_nil, List.count_nil, Nat.zero_mul]
  | cons id' ids ih =>
    rw [List.map_cons, List.sum_cons, ih]
    by_cases hid : id = id'
    · rw [if_pos hid, hid, List.count_cons_self, Nat.succ_mul, Nat.add_comm]
    · rw [if_neg hid, List.count_cons_of_ne (Ne.symm hid), Nat.zero_add]

/-- Collecting adds to the counter of what an item counts as, and to that of the boss key that
comes with it. -/
theorem onCounters_collect_le (b : Bearings) (m : Counters) {e : ItemEntry}
    (he : e.advancement = true) (id : ItemId) :
    (Change.onCounters b m (.collect e) id).toNat ≤
      (m id).toNat + ((if (worth e).1 = id then (worth e).2.toNat else 0) +
        (b.bossKey? e.id).elim 0 fun key => if key = id then 1 else 0) := by
  rw [Change.onCounters, Counters.change_apply]
  simp only [he, true_and]
  split
  · next hkey =>
    rw [hkey, Option.elim_some, if_pos rfl, UInt32.toNat_one]
    omega
  · split
    · rw [Count.toNat_plus]
      omega
    · omega

theorem onCounters_remove_le (b : Bearings) (m : Counters) (e : ItemEntry) (id : ItemId) :
    (Change.onCounters b m (.remove e) id).toNat ≤ (m id).toNat := by
  rw [Change.onCounters, Counters.change_apply]
  split
  · exact Nat.zero_le _
  · split
    · rw [Count.toNat_minus]
      omega
    · exact Nat.le_refl _

/-- A change adds no more to a total than the copies that it brings, for each time that an item
stands in the list. -/
theorem sum_onCounters_le {k : Nat} (hids : ∀ id, ids.count id ≤ k) (b : Bearings) (m : Counters)
    (change : Change) : (change.onCounters b m).sum ids ≤ m.sum ids + k * change.copies b := by
  cases change with
  | collect e =>
    by_cases he : e.advancement = true
    · have hworth := Nat.mul_le_mul_right (worth e).2.toNat (hids (worth e).1)
      have hkey : (ids.map fun id =>
          (b.bossKey? e.id).elim 0 fun key => if key = id then 1 else 0).sum ≤
            k * (if (b.bossKey? e.id).isSome then 1 else 0) := by
        cases b.bossKey? e.id with
        | none => simp
        | some key =>
          simp only [Option.elim_some, sum_map_ite, Option.isSome_some, if_true]
          exact Nat.mul_le_mul_right 1 (hids key)
      have hsum := List.sum_le_sum (l := ids) fun id _ => onCounters_collect_le b m he id
      rw [List.sum_map_add, List.sum_map_add, sum_map_ite] at hsum
      rw [Change.copies, if_pos he, Nat.mul_add]
      exact hsum.trans (Nat.add_le_add_left (Nat.add_le_add hworth hkey) _)
    · rw [Change.onCounters, Counters.change, if_neg he]
      exact Nat.le_add_right _ _
  | remove e => exact List.sum_le_sum fun id _ => onCounters_remove_le b m e id

/-- **There are no more copies than were collected**, for each time that an item stands in the
list. -/
theorem sum_count_after_le {k : Nat} (hids : ∀ id, ids.count id ≤ k) (b : Bearings)
    (capacity : Nat) (changes : List Change) :
    Counters.sum (after b capacity changes).count ids ≤
      k * (changes.map (Change.copies b)).sum := by
  -- a run adds no more to what was there than its changes do one by one
  have hrun : ∀ (changes : List Change) (m : Counters),
      Counters.sum (changes.foldl (Change.onCounters b) m) ids ≤
        m.sum ids + k * (changes.map (Change.copies b)).sum := by
    intro changes
    induction changes with
    | nil => exact fun m => Nat.le_add_right _ _
    | cons change changes ih =>
      intro m
      have hstep := sum_onCounters_le hids b m change
      have hrest := ih (change.onCounters b m)
      rw [List.foldl_cons, List.map_cons, List.sum_cons, Nat.mul_add]
      omega
  have hzero : Counters.sum (fun _ => 0) ids = 0 := by
    rw [Counters.sum, UInt32.toNat_zero, List.map_const', List.sum_replicate, Nat.nsmul_eq_mul,
      Nat.mul_zero]
  have hall := hrun changes fun _ => 0
  rwa [hzero, Nat.zero_add, ← count_after b capacity] at hall

/-! ### What can be counted -/

/-- An item can be counted when entries are collected: one of them counts as copies of it, or
brings it as a boss key. -/
def countable (b : Bearings) (es : List ItemEntry) (id : ItemId) : Bool :=
  es.any fun e => e.advancement &&
    ((worth e).1 == id && (worth e).2 != 0 || b.bossKey? e.id == some id)

/-- An item can be counted as often as one likes: an entry counts as copies of it and does not
bring it as a boss key as well. -/
def unbounded (b : Bearings) (es : List ItemEntry) (id : ItemId) : Bool :=
  es.any fun e => e.advancement &&
    ((worth e).1 == id && (worth e).2 != 0 && b.bossKey? e.id != some id)

theorem countable_iff : countable b es id = true ↔
    ∃ e ∈ es, e.advancement = true ∧
      ((worth e).1 = id ∧ (worth e).2 ≠ 0 ∨ b.bossKey? e.id = some id) := by
  simp only [countable, List.any_eq_true, Bool.and_eq_true, Bool.or_eq_true, beq_iff_eq,
    bne_iff_ne]

theorem unbounded_iff : unbounded b es id = true ↔
    ∃ e ∈ es, e.advancement = true ∧ (worth e).1 = id ∧ (worth e).2 ≠ 0 ∧
      b.bossKey? e.id ≠ some id := by
  simp only [unbounded, List.any_eq_true, Bool.and_eq_true, beq_iff_eq, bne_iff_ne, and_assoc]

theorem countable_of_unbounded (h : unbounded b es id = true) : countable b es id = true := by
  obtain ⟨e, he, hadvancement, hworth, hcopies, -⟩ := unbounded_iff.1 h
  exact countable_iff.2 ⟨e, he, hadvancement, .inl ⟨hworth, hcopies⟩⟩

/-! ### No run counts more -/

/-- What every change keeps of a counter that starts at zero, a run keeps. -/
theorem foldl_onCounters_of {P : Count → Prop} (hzero : P 0)
    (hstep : ∀ m change, change.entry ∈ es → P (m id) → P (Change.onCounters b m change id))
    {changes : List Change} (h : ∀ change ∈ changes, change.entry ∈ es) :
    P (changes.foldl (Change.onCounters b) (fun _ => 0) id) := by
  have hrun : ∀ m : Counters, P (m id) → P (changes.foldl (Change.onCounters b) m id) := by
    induction changes with
    | nil => exact fun m hm => hm
    | cons change changes ih =>
      obtain ⟨hchange, hchanges⟩ := List.forall_mem_cons.1 h
      exact fun m hm => ih hchanges _ (hstep m change hchange hm)
  exact hrun _ hzero

/-- What cannot be counted counts zero. -/
theorem foldl_onCounters_eq_zero (hid : countable b es id = false) {changes : List Change}
    (h : ∀ change ∈ changes, change.entry ∈ es) :
    changes.foldl (Change.onCounters b) (fun _ => 0) id = 0 := by
  have hnot : ∀ e ∈ es, e.advancement = true →
      ¬((worth e).1 = id ∧ (worth e).2 ≠ 0) ∧ b.bossKey? e.id ≠ some id := by
    intro e he hadvancement
    rw [← not_or]
    intro hcounts
    rw [countable_iff.2 ⟨e, he, hadvancement, hcounts⟩] at hid
    cases hid
  refine foldl_onCounters_of (P := (· = 0)) rfl (fun m change he hm => ?_) h
  cases change with
  | collect e =>
    rw [Change.onCounters, Counters.change_apply]
    split
    · next hkey => exact absurd hkey.2 (hnot e he hkey.1).2
    · split
      · next hworth =>
        have hcopies : (worth e).2 = 0 := by
          by_contra hcopies
          exact (hnot e he hworth.1).1 ⟨hworth.2, hcopies⟩
        rw [hm, hcopies]
        rfl
      · exact hm
  | remove e =>
    have hle := onCounters_remove_le b m e id
    rw [hm, UInt32.toNat_zero, Nat.le_zero] at hle
    rwa [← UInt32.toNat_inj, UInt32.toNat_zero]

/-- What cannot be counted as often as one likes counts one at most. -/
theorem foldl_onCounters_le_one (hid : unbounded b es id = false) {changes : List Change}
    (h : ∀ change ∈ changes, change.entry ∈ es) :
    (changes.foldl (Change.onCounters b) (fun _ => 0) id).toNat ≤ 1 := by
  refine foldl_onCounters_of (P := fun n => n.toNat ≤ 1) (Nat.zero_le 1)
    (fun m change he hm => ?_) h
  cases change with
  | collect e =>
    rw [Change.onCounters, Counters.change_apply]
    split
    · exact Nat.le_refl 1
    · next hkey =>
      split
      · next hworth =>
        have hcopies : (worth e).2 = 0 := by
          by_contra hcopies
          have hring : b.bossKey? e.id ≠ some id := fun hring => hkey ⟨hworth.1, hring⟩
          rw [unbounded_iff.2 ⟨e, he, hworth.1, hworth.2, hcopies, hring⟩] at hid
          cases hid
        rw [hcopies, Count.toNat_plus, UInt32.toNat_zero]
        omega
      · exact hm
  | remove e => exact (onCounters_remove_le b m e id).trans hm

/-! ### A run that counts everything -/

/-- A counter that is not zero does not become zero by collecting. -/
theorem onCounters_collect_pos {e : ItemEntry} (h : 1 ≤ (m id).toNat) :
    1 ≤ (Change.onCounters b m (.collect e) id).toNat := by
  rw [Change.onCounters, Counters.change_apply]
  split
  · exact Nat.le_refl 1
  · split
    · rw [Count.toNat_plus, Count.greatest]
      omega
    · exact h

theorem foldl_collect_pos (es : List ItemEntry) (h : 1 ≤ (m id).toNat) :
    1 ≤ ((es.map .collect).foldl (Change.onCounters b) m id).toNat := by
  induction es generalizing m with
  | nil => exact h
  | cons e es ih => exact ih (onCounters_collect_pos h)

/-- Once everything was collected, whatever can be counted counts one at least. -/
theorem foldl_collect_pos_of_countable (hid : countable b es id = true) (m : Counters) :
    1 ≤ ((es.map .collect).foldl (Change.onCounters b) m id).toNat := by
  obtain ⟨e, he, hadvancement, hcounts⟩ := countable_iff.1 hid
  obtain ⟨before, after, rfl⟩ := List.append_of_mem he
  rw [List.map_append, List.map_cons, List.foldl_append, List.foldl_cons]
  refine foldl_collect_pos after ?_
  rw [Change.onCounters, Counters.change_apply]
  split
  · exact Nat.le_refl 1
  · next hkey =>
    obtain ⟨hworth, hcopies⟩ := hcounts.resolve_right fun hring => hkey ⟨hadvancement, hring⟩
    have hpos : (worth e).2.toNat ≠ 0 := fun hzero => hcopies (UInt32.toNat_inj.1 hzero)
    rw [if_pos ⟨hadvancement, hworth⟩, Count.toNat_plus, Count.greatest]
    omega

/-- What an entry counts as, and does not bring as a boss key, comes to the greatest count when it
is collected often enough. -/
theorem foldl_replicate_collect_ge {e : ItemEntry} (he : e.advancement = true)
    (hcopies : (worth e).2 ≠ 0) (hkey : b.bossKey? e.id ≠ some (worth e).1) (n : Nat)
    (m : Counters) :
    min n Count.greatest ≤
      ((List.replicate n (.collect e)).foldl (Change.onCounters b) m (worth e).1).toNat := by
  have hpos : (worth e).2.toNat ≠ 0 := fun hzero => hcopies (UInt32.toNat_inj.1 hzero)
  induction n with
  | zero => exact Nat.zero_le _
  | succ n ih =>
    rw [List.replicate_succ', List.foldl_append, List.foldl_cons, List.foldl_nil,
      Change.onCounters, Counters.change_apply, if_neg fun hring => hkey hring.2,
      if_pos ⟨he, rfl⟩, Count.toNat_plus]
    omega

/-! ### Totals over all runs -/

/-- Only what can be counted adds to a total. -/
theorem sum_filter_countable (b : Bearings) (es : List ItemEntry) (ids : List ItemId)
    {changes : List Change} (h : ∀ change ∈ changes, change.entry ∈ es) :
    Counters.sum (changes.foldl (Change.onCounters b) fun _ => 0) ids =
      Counters.sum (changes.foldl (Change.onCounters b) fun _ => 0)
        (ids.filter (countable b es)) := by
  unfold Counters.sum
  induction ids with
  | nil => rfl
  | cons id ids ih =>
    rw [List.map_cons, List.sum_cons, ih, List.filter_cons]
    split
    · rw [List.map_cons, List.sum_cons]
    · next hid =>
      rw [foldl_onCounters_eq_zero (Bool.not_eq_true _ ▸ hid) h, UInt32.toNat_zero, Nat.zero_add]

/-- A total over items with a copy each is no less than the number of the items. -/
theorem length_le_sum {cs : List ItemId} (hpos : ∀ id ∈ cs, 1 ≤ (m id).toNat) :
    cs.length ≤ m.sum cs := by
  have hsum := List.card_nsmul_le_sum (cs.map fun id => (m id).toNat) 1 (by simpa using hpos)
  rwa [List.length_map, Nat.nsmul_eq_mul, Nat.mul_one] at hsum

theorem sum_le_length {cs : List ItemId} (hone : ∀ id ∈ cs, (m id).toNat ≤ 1) :
    m.sum cs ≤ cs.length := by
  have hsum := List.sum_le_card_nsmul (cs.map fun id => (m id).toNat) 1 (by simpa using hone)
  rwa [List.length_map, Nat.nsmul_eq_mul, Nat.mul_one] at hsum

/-- If there is a copy of each of the items, their total is a counter and one more for each of the
others, at least. -/
theorem le_sum_of_mem {cs : List ItemId} (hpos : ∀ id ∈ cs, 1 ≤ (m id).toNat) (hid : id ∈ cs) :
    (m id).toNat + (cs.length - 1) ≤ m.sum cs := by
  have hperm : cs.Perm (id :: cs.erase id) := List.perm_cons_erase hid
  have hsum : m.sum cs = (m id).toNat + m.sum (cs.erase id) :=
    (hperm.map fun id => (m id).toNat).sum_eq
  have hothers : (cs.erase id).length ≤ m.sum (cs.erase id) :=
    length_le_sum fun id hid => hpos id (List.mem_of_mem_erase hid)
  rw [List.length_erase_of_mem hid] at hothers
  omega

theorem entry_of_mem_map_collect {change : Change} (h : change ∈ es.map .collect) :
    change.entry ∈ es := by
  obtain ⟨e, he, rfl⟩ := List.mem_map.1 h
  exact he

/-- Where two items can be counted, one of them as often as one likes, some run is too much for
the total: everything is collected once, and then the one item as often as it takes. -/
theorem exists_run_over (hid : id ∈ ids) (hunbounded : unbounded b es id = true)
    (htwo : 2 ≤ (ids.filter (countable b es)).length) :
    ∃ changes : List Change, (∀ change ∈ changes, change.entry ∈ es) ∧
      Count.greatest < Counters.sum (changes.foldl (Change.onCounters b) fun _ => 0) ids := by
  have hcountable : id ∈ ids.filter (countable b es) :=
    List.mem_filter.2 ⟨hid, countable_of_unbounded hunbounded⟩
  obtain ⟨e, he, hadvancement, rfl, hcopies, hkey⟩ := unbounded_iff.1 hunbounded
  have hentry : ∀ change ∈ es.map Change.collect ++ List.replicate Count.greatest (.collect e),
      change.entry ∈ es := by
    intro change hchange
    rcases List.mem_append.1 hchange with hmem | hmem
    · exact entry_of_mem_map_collect hmem
    · rwa [List.eq_of_mem_replicate hmem]
  refine ⟨_, hentry, ?_⟩
  rw [sum_filter_countable b es ids hentry, List.foldl_append]
  have hpos : ∀ id ∈ ids.filter (countable b es), 1 ≤
      ((List.replicate Count.greatest (.collect e)).foldl (Change.onCounters b)
        ((es.map .collect).foldl (Change.onCounters b) fun _ => 0) id).toNat := by
    intro id hid
    rw [← List.map_replicate]
    exact foldl_collect_pos _ (foldl_collect_pos_of_countable (List.mem_filter.1 hid).2 _)
  have hfull := foldl_replicate_collect_ge hadvancement hcopies hkey Count.greatest
    ((es.map .collect).foldl (Change.onCounters b) fun _ => 0)
  have hsum := le_sum_of_mem hpos hcountable
  omega

/-- No run is too much for a total just when no two of its items can be counted, or when none of
them can be counted more than once and they are not too many. -/
theorem fits_after_iff (b : Bearings) (es : List ItemEntry) (ids : List ItemId) :
    (∀ capacity changes, (∀ change ∈ changes, change.entry ∈ es) →
      ((after b capacity changes).countOf ids).isSome = true) ↔
      (ids.filter (countable b es)).length ≤ 1 ∨
        (∀ id ∈ ids, unbounded b es id = false) ∧
          (ids.filter (countable b es)).length ≤ Count.greatest := by
  simp only [isSome_countOf_iff, count_after]
  constructor
  · intro hfits
    -- with two items to count, one without bound is too much, so there is none; then the run that
    -- collects everything counts each of them
    by_cases htwo : 2 ≤ (ids.filter (countable b es)).length
    · refine .inr ⟨fun id hid => ?_, ?_⟩
      · rw [← Bool.not_eq_true]
        intro hunbounded
        obtain ⟨changes, hchanges, hover⟩ := exists_run_over hid hunbounded htwo
        exact Nat.not_le_of_gt hover (hfits 0 changes hchanges)
      · have hall := fun change => @entry_of_mem_map_collect es change
        have hfit := hfits 0 _ hall
        rw [sum_filter_countable b es ids hall] at hfit
        refine Nat.le_trans (length_le_sum fun id hid => ?_) hfit
        exact foldl_collect_pos_of_countable (List.mem_filter.1 hid).2 _
    · exact .inl (by omega)
  · intro h capacity changes hchanges
    rw [sum_filter_countable b es ids hchanges]
    rcases h with hone | ⟨hbounded, hmany⟩
    · cases hids : ids.filter (countable b es) with
      | nil => exact Nat.zero_le _
      | cons id others =>
        rw [hids, List.length_cons] at hone
        obtain rfl : others = [] := List.eq_nil_of_length_eq_zero (by omega)
        rw [Counters.sum, List.map_singleton, List.sum_singleton]
        exact Count.toNat_le_greatest _
    · refine Nat.le_trans (sum_le_length fun id hid => ?_) hmany
      exact foldl_onCounters_le_one (hbounded id (List.mem_filter.1 hid).1) hchanges

/-- **The items whose total is a count whatever is collected.**  The total that inventories give is
the exact number of copies just when no addition on the way is too great, which is just when this
number is a count.  Some run of collecting and giving back some entries is too much for a total as
soon as two items of its list can be counted, or one that stands there twice, one of them other
than as a boss key; and else only if there are too many boss keys.  It takes as many copies to get
there: for each time that an item stands in the list, there are no more than were collected. -/
theorem totals_checked (b : Bearings) (es : List ItemEntry) (ids : List ItemId) :
    (∀ inv : Inventory,
      (∀ n, inv.countOf ids = some n ↔ (ids.map fun id => (inv.count id).toNat).sum = n.toNat) ∧
      ((inv.countOf ids).isSome = true ↔
        (ids.map fun id => (inv.count id).toNat).sum ≤ Count.greatest)) ∧
    ((∀ capacity changes, (∀ change ∈ changes, change.entry ∈ es) →
      ((after b capacity changes).countOf ids).isSome = true) ↔
      (ids.filter (countable b es)).length ≤ 1 ∨
        (∀ id ∈ ids, unbounded b es id = false) ∧
          (ids.filter (countable b es)).length ≤ Count.greatest) ∧
    ∀ k, (∀ id, ids.count id ≤ k) → ∀ capacity changes,
      (ids.map fun id => ((after b capacity changes).count id).toNat).sum ≤
        k * (changes.map (Change.copies b)).sum :=
  ⟨fun inv => ⟨countOf_eq_some_iff inv ids, isSome_countOf_iff inv ids⟩, fits_after_iff b es ids,
    fun _ hids capacity changes => sum_count_after_le hids b capacity changes⟩

/-- Two medallions, and a crate that counts as the greatest number of one of them. -/
def medallionsAndCrate : Catalog :=
  let medallion (name : String) : ItemDef :=
    { ItemDef.advancing name with classes := { ItemClass.none with medallion := true } }
  .ofCalls [.declare (medallion "Forest Medallion"), .declare (medallion "Light Medallion"),
    .declare { ItemDef.advancing "Forest Crate" with
      countsAs := some ("Forest Medallion", 4294967295) }]

/-- The changes that collect some of these items. -/
def medallionRun (items : List Nat) : List Change :=
  (items.filterMap fun i => medallionsAndCrate.get? ⟨i⟩).map .collect

/-- The inventory after some of these items were collected. -/
def withMedallions (items : List Nat) : Inventory :=
  .after (.plain ⟨0⟩ medallionsAndCrate.groups) medallionsAndCrate.size (medallionRun items)

/-- With the crate and the other medallion there are so many medallions that there is no total.
With the two medallions themselves there are no more than two. -/
theorem total_medallionsAndCrate :
    (withMedallions [2, 1]).medallions = none ∧
      (¬ ∀ capacity changes,
        (∀ change ∈ changes, change.entry ∈ medallionsAndCrate.entries.toList) →
        ((after (.plain ⟨0⟩ medallionsAndCrate.groups) capacity changes).countOf
          medallionsAndCrate.groups.medallions).isSome = true) ∧
      (medallionsAndCrate.groups.medallions.map fun id =>
        ((withMedallions [0, 1]).count id).toNat).sum ≤ 2 := by
  obtain ⟨-, hruns, hcopies⟩ := totals_checked (.plain ⟨0⟩ medallionsAndCrate.groups)
    medallionsAndCrate.entries.toList medallionsAndCrate.groups.medallions
  have hgroup : medallionsAndCrate.groups.medallions = [⟨0⟩, ⟨1⟩] := by decide
  have honce : ∀ id, medallionsAndCrate.groups.medallions.count id ≤ 1 := by
    rw [hgroup]
    exact List.nodup_iff_count_le_one.1 (by decide)
  refine ⟨by decide, ?_, ?_⟩
  · rw [hruns]
    decide
  · refine (hcopies 1 honce medallionsAndCrate.size (medallionRun [0, 1])).trans ?_
    decide

end Inventory

end Progression
