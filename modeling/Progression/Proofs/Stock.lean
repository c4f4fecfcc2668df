import Mathlib.Algebra.GroupWithZero.Nat
import Mathlib.Algebra.Order.BigOperators.Group.List
import Mathlib.Algebra.Order.Group.Nat
import Progression.Inventory

/-!
# What an inventory that holds more has

Collecting an item adds copies and takes none away, and unless a boss key comes with it the
order in which items are collected does not matter: a counter stops at the greatest count,
in whatever order the copies come.

Whatever is asked of an inventory, one that holds more has it as well, with one exception.
There is no total of several counters that is too great for a count, so a total may be lost
when the counters grow.

## Main definitions

* `Inventory.AtMost` — an inventory holds no more than another one.
* `Inventory.TotalsFit` — none of the totals that are asked for is too great.
* `Inventory.gain` — take an item in without a boss key.

## Main results

* `Count.total_eq` — the total of some counts is their sum, if that is a count.
* `Inventory.gain_comm` — the order in which items are taken in does not matter.
* `Inventory.AtMost.countOf_le` — totals that fit grow with the counters.
* `Inventory.AtMost.won` and its like — an inventory that holds more has it as well.
-/

namespace Progression

/-! ### Totals -/

namespace Count

theorem foldlM_add? (counts : List Count) (a : Count) :
    counts.foldlM add? a = ofNat? (a.toNat + (counts.map UInt32.toNat).sum) := by
  induction counts generalizing a with
  | nil => exact (ofNat?_eq_some_iff.2 rfl).symm
  | cons c counts ih =>
    rw [List.foldlM_cons, List.map_cons, List.sum_cons, add?, ← Nat.add_assoc]
    by_cases h : a.toNat + c.toNat ≤ greatest
    · rw [ofNat?_of_le h, Option.bind_eq_bind, Option.bind_some, ih, toNat_ofNat,
        Nat.min_eq_left h]
    · -- a sum that is too great stays too great
      rw [ofNat?_of_gt (by omega), ofNat?_of_gt (by omega)]
      rfl

/-- **A total is the sum of the counts**, and there is none just when the sum is too great. -/
theorem total_eq (counts : List Count) :
    total counts = ofNat? (counts.map UInt32.toNat).sum := by
  rw [total, foldlM_add?, UInt32.toNat_zero, Nat.zero_add]

/-- No number is less as a count, as long as it is one. -/
theorem ofNat?_le_ofNat? {m n : Nat} (h : m ≤ n) (hn : n ≤ greatest) : ofNat? m ≤ ofNat? n := by
  rw [ofNat?_of_le hn, ofNat?_of_le (Nat.le_trans h hn), Option.some_le_some,
    UInt32.le_iff_toNat_le, toNat_ofNat, toNat_ofNat]
  omega

/-- A total is no less than another one if it reaches whatever the other one reaches. -/
theorem any_le_iff {total total' : Option Count} :
    total ≤ total' ↔ ∀ n, total.any (n ≤ ·) = true → total'.any (n ≤ ·) = true := by
  constructor
  · intro h n hn
    obtain ⟨count, rfl, hcount⟩ := (Option.any_eq_true _ _).1 hn
    cases total' with
    | none => exact absurd h Option.not_some_le_none
    | some count' =>
      exact decide_eq_true (UInt32.le_trans (of_decide_eq_true hcount) (Option.some_le_some.1 h))
  · intro h
    cases total with
    | none => exact Option.none_le
    | some count =>
      obtain ⟨count', rfl, hcount⟩ :=
        (Option.any_eq_true _ _).1 (h count (decide_eq_true (UInt32.le_refl _)))
      exact Option.some_le_some.2 (of_decide_eq_true hcount)

theorem plus_right_comm (a b c : Count) : plus (plus a b) c = plus (plus a c) b := by
  apply UInt32.toNat_inj.1
  simp only [toNat_plus]
  omega

theorem le_plus (a b : Count) : a ≤ plus a b := by
  have ha := toNat_le_greatest a
  rw [UInt32.le_iff_toNat_le, toNat_plus]
  omega

theorem plus_le_plus {a b : Count} (h : a ≤ b) (n : Count) : plus a n ≤ plus b n := by
  rw [UInt32.le_iff_toNat_le] at h ⊢
  rw [toNat_plus, toNat_plus]
  omega

end Count

/-- The groups of items of which the total is asked for. -/
def ItemGroups.totalled (g : ItemGroups) : List (List ItemId) :=
  [g.medallions, g.stones, g.dungeonRewards, g.ocarinaButtons]

namespace Inventory

variable {a b c : Inventory}

/-! ### Holding no more -/

/-- An inventory of the same bearings holds no more copies of any item than another one. -/
structure AtMost (a b : Inventory) : Prop where
  bearings : a.bearings = b.bearings
  count : ∀ id, a.count id ≤ b.count id

namespace AtMost

theorem refl (a : Inventory) : a.AtMost a := ⟨rfl, fun _ => UInt32.le_refl _⟩

theorem trans (h : a.AtMost b) (h' : b.AtMost c) : a.AtMost c :=
  ⟨h.bearings.trans h'.bearings, fun id => UInt32.le_trans (h.count id) (h'.count id)⟩

end AtMost

/-- None of the totals that are asked for is too great for a count. -/
def TotalsFit (inv : Inventory) : Prop :=
  ∀ ids ∈ inv.bearings.groups.totalled,
    (ids.map fun id => (inv.count id).toNat).sum ≤ Count.greatest

/-- A total is the sum of the counters, if that is a count. -/
theorem countOf_eq (a : Inventory) (ids : List ItemId) :
    a.countOf ids = Count.ofNat? (ids.map fun id => (a.count id).toNat).sum := by
  rw [countOf, Count.total_eq, List.map_map]
  rfl

namespace AtMost

theorem sum_le (h : a.AtMost b) (ids : List ItemId) :
    (ids.map fun id => (a.count id).toNat).sum ≤ (ids.map fun id => (b.count id).toNat).sum :=
  List.sum_le_sum fun id _ => UInt32.le_iff_toNat_le.1 (h.count id)

theorem totalsFit (h : a.AtMost b) (hb : b.TotalsFit) : a.TotalsFit := by
  intro ids hids
  rw [h.bearings] at hids
  exact Nat.le_trans (h.sum_le ids) (hb ids hids)

/-- **Totals that fit grow with the counters.** -/
theorem countOf_le (h : a.AtMost b) (hb : b.TotalsFit) {ids : List ItemId}
    (hids : ids ∈ b.bearings.groups.totalled) : a.countOf ids ≤ b.countOf ids := by
  rw [countOf_eq, countOf_eq]
  exact Count.ofNat?_le_ofNat? (h.sum_le ids) (hb ids hids)

/-! ### Questions -/

theorem has (h : a.AtMost b) {id : ItemId} {n : Count} (ha : a.has id n = true) :
    b.has id n = true := by
  unfold Inventory.has at *
  exact decide_eq_true (UInt32.le_trans (of_decide_eq_true ha) (h.count id))

theorem hasAny (h : a.AtMost b) {ids : List ItemId} (ha : a.hasAny ids = true) :
    b.hasAny ids = true := by
  unfold Inventory.hasAny at *
  rw [List.any_eq_true] at ha ⊢
  obtain ⟨id, hid, ha⟩ := ha
  exact ⟨id, hid, h.has ha⟩

theorem hasAll (h : a.AtMost b) {ids : List ItemId} (ha : a.hasAll ids = true) :
    b.hasAll ids = true := by
  unfold Inventory.hasAll at *
  rw [List.all_eq_true] at ha ⊢
  exact fun id hid => h.has (ha id hid)

theorem hasBottle (h : a.AtMost b) (ha : a.hasBottle = true) : b.hasBottle = true := by
  unfold Inventory.hasBottle at *
  rw [← h.bearings]
  rw [Bool.or_eq_true] at ha ⊢
  refine ha.imp h.hasAny fun ha => ?_
  rw [Option.any_eq_true] at ha ⊢
  obtain ⟨letter, hletter, ha⟩ := ha
  exact ⟨letter, hletter, h.has ha⟩

theorem hearts_le (h : a.AtMost b) : a.hearts ≤ b.hearts := by
  have quarter : ∀ n : Count, (n / 4 + 3).toNat = n.toNat / 4 + 3 := by
    intro n
    have hn := n.toNat_lt
    rw [UInt32.toNat_add, UInt32.toNat_div]
    change (n.toNat / 4 + 3) % 2 ^ 32 = _
    omega
  have hpieces : (a.bearings.groups.pieceOfHeart.elim 0 a.count).toNat ≤
      (b.bearings.groups.pieceOfHeart.elim 0 b.count).toNat := by
    rw [h.bearings]
    cases b.bearings.groups.pieceOfHeart with
    | none => exact Nat.le_refl _
    | some id => exact UInt32.le_iff_toNat_le.1 (h.count id)
  rw [UInt32.le_iff_toNat_le, hearts, hearts, quarter, quarter]
  omega

theorem meetsAll (h : a.AtMost b) (ha : a.meetsAll = true) : b.meetsAll = true := by
  unfold Inventory.meetsAll at *
  rw [h.bearings] at ha
  rw [List.all_eq_true] at ha ⊢
  intro category hcategory
  have hgoals := ha category hcategory
  rw [List.all_eq_true] at hgoals ⊢
  intro goal hgoal
  have hitems := hgoals goal hgoal
  unfold Inventory.meets at *
  rw [List.all_eq_true] at hitems ⊢
  exact fun item hitem => h.has (hitems item hitem)

theorem won (h : a.AtMost b) (ha : a.won = true) : b.won = true := by
  unfold Inventory.won at *
  rw [h.bearings] at ha
  cases hwin : b.bearings.win with
  | triforce item =>
    rw [hwin] at ha
    simp only [Option.any_eq_true] at ha ⊢
    obtain ⟨id, hid, ha⟩ := ha
    exact ⟨id, hid, h.has ha⟩
  | hunt piece goal =>
    rw [hwin] at ha
    simp only [Option.any_eq_true] at ha ⊢
    obtain ⟨id, hid, ha⟩ := ha
    exact ⟨id, hid, h.has ha⟩

end AtMost

/-! ### Taking items in -/

@[simp] theorem bearings_setCount (inv : Inventory) (id : ItemId) (n : Count) :
    (inv.setCount id n).bearings = inv.bearings := rfl

theorem size_setCount (inv : Inventory) (id : ItemId) (n : Count) :
    (inv.setCount id n).counts.size = max inv.counts.size (id.index + 1) := by
  simp only [setCount, Array.size_setIfInBounds, Array.size_append, Array.size_replicate]
  omega

theorem count_setCount (inv : Inventory) (id x : ItemId) (n : Count) :
    (inv.setCount id n).count x = if id = x then n else inv.count x := by
  obtain ⟨i⟩ := id
  obtain ⟨j⟩ := x
  simp only [count, setCount, Array.getD_eq_getD_getElem?, ItemId.mk.injEq]
  rw [Array.getElem?_setIfInBounds]
  split
  · next hij =>
    subst hij
    have hlt : i < (inv.counts ++ Array.replicate (i + 1 - inv.counts.size) 0).size := by
      simp only [Array.size_append, Array.size_replicate]
      omega
    rw [if_pos hlt]
    rfl
  · rw [Array.getElem?_append]
    split
    · rfl
    · next hj =>
      -- the new counters are at zero, as are all that there are none for
      rw [Array.getElem?_replicate, Array.getElem?_eq_none (by omega)]
      split <;> rfl

/-- Inventories of the same bearings and size are the same if they count the same. -/
theorem ext_count (hbearings : a.bearings = b.bearings) (hsize : a.counts.size = b.counts.size)
    (hcount : ∀ id, a.count id = b.count id) : a = b := by
  obtain ⟨counts, bearings⟩ := a
  obtain ⟨counts', bearings'⟩ := b
  simp only at hbearings hsize
  have hcounts : counts = counts' := by
    refine Array.ext hsize fun i hi hi' => ?_
    have h := hcount ⟨i⟩
    simpa [count, Array.getD_eq_getD_getElem?, hi, hi'] using h
  rw [hcounts, hbearings]

/-- Take an item in, but no boss key with it. -/
def gain (inv : Inventory) (e : ItemEntry) : Inventory :=
  if e.advancement then
    inv.setCount (worth e).1 (Count.plus (inv.count (worth e).1) (worth e).2)
  else inv

theorem collect_eq_gain {inv : Inventory} (h : inv.bearings.keyRings = []) (e : ItemEntry) :
    inv.collect e = inv.gain e := by
  unfold collect gain
  split
  · rw [Bearings.bossKey?, h]
    rfl
  · rfl

@[simp] theorem bearings_gain (inv : Inventory) (e : ItemEntry) :
    (inv.gain e).bearings = inv.bearings := by
  unfold gain
  split <;> rfl

/-- **The order in which items are taken in does not matter.** -/
theorem gain_comm (inv : Inventory) (e e' : ItemEntry) :
    (inv.gain e).gain e' = (inv.gain e').gain e := by
  by_cases he : e.advancement
  · by_cases he' : e'.advancement
    · refine ext_count (by simp) ?_ fun x => ?_
      · simp only [gain, he, he', if_true, size_setCount]
        omega
      · simp only [gain, he, he', if_true, count_setCount]
        by_cases hsame : (worth e).1 = (worth e').1
        · simp only [hsame, if_true, Count.plus_right_comm]
          by_cases hx : (worth e').1 = x <;> simp only [hx, if_true, if_false]
        · have hsame' : (worth e').1 ≠ (worth e).1 := Ne.symm hsame
          simp only [hsame, hsame', if_false]
          split
          · next hx =>
            rw [if_neg]
            exact fun hx' => hsame (hx'.trans hx.symm)
          · rfl
    · simp [gain, he']
  · simp [gain, he]

theorem atMost_gain (inv : Inventory) (e : ItemEntry) : inv.AtMost (inv.gain e) := by
  refine ⟨(bearings_gain inv e).symm, fun id => ?_⟩
  unfold gain
  split
  · rw [count_setCount]
    split
    · next h =>
      rw [← h]
      exact Count.le_plus _ _
    · exact UInt32.le_refl _
  · exact UInt32.le_refl _

/-- What holds no more holds no more after the same item was taken in. -/
theorem AtMost.gain (h : a.AtMost b) (e : ItemEntry) : (a.gain e).AtMost (b.gain e) := by
  refine ⟨by rw [bearings_gain, bearings_gain, h.bearings], fun id => ?_⟩
  unfold Inventory.gain
  split
  · rw [count_setCount, count_setCount]
    split
    · exact Count.plus_le_plus (h.count _) _
    · exact h.count id
  · exact h.count id

/-- What is counted after an item was taken in was counted before, or is what the item
counts as. -/
theorem has_of_gain {inv : Inventory} {entry : ItemEntry} {item : ItemId} {n : Count}
    (h : (inv.gain entry).has item n = true) :
    inv.has item n = true ∨ (worth entry).1 = item := by
  unfold gain at h
  split at h
  · rw [has, count_setCount] at h
    split at h
    · next hworth => exact .inr hworth
    · exact .inl h
  · exact .inl h

theorem has_gain {inv : Inventory} {entry : ItemEntry} {item : ItemId}
    (hadvancement : entry.advancement = true) (hworth : worth entry = (item, 1)) :
    (inv.gain entry).has item 1 = true := by
  rw [gain, if_pos hadvancement, hworth, has, count_setCount, if_pos rfl, decide_eq_true_eq,
    UInt32.le_iff_toNat_le, Count.toNat_plus, UInt32.toNat_one, Count.greatest]
  omega

theorem count_empty (bearings : Bearings) (capacity : Nat) (item : ItemId) :
    (empty bearings capacity).count item = 0 := by
  rw [count, empty, Array.getD_eq_getD_getElem?, Array.getElem?_replicate]
  split <;> rfl

end Inventory

end Progression
