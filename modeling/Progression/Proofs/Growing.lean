import Progression.Proofs.OnePass
import Progression.Proofs.Stock

/-!
# Rules that further items keep true

A rule without negations and tests of the time of day, whose comparisons ask only for more
than a fixed number of copies, stays true when further items are collected.  So what opens
with some items opens with more as well, as long as no total gets too great for a count.

## Main definitions

* `Formula.growing` — the rules of this kind.
* `Multiworld.Growing` — all rules of the worlds are of this kind.
* `Location.passesAt` — whether the rule of a location holds.
* `StockAtMost`, `StockFits` — all inventories hold no more, and all totals fit.

## Main results

* `Formula.holdsGiven_of_atMost` — **a growing rule stays true with further items.**
* `Multiworld.Growing.location_passesAt`, `Multiworld.ClosedUnderExits.of_atMost` — so locations
  and exits that are open stay open.
-/

namespace Progression

namespace Rule

/-! ### Growing comparisons -/

/-- Whether a side of a comparison is a number of copies or hearts. -/
def Operand.readsCount : Operand → Bool
  | .itemCount _ | .heartCount => true
  | .age | .literal _ => false

/-- Whether a side of a comparison is a fixed integer. -/
def Operand.isInteger : Operand → Bool
  | .literal (.int _) => true
  | _ => false

/-- Whether a comparison reads no count, or asks whether a count is greater than a fixed
integer or at least that great. -/
def Comparator.growing (op : Comparator) (l r : Operand) : Bool :=
  !l.readsCount && !r.readsCount || (op == .gt || op == .ge) && l.readsCount && r.isInteger

variable {cx cx' : Situation}

/-- A side that is no count depends on the age at most. -/
theorem Operand.value_congr (hage : cx.age = cx'.age) {o : Operand}
    (ho : o.readsCount = false) : o.value cx = o.value cx' := by
  cases o with
  | age => rw [value, value, hage]
  | literal v => rfl
  | itemCount id => cases ho
  | heartCount => cases ho

theorem Operand.value_of_readsCount (h : cx.inventory.AtMost cx'.inventory) {o : Operand}
    (ho : o.readsCount = true) :
    ∃ m n : Int, o.value cx = .int m ∧ o.value cx' = .int n ∧ m ≤ n := by
  cases o with
  | age => cases ho
  | literal v => cases ho
  | itemCount id =>
    exact ⟨_, _, rfl, rfl, Int.ofNat_le.2 (UInt32.le_iff_toNat_le.1 (h.count id))⟩
  | heartCount => exact ⟨_, _, rfl, rfl, Int.ofNat_le.2 (UInt32.le_iff_toNat_le.1 h.hearts_le)⟩

theorem Operand.exists_of_isInteger {o : Operand} (ho : o.isInteger = true) :
    ∃ k : Int, ∀ cx, o.value cx = .int k := by
  cases o with
  | literal v =>
    cases v with
    | int k => exact ⟨k, fun _ => rfl⟩
    | bool | str | list | map => cases ho
  | age | itemCount | heartCount => cases ho

/-- A growing comparison stays true with further items. -/
theorem Comparator.holds_of_atMost {op : Comparator} {l r : Operand}
    (hop : op.growing l r = true) (hage : cx.age = cx'.age)
    (h : cx.inventory.AtMost cx'.inventory)
    (hholds : (op.holds? (l.value cx) (r.value cx)).getD false = true) :
    (op.holds? (l.value cx') (r.value cx')).getD false = true := by
  simp only [growing, Bool.or_eq_true, Bool.and_eq_true, Bool.not_eq_true', beq_iff_eq] at hop
  rcases hop with ⟨hl, hr⟩ | ⟨⟨hop, hl⟩, hr⟩
  · rwa [← Operand.value_congr hage hl, ← Operand.value_congr hage hr]
  · obtain ⟨m, n, hm, hn, hmn⟩ := Operand.value_of_readsCount h hl
    obtain ⟨k, hk⟩ := Operand.exists_of_isInteger hr
    rw [hm, hk] at hholds
    rw [hn, hk]
    rcases hop with rfl | rfl
    · change (Ord.compare m k).isGT = true at hholds
      change (Ord.compare n k).isGT = true
      rw [Ordering.isGT_iff_eq_gt, Std.compare_eq_gt] at hholds ⊢
      omega
    · change (Ord.compare m k).isGE = true at hholds
      change (Ord.compare n k).isGE = true
      rw [Std.isGE_compare] at hholds ⊢
      omega

theorem Tally.value_le {a b : Inventory} (h : a.AtMost b) (hb : b.TotalsFit) (t : Tally) :
    t.value a ≤ t.value b := by
  have groups : ∀ ids ∈ b.bearings.groups.totalled, a.countOf ids ≤ b.countOf ids :=
    fun _ hids => h.countOf_le hb hids
  cases t with
  | hearts => exact Option.some_le_some.2 h.hearts_le
  | medallions | stones | dungeonRewards | ocarinaButtons =>
    change Inventory.countOf a _ ≤ Inventory.countOf b _
    rw [h.bearings]
    exact groups _ (by simp [ItemGroups.totalled])

/-! ### Growing rules -/

namespace Formula

mutual

/-- Whether a formula has no negation, no test of the time of day, and only comparisons that
further items keep true. -/
def growing : Formula → Bool
  | .and fs | .or fs => growingList fs
  | .not _ | .time _ _ => false
  | .compare op l r => op.growing l r
  | _ => true

/-- Whether all formulas of a list are such. -/
def growingList : List Formula → Bool
  | [] => true
  | f :: fs => growing f && growingList fs

end

theorem growingList_iff {fs : List Formula} :
    growingList fs = true ↔ ∀ f ∈ fs, f.growing = true := by
  induction fs with
  | nil => simp [growingList]
  | cons f fs ih => simp [growingList, ih]

theorem timeless_of_growing (f : Formula) (hf : f.growing = true) : f.timeless = true := by
  induction f using Formula.induction with
  | const | item | count | any | all | compare | bottle | atLeast | allGoals | won => rfl
  | and fs ih | or fs ih =>
    rw [growing, growingList_iff] at hf
    rw [timeless, eachTime, eachTimeList_iff]
    exact fun f hm => ih f hm (hf f hm)
  | not f _ => cases hf
  | time times e _ => cases hf

/-- A growing rule stays true with further items, if no total falls. -/
theorem holdsGiven_of_tallies {answers : Query → Bool} (hage : cx.age = cx'.age)
    (h : cx.inventory.AtMost cx'.inventory)
    (htallies : ∀ t : Tally, t.value cx.inventory ≤ t.value cx'.inventory) (f : Formula)
    (hf : f.growing = true) (hholds : f.holdsGiven answers cx = true) :
    f.holdsGiven answers cx' = true := by
  induction f using Formula.induction with
  | const b => exact hholds
  | item id => exact h.has hholds
  | count id n => exact h.has hholds
  | any ids => exact h.hasAny hholds
  | all ids => exact h.hasAll hholds
  | and fs ih =>
    rw [growing, growingList_iff] at hf
    rw [holdsGiven_and, List.all_eq_true] at hholds ⊢
    exact fun f hm => ih f hm (hf f hm) (hholds f hm)
  | or fs ih =>
    rw [growing, growingList_iff] at hf
    rw [holdsGiven_or, List.any_eq_true] at hholds ⊢
    obtain ⟨f, hm, hholds⟩ := hholds
    exact ⟨f, hm, ih f hm (hf f hm) hholds⟩
  | not f _ => cases hf
  | compare op l r => exact Comparator.holds_of_atMost hf hage h hholds
  | bottle => exact h.hasBottle hholds
  | atLeast tally n =>
    exact Count.any_le_iff.1 (htallies tally) n hholds
  | allGoals => exact h.meetsAll hholds
  | won => exact h.won hholds
  | time times e _ => cases hf

/-- **A growing rule stays true with further items.** -/
theorem holdsGiven_of_atMost {answers : Query → Bool} (hage : cx.age = cx'.age)
    (h : cx.inventory.AtMost cx'.inventory) (hfit : cx'.inventory.TotalsFit) (f : Formula)
    (hf : f.growing = true) (hholds : f.holdsGiven answers cx = true) :
    f.holdsGiven answers cx' = true :=
  holdsGiven_of_tallies hage h (Tally.value_le h hfit) f hf hholds

end Formula

end Rule

open Rule

/-! ### All inventories -/

/-- All inventories hold no more than those of the same worlds. -/
def StockAtMost (invs invs' : Array Inventory) : Prop :=
  ∀ w, (inventoryOf invs w).AtMost (inventoryOf invs' w)

/-- The totals of the inventories of all worlds fit. -/
def StockFits (invs : Array Inventory) : Prop := ∀ w, (inventoryOf invs w).TotalsFit

namespace StockAtMost

variable {invs invs' invs'' : Array Inventory}

theorem refl (invs : Array Inventory) : StockAtMost invs invs := fun _ => .refl _

theorem trans (h : StockAtMost invs invs') (h' : StockAtMost invs' invs'') :
    StockAtMost invs invs'' :=
  fun w => (h w).trans (h' w)

theorem fits (h : StockAtMost invs invs') (hfit : StockFits invs') : StockFits invs :=
  fun w => (h w).totalsFit (hfit w)

end StockAtMost

/-! ### Growing worlds -/

/-- Whether the rule of a location holds as an age. -/
def Location.passesAt (l : Location) (invs : Array Inventory) (age : Age) : Bool :=
  l.post.formula.holdsAt (l.post.situation invs age .none)

/-- All rules of the worlds are growing. -/
structure Multiworld.Growing (g : Multiworld) : Prop where
  exits : ∀ id, (g.exit id).guard.formula.growing = true
  locations : ∀ id, (g.location id).guard.formula.growing = true

namespace Multiworld.Growing

variable {g : Multiworld} {invs invs' : Array Inventory} {age : Age}

/-- Placing an item changes no rule. -/
theorem placeItem (h : g.Growing) (id : LocationId) (item : ItemId) (w : WorldId) :
    (g.placeItem id item w).Growing where
  exits := h.exits
  locations l := by
    rw [Multiworld.placeItem, location_modifyLocation]
    split
    · exact h.locations l
    · exact h.locations l

theorem exit_timeless (h : g.Growing) (id : ExitId) :
    (g.exit id).guard.formula.timeless = true :=
  Formula.timeless_of_growing _ (h.exits id)

theorem location_timeless (h : g.Growing) (id : LocationId) :
    (g.location id).guard.formula.timeless = true :=
  Formula.timeless_of_growing _ (h.locations id)

/-- A growing rule at a place stays true with further items. -/
theorem holdsAt_of_atMost {p : Post} (hp : p.formula.growing = true)
    (hstock : StockAtMost invs invs') (hfit : StockFits invs')
    (hholds : p.formula.holdsAt (p.situation invs age .none) = true) :
    p.formula.holdsAt (p.situation invs' age .none) = true := by
  have hage : (p.situation invs age .none).age = (p.situation invs' age .none).age := rfl
  exact Formula.holdsGiven_of_atMost hage (hstock p.world) (hfit p.world) p.formula hp hholds

theorem location_passesAt (h : g.Growing) (hstock : StockAtMost invs invs')
    (hfit : StockFits invs') {id : LocationId}
    (hpasses : (g.location id).passesAt invs age = true) :
    (g.location id).passesAt invs' age = true :=
  holdsAt_of_atMost (h.locations id) hstock hfit hpasses

end Multiworld.Growing

/-- What is closed under the exits that open with further items is closed under those that
open now. -/
theorem Multiworld.ClosedUnderExits.of_atMost {g : Multiworld} {invs invs' : Array Inventory}
    {age : Age} {regions : Set RegionId} (hclosed : g.ClosedUnderExits invs' age regions)
    (hexits : ∀ id, (g.exit id).guard.formula.growing = true) (hstock : StockAtMost invs invs')
    (hfit : StockFits invs') : g.ClosedUnderExits invs age regions :=
  fun r hr id hid target hc hpasses =>
    hclosed r hr id hid target hc (Growing.holdsAt_of_atMost (hexits id) hstock hfit hpasses)

end Progression
