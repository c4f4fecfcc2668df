import Mathlib.Data.String.Basic
import Progression.Proofs.Asking
import Progression.Proofs.Cataloguing
import Progression.Proofs.GivingBack
import Progression.Proofs.Tables

/-!
# Inventories as maps

The counters of an inventory stand in an array that grows when an item behind its end is set, and
that does not grow when such an item is only taken away from.  None of this shows.  An inventory
that was made in whatever way is a map from all items to counts, and the capacity that it was made
with cannot be told from any answer.

Listing the counters by display name loses nothing either, as far as the catalog goes: a catalog
gives no two items the same name.

## Main definitions

* `Inventory.Change`, `Inventory.after` — collecting and giving back, and a run of it.
* `Inventory.Change.onCounters` — a change of a map from items to counts.
* `Inventory.Indiscernible` — two inventories answer every question alike.

## Main results

* `Inventory.count_after` — an inventory counts what the map counts.
* `Inventory.indiscernible_of_count` — only bearings and counters show in the answers.
* `Inventory.find?_heldByName` — what is listed under the name of an item.
* `Inventory.total_map` — **an inventory is a map from items to counts.**
-/

namespace Progression

open Rule

namespace Inventory

variable {a b inv : Inventory}

/-! ### Runs of changes -/

/-- What can be done with an inventory. -/
inductive Change where
  | collect (e : ItemEntry)
  | remove (e : ItemEntry)
  deriving DecidableEq

/-- The inventory after a change. -/
def Change.apply (inv : Inventory) : Change → Inventory
  | collect e => inv.collect e
  | remove e => inv.remove e

/-- The inventory after a run of changes to one without items. -/
def after (b : Bearings) (capacity : Nat) (changes : List Change) : Inventory :=
  changes.foldl Change.apply (empty b capacity)

@[simp] theorem bearings_apply (inv : Inventory) (change : Change) :
    (change.apply inv).bearings = inv.bearings := by
  cases change with
  | collect e => exact bearings_collect inv e
  | remove e => exact bearings_remove inv e

theorem bearings_foldl_apply (inv : Inventory) (changes : List Change) :
    (changes.foldl Change.apply inv).bearings = inv.bearings := by
  induction changes generalizing inv with
  | nil => rfl
  | cons change changes ih => rw [List.foldl_cons, ih, bearings_apply]

@[simp] theorem bearings_after (b : Bearings) (capacity : Nat) (changes : List Change) :
    (after b capacity changes).bearings = b :=
  bearings_foldl_apply _ changes

/-! ### Counters as a map -/

/-- A count for every item. -/
abbrev Counters := ItemId → Count

/-- Change the counter of what an item counts as, and set the boss key that comes with it. -/
def Counters.change (m : Counters) (b : Bearings) (e : ItemEntry) (op : Count → Count → Count)
    (keys : Count) : Counters :=
  if e.advancement then
    let (id, n) := worth e
    let m' := Function.update m id (op (m id) n)
    match b.bossKey? e.id with
    | some key => Function.update m' key keys
    | none => m'
  else m

/-- A change of a map from items to counts. -/
def Change.onCounters (b : Bearings) (m : Counters) : Change → Counters
  | collect e => m.change b e Count.plus 1
  | remove e => m.change b e Count.minus 0

theorem Counters.change_apply (m : Counters) (b : Bearings) (e : ItemEntry)
    (op : Count → Count → Count) (keys : Count) (id : ItemId) :
    m.change b e op keys id =
      if e.advancement = true ∧ b.bossKey? e.id = some id then keys
      else if e.advancement = true ∧ (worth e).1 = id then op (m id) (worth e).2
      else m id := by
  have hitem : ∀ n, Function.update m (worth e).1 (op (m (worth e).1) n) id =
      if (worth e).1 = id then op (m id) n else m id := by
    intro n
    by_cases hid : (worth e).1 = id
    · rw [if_pos hid, hid, Function.update_self]
    · rw [if_neg hid, Function.update_of_ne (Ne.symm hid)]
  unfold Counters.change
  by_cases he : e.advancement = true
  · simp only [he, if_true, true_and]
    cases b.bossKey? e.id with
    | none => simp only [hitem, reduceCtorEq, if_false]
    | some key =>
      simp only [Function.update_apply, Option.some.injEq, @eq_comm _ id key]
      rw [← hitem, Function.update_apply]
  · simp [he]

theorem keyWith_eq_some_iff {e : ItemEntry} {key : ItemId} :
    inv.keyWith? e = some key ↔ e.advancement = true ∧ inv.bearings.bossKey? e.id = some key := by
  unfold keyWith?
  split <;> simp [*]

/-- An inventory counts after a change what the map counts after it. -/
theorem count_apply (inv : Inventory) (change : Change) :
    (change.apply inv).count = change.onCounters inv.bearings inv.count := by
  funext id
  cases change with
  | collect e =>
    rw [Change.onCounters, Counters.change_apply, Change.apply, count_collect, count_gain]
    simp only [keyWith_eq_some_iff]
  | remove e =>
    rw [Change.onCounters, Counters.change_apply, Change.apply, count_remove]
    simp only [keyWith_eq_some_iff]

theorem count_foldl_apply (inv : Inventory) (changes : List Change) :
    (changes.foldl Change.apply inv).count =
      changes.foldl (Change.onCounters inv.bearings) inv.count := by
  induction changes generalizing inv with
  | nil => rfl
  | cons change changes ih =>
    rw [List.foldl_cons, List.foldl_cons, ih, bearings_apply, count_apply]

/-- **An inventory counts what the map counts**, with whatever capacity it was made. -/
theorem count_after (b : Bearings) (capacity : Nat) (changes : List Change) :
    (after b capacity changes).count = changes.foldl (Change.onCounters b) fun _ => 0 := by
  have hempty : (empty b capacity).count = fun _ => 0 := funext (count_empty b capacity)
  rw [after, count_foldl_apply, hempty]
  rfl

/-! ### What shows in the answers -/

/-- Two inventories answer every question alike. -/
structure Indiscernible (a b : Inventory) : Prop where
  bearings : a.bearings = b.bearings
  world : a.world = b.world
  count : ∀ id, a.count id = b.count id
  has : ∀ id n, a.has id n = b.has id n
  hasAny : ∀ ids, a.hasAny ids = b.hasAny ids
  hasAll : ∀ ids, a.hasAll ids = b.hasAll ids
  countOf : ∀ ids, a.countOf ids = b.countOf ids
  hasBottle : a.hasBottle = b.hasBottle
  /-- Hearts, medallions, stones, dungeon rewards and ocarina buttons. -/
  tally : ∀ t : Tally, t.value a = t.value b
  won : a.won = b.won
  meetsPart : ∀ goal, a.meetsPart goal = b.meetsPart goal
  meetsItem : ∀ goal, a.meetsItem goal = b.meetsItem goal
  meets : ∀ goal, a.meets goal = b.meets goal
  meetsAll : a.meetsAll = b.meetsAll
  held : a.held = b.held
  heldByName : ∀ c, a.heldByName c = b.heldByName c
  /-- Rules hold alike and ask alike, wherever they are evaluated. -/
  holds : ∀ {σ : Type} (ask : Query → σ → Bool × σ) region age times (f : Formula),
    f.holds ask ⟨a, region, age, times⟩ = f.holds ask ⟨b, region, age, times⟩

theorem held_congr (h : a.count = b.count) : a.held = b.held := by
  -- both arrays are read up to the length of the longer one
  rw [a.held_eq_range (Nat.le_max_left _ b.counts.size),
    b.held_eq_range (Nat.le_max_right a.counts.size _), h]

/-- Whether all formulas of a list hold is settled by the formulas one by one. -/
theorem holdsAll_congr {σ : Type} {ask : Query → σ → Bool × σ} {cx cx' : Situation}
    {fs : List Formula} (h : ∀ f ∈ fs, f.holds ask cx = f.holds ask cx') :
    Formula.holdsAll ask cx fs = Formula.holdsAll ask cx' fs := by
  induction fs with
  | nil => rfl
  | cons f fs ih =>
    obtain ⟨hf, hfs⟩ := List.forall_mem_cons.1 h
    funext s
    rw [Formula.holdsAll_cons, Formula.holdsAll_cons, hf, ih hfs]

theorem holdsAny_congr {σ : Type} {ask : Query → σ → Bool × σ} {cx cx' : Situation}
    {fs : List Formula} (h : ∀ f ∈ fs, f.holds ask cx = f.holds ask cx') :
    Formula.holdsAny ask cx fs = Formula.holdsAny ask cx' fs := by
  induction fs with
  | nil => rfl
  | cons f fs ih =>
    obtain ⟨hf, hfs⟩ := List.forall_mem_cons.1 h
    funext s
    rw [Formula.holdsAny_cons, Formula.holdsAny_cons, hf, ih hfs]

theorem meets_congr (hcount : a.count = b.count) : a.meets = b.meets := by
  have hitem : a.meetsItem = b.meetsItem := funext fun goal => by
    rw [meetsItem, meetsItem, has, has, hcount]
  funext goal
  rw [meets, meets, hitem]

section Congr

variable (hbearings : a.bearings = b.bearings) (hcount : a.count = b.count)
include hbearings hcount

theorem tally_congr (t : Tally) : t.value a = t.value b := by
  cases t <;>
    simp only [Tally.value, hearts, medallions, stones, dungeonRewards, ocarinaButtons, countOf,
      hbearings, hcount]

theorem won_congr : a.won = b.won := by
  simp only [won, has, hbearings, hcount]

theorem meetsAll_congr : a.meetsAll = b.meetsAll := by
  rw [meetsAll, meetsAll, hbearings, meets_congr hcount]

theorem hasBottle_congr : a.hasBottle = b.hasBottle := by
  simp only [hasBottle, hasAny, has, hbearings, hcount]

theorem operand_congr (region : Option RegionId) (age : Option Age) (times : TimeOfDay)
    (o : Operand) : o.value ⟨a, region, age, times⟩ = o.value ⟨b, region, age, times⟩ := by
  cases o with
  | age => rfl
  | literal v => rfl
  | itemCount id => rw [Operand.value, Operand.value, hcount]
  | heartCount =>
    have hhearts : a.hearts = b.hearts := by rw [hearts, hearts, hbearings, hcount]
    rw [Operand.value, Operand.value, hhearts]

/-- Rules ask the oracle for the same and hold alike. -/
theorem holds_congr {σ : Type} (ask : Query → σ → Bool × σ) (region : Option RegionId)
    (age : Option Age) (times : TimeOfDay) (f : Formula) :
    f.holds ask ⟨a, region, age, times⟩ = f.holds ask ⟨b, region, age, times⟩ := by
  induction f using Formula.induction with
  | const v => rfl
  | item id => simp only [Formula.holds, has, hcount]
  | count id n => simp only [Formula.holds, has, hcount]
  | any ids => simp only [Formula.holds, hasAny, has, hcount]
  | all ids => simp only [Formula.holds, hasAll, has, hcount]
  | and fs ih => exact holdsAll_congr ih
  | or fs ih => exact holdsAny_congr ih
  | not f ih => simp only [Formula.holds, ih]
  | compare op l r => simp only [Formula.holds, operand_congr hbearings hcount]
  | bottle => simp only [Formula.holds, hasBottle_congr hbearings hcount]
  | atLeast t n => simp only [Formula.holds, tally_congr hbearings hcount]
  | allGoals => simp only [Formula.holds, meetsAll_congr hbearings hcount]
  | won => simp only [Formula.holds, won_congr hbearings hcount]
  | time t e ih =>
    funext s
    cases e with
    | none => rfl
    | some escape =>
      rw [Formula.holds_time_some, Formula.holds_time_some, ih escape rfl]
      rfl

/-- **Only bearings and counters show in the answers.** -/
theorem indiscernible_of_count : a.Indiscernible b where
  bearings := hbearings
  world := congrArg Bearings.world hbearings
  count := congrFun hcount
  has id n := by rw [has, has, hcount]
  hasAny ids := by simp only [hasAny, has, hcount]
  hasAll ids := by simp only [hasAll, has, hcount]
  countOf ids := by rw [countOf, countOf, hcount]
  hasBottle := hasBottle_congr hbearings hcount
  tally := tally_congr hbearings hcount
  won := won_congr hbearings hcount
  meetsPart goal := by rw [meetsPart, meetsPart, has, has, hcount]
  meetsItem goal := by rw [meetsItem, meetsItem, has, has, hcount]
  meets := congrFun (meets_congr hcount)
  meetsAll := meetsAll_congr hbearings hcount
  held := held_congr hcount
  heldByName c := by rw [heldByName, heldByName, held_congr hcount]
  holds ask region age times f := holds_congr hbearings hcount ask region age times f

end Congr

/-! ### Listing by display name -/

/-- What is listed by name is what the items of the catalog count. -/
theorem heldByName_eq_range (inv : Inventory) (c : Catalog) {n : Nat} (hn : inv.counts.size ≤ n) :
    inv.heldByName c = Table.ofList ((List.range n).filterMap fun i =>
      (c.get? ⟨i⟩).bind fun e =>
        if inv.count ⟨i⟩ = 0 then none else some (e.name, inv.count ⟨i⟩)) := by
  rw [heldByName, inv.held_eq_range hn, List.filterMap_map, List.filterMap_filter]
  congr 1
  refine List.filterMap_congr fun i _ => ?_
  simp only [Function.comp_apply, bne_iff_ne, ite_not]
  split
  · cases c.get? ⟨i⟩ <;> rfl
  · cases c.get? ⟨i⟩ <;> rfl

/-- The bindings that are listed by name. -/
theorem mem_named_iff (inv : Inventory) (c : Catalog) (name : String) (n : Count) :
    (name, n) ∈ inv.held.filterMap (fun p => (c.get? p.1).map fun e => (e.name, p.2)) ↔
      n ≠ 0 ∧ ∃ id e, c.get? id = some e ∧ e.name = name ∧ inv.count id = n := by
  simp only [List.mem_filterMap, Prod.exists, mem_held_iff, Option.map_eq_some_iff, Prod.mk.injEq]
  constructor
  · rintro ⟨id, m, ⟨hm, hcount⟩, e, he, hname, rfl⟩
    exact ⟨hm, id, e, he, hname, hcount⟩
  · rintro ⟨hn, id, e, he, hname, hcount⟩
    exact ⟨id, n, ⟨hn, hcount⟩, e, he, hname, rfl⟩

/-- What is listed under the name of an item is its counter, unless that is zero. -/
theorem find?_heldByName (inv : Inventory) {c : Catalog} (hc : c.Indexed) {id : ItemId}
    {e : ItemEntry} (he : c.get? id = some e) :
    (inv.heldByName c).find? e.name = if inv.count id = 0 then none else some (inv.count id) := by
  -- entries of one name have one form, and no two items share a form
  have hsame : ∀ id id' e e', c.get? id = some e → c.get? id' = some e' → e.name = e'.name →
      id = id' := by
    intro id id' e e' he he' hname
    refine hc.distinct id id' e e' he he' ?_
    rw [hc.form id e he, hc.form id' e' he', hname]
  have hiff : ∀ n, (inv.heldByName c).find? e.name = some n ↔ n ≠ 0 ∧ inv.count id = n := by
    intro n
    rw [heldByName, Table.find?_ofList_iff, mem_named_iff]
    · refine and_congr_right fun _ => ⟨?_, fun hcount => ⟨id, e, he, rfl, hcount⟩⟩
      rintro ⟨id', e', he', hname, hcount⟩
      rwa [hsame id id' e e' he he' hname.symm]
    · intro name v w hv hw
      obtain ⟨-, id₁, e₁, he₁, hname₁, rfl⟩ := (mem_named_iff _ _ _ _).1 hv
      obtain ⟨-, id₂, e₂, he₂, hname₂, rfl⟩ := (mem_named_iff _ _ _ _).1 hw
      rw [hsame id₁ id₂ e₁ e₂ he₁ he₂ (hname₁.trans hname₂.symm)]
  refine Option.ext fun n => ?_
  rw [hiff]
  split
  · next hzero =>
    rw [hzero]
    exact ⟨fun ⟨hn, h⟩ => absurd h.symm hn, fun h => nomatch h⟩
  · next hne =>
    rw [Option.some.injEq]
    refine ⟨And.right, fun h => ⟨?_, h⟩⟩
    rwa [← h]

/-- Two inventories list the same by name just when they count the same of each item of the
catalog. -/
theorem heldByName_eq_iff (a b : Inventory) {c : Catalog} (hc : c.Indexed) :
    a.heldByName c = b.heldByName c ↔
      ∀ id e, c.get? id = some e → a.count id = b.count id := by
  constructor
  · -- a counter is what is listed under the item's name, or zero if nothing is
    intro h id e he
    have hfind := a.find?_heldByName hc he
    rw [h, b.find?_heldByName hc he] at hfind
    split at hfind <;> split at hfind
    · next hb ha => rw [ha, hb]
    · cases hfind
    · cases hfind
    · exact (Option.some.inj hfind).symm
  · intro h
    rw [a.heldByName_eq_range c (Nat.le_max_left _ b.counts.size),
      b.heldByName_eq_range c (Nat.le_max_right a.counts.size _)]
    congr 1
    refine List.filterMap_congr fun i _ => ?_
    cases he : c.get? ⟨i⟩ with
    | none => rfl
    | some e => rw [h ⟨i⟩ e he]

/-- **An inventory is a map from items to counts.**  Whatever is collected and given back from
the start on, the bearings stay and the counters are those of the map, so inventories that were
made with different capacities are alike and answer every question alike.  Any two inventories
are alike just when they are of one world and count the same of every item, and list the same by
display name just when they count the same of every item of the catalog, whatever was done with
the catalog. -/
theorem total_map (b : Bearings) (changes : List Change) :
    (∀ capacity, (after b capacity changes).bearings = b ∧
      (after b capacity changes).count = changes.foldl (Change.onCounters b) fun _ => 0) ∧
    (∀ capacity capacity',
      (after b capacity changes).alike (after b capacity' changes) = true ∧
        (after b capacity changes).Indiscernible (after b capacity' changes)) ∧
    (∀ x y : Inventory,
      (x.alike y = true ↔ x.world = y.world ∧ ∀ id, x.count id = y.count id) ∧
        ∀ calls, x.heldByName (Catalog.ofCalls calls) = y.heldByName (Catalog.ofCalls calls) ↔
          ∀ id, id.index < (Catalog.ofCalls calls).size → x.count id = y.count id) := by
  refine ⟨fun capacity => ⟨bearings_after b capacity changes, count_after b capacity changes⟩,
    fun capacity capacity' => ?_, fun x y => ⟨alike_iff, fun calls => ?_⟩⟩
  · have hbearings :
        (after b capacity changes).bearings = (after b capacity' changes).bearings := by
      rw [bearings_after, bearings_after]
    have hcount : (after b capacity changes).count = (after b capacity' changes).count := by
      rw [count_after, count_after]
    exact ⟨alike_iff.2 ⟨congrArg Bearings.world hbearings, congrFun hcount⟩,
      indiscernible_of_count hbearings hcount⟩
  · have hindexed : (Catalog.ofCalls calls).Indexed := Catalog.Indexed.empty.foldl calls
    rw [heldByName_eq_iff x y hindexed]
    refine forall_congr' fun id => ⟨fun h hid => ?_, fun h e he => h (Catalog.index_lt_of_get? he)⟩
    exact h _ (Array.getElem?_eq_getElem hid)

end Inventory

end Progression
