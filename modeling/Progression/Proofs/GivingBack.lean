import Progression.Proofs.Foraging
import Progression.Proofs.KeyRings

/-!
# Giving an item back

Giving back the item that was just taken in undoes its copies, as long as its counter did not
stop at the greatest count on the way.  A boss key that comes with a key ring is another
matter.  The ring does not add to its counter but sets it to one, and the ring that is given
back sets it to zero.  What the counter was before is lost, so the two undo each other just
when it was zero: when the key was neither collected by itself nor with an earlier copy of the
ring.

Inventories are compared by their counters alone.  A counter that is zero and one that is not
there count the same, so it does no harm that taking in makes new counters and giving back
leaves them.

## Main definitions

* `Inventory.Fits` — the counter of an item does not stop at the greatest count.
* `Inventory.Undoable` — nothing is lost when items are given back in the opposite order.

## Main results

* `Inventory.alike_iff` — inventories are alike if they are of one world and count the same.
* `Inventory.count_remove` — what an inventory counts after an item was given back.
* `Inventory.alike_remove_collect_iff` — **when giving an item back undoes taking it in.**
* `Inventory.alike_undone` — a run of collecting is undone from its end.
* `Search.alike_uncollect_collect_iff` — the same for the items of a search.
-/

namespace Progression

theorem Count.minus_plus_iff (a n : Count) :
    minus (plus a n) n = a ↔ a.toNat + n.toNat ≤ greatest := by
  have ha := toNat_le_greatest a
  have hn := toNat_le_greatest n
  rw [← UInt32.toNat_inj, toNat_minus, toNat_plus]
  omega

namespace Inventory

variable {a b inv : Inventory} {e : ItemEntry}

/-! ### Alike inventories -/

/-- An inventory holds what it counts among the first items, if these are enough. -/
theorem held_eq_range (inv : Inventory) {n : Nat} (hn : inv.counts.size ≤ n) :
    inv.held = ((List.range n).filter fun i => inv.count ⟨i⟩ != 0).map
      fun i => (⟨i⟩, inv.count ⟨i⟩) := by
  obtain ⟨k, rfl⟩ := Nat.exists_eq_add_of_le hn
  induction k with
  | zero =>
    have hzip : inv.counts.toList.zipIdx =
        (List.range inv.counts.size).map fun i => (inv.count ⟨i⟩, i) := by
      refine List.ext_getElem (by simp) fun i hi _ => ?_
      have hsize : i < inv.counts.size := by simpa using hi
      simp [count, Array.getD, hsize]
    rw [held, hzip, List.filter_map, List.map_map]
    rfl
  | succ k ih =>
    have hzero : inv.count ⟨inv.counts.size + k⟩ = 0 := by
      rw [count, Array.getD_eq_getD_getElem?, Array.getElem?_eq_none (by simp), Option.getD_none]
    rw [ih (Nat.le_add_right _ k), ← Nat.add_assoc, List.range_succ, List.filter_append]
    simp [hzero]

theorem mem_held_iff (inv : Inventory) (id : ItemId) (n : Count) :
    (id, n) ∈ inv.held ↔ n ≠ 0 ∧ inv.count id = n := by
  obtain ⟨i⟩ := id
  rw [inv.held_eq_range (Nat.le_max_left inv.counts.size (i + 1))]
  simp only [List.mem_map, List.mem_filter, List.mem_range, bne_iff_ne, Prod.mk.injEq,
    ItemId.mk.injEq]
  constructor
  · rintro ⟨j, ⟨-, hj⟩, rfl, rfl⟩
    exact ⟨hj, rfl⟩
  · rintro ⟨hn, hcount⟩
    exact ⟨i, ⟨by omega, by rwa [hcount]⟩, rfl, hcount⟩

/-- Inventories are alike if they are of one world and count the same. -/
theorem alike_iff : a.alike b = true ↔ a.world = b.world ∧ ∀ id, a.count id = b.count id := by
  rw [alike, Bool.and_eq_true, beq_iff_eq, beq_iff_eq]
  refine and_congr_right fun _ => ⟨fun hheld id => ?_, fun hcount => ?_⟩
  · -- an item that is not held counts zero, so the lists settle every counter
    by_cases hzero : a.count id = 0
    · by_contra hne
      have hnonzero : b.count id ≠ 0 := fun hother => hne (hzero.trans hother.symm)
      have hmem : (id, b.count id) ∈ b.held := (mem_held_iff _ _ _).2 ⟨hnonzero, rfl⟩
      rw [← hheld, mem_held_iff] at hmem
      exact hne hmem.2
    · have hmem : (id, a.count id) ∈ a.held := (mem_held_iff _ _ _).2 ⟨hzero, rfl⟩
      rw [hheld, mem_held_iff] at hmem
      exact hmem.2.symm
  · rw [a.held_eq_range (Nat.le_max_left _ b.counts.size),
      b.held_eq_range (Nat.le_max_right a.counts.size _)]
    simp only [hcount]

/-! ### What giving back does -/

@[simp] theorem bearings_remove (inv : Inventory) (e : ItemEntry) :
    (inv.remove e).bearings = inv.bearings := by
  unfold remove
  split
  · cases inv.bearings.bossKey? e.id <;> rfl
  · rfl

/-- A counter that is there is set; one that is not there counts zero and stays at zero. -/
theorem count_lowered (inv : Inventory) (id x : ItemId) (n : Count) :
    ({ inv with
        counts := inv.counts.setIfInBounds id.index (Count.minus (inv.count id) n) } :
          Inventory).count x =
      if id = x then Count.minus (inv.count id) n else inv.count x := by
  obtain ⟨i⟩ := id
  obtain ⟨j⟩ := x
  simp only [count, Array.getD_eq_getD_getElem?, ItemId.mk.injEq, Array.getElem?_setIfInBounds]
  split
  · next hij =>
    subst hij
    split
    · rfl
    · next hsize =>
      rw [Array.getElem?_eq_none (by omega), Option.getD_none, ← UInt32.toNat_inj,
        Count.toNat_minus, UInt32.toNat_zero, Nat.zero_sub]
  · rfl

/-- What an inventory counts after an item was given back.  The boss key that comes with it
counts zero, whatever it counted. -/
theorem count_remove (inv : Inventory) (e : ItemEntry) (id : ItemId) :
    (inv.remove e).count id =
      if inv.keyWith? e = some id then 0
      else if e.advancement = true ∧ (worth e).1 = id then Count.minus (inv.count id) (worth e).2
      else inv.count id := by
  unfold remove keyWith?
  by_cases hadvancement : e.advancement = true
  · have hlowered := inv.count_lowered (worth e).1 id (worth e).2
    simp only [hadvancement, if_true, true_and]
    cases inv.bearings.bossKey? e.id with
    | none =>
      simp only [hlowered, reduceCtorEq, if_false]
      split
      · next hworth => rw [hworth]
      · rfl
    | some key =>
      simp only [count_setCount, hlowered, Option.some.injEq]
      split
      · rfl
      · split
        · next hworth => rw [hworth]
        · rfl
  · simp [hadvancement]

theorem keyWith_congr (h : a.bearings = b.bearings) (e : ItemEntry) :
    a.keyWith? e = b.keyWith? e := by
  rw [keyWith?, keyWith?, h]

theorem count_gain (inv : Inventory) (e : ItemEntry) (id : ItemId) :
    (inv.gain e).count id =
      if e.advancement = true ∧ (worth e).1 = id then Count.plus (inv.count id) (worth e).2
      else inv.count id := by
  unfold gain
  by_cases hadvancement : e.advancement = true
  · simp only [hadvancement, if_true, true_and, count_setCount]
    split
    · next hworth => rw [hworth]
    · rfl
  · simp [hadvancement]

/-! ### Giving back what was taken in -/

/-- The counter of an item does not stop at the greatest count when the item is taken in. -/
def Fits (inv : Inventory) (e : ItemEntry) : Prop :=
  e.advancement = true →
    (inv.count (worth e).1).toNat + (worth e).2.toNat ≤ Count.greatest

theorem count_remove_collect (inv : Inventory) (e : ItemEntry) (id : ItemId) :
    ((inv.collect e).remove e).count id =
      if inv.keyWith? e = some id then 0
      else if e.advancement = true ∧ (worth e).1 = id then
        Count.minus (Count.plus (inv.count id) (worth e).2) (worth e).2
      else inv.count id := by
  rw [count_remove, keyWith_congr (bearings_collect inv e), count_collect, count_gain]
  split
  · rfl
  · split <;> rfl

/-- Every counter is as it was just when the item's own did not stop at the greatest count and
the boss key that comes with the item, if one does, counted zero before. -/
theorem count_restored_iff (inv : Inventory) (e : ItemEntry) :
    (∀ id, ((inv.collect e).remove e).count id = inv.count id) ↔
      inv.Fits e ∧ ∀ key, inv.keyWith? e = some key → inv.count key = 0 := by
  constructor
  · intro hcount
    have hkey : ∀ key, inv.keyWith? e = some key → inv.count key = 0 := by
      intro key hkey
      rw [← hcount key, count_remove_collect, if_pos hkey]
    refine ⟨fun hadvancement => ?_, hkey⟩
    by_cases hself : inv.keyWith? e = some (worth e).1
    · -- the item counts as its own boss key, of which there was none
      have hmost := Count.toNat_le_greatest (worth e).2
      rw [hkey _ hself, UInt32.toNat_zero]
      omega
    · have hworth := hcount (worth e).1
      rw [count_remove_collect, if_neg hself, if_pos ⟨hadvancement, rfl⟩] at hworth
      exact (Count.minus_plus_iff _ _).1 hworth
  · rintro ⟨hfits, hkey⟩ id
    rw [count_remove_collect]
    split
    · next hring => exact (hkey id hring).symm
    · split
      · next hworth =>
        obtain ⟨hadvancement, rfl⟩ := hworth
        exact (Count.minus_plus_iff _ _).2 (hfits hadvancement)
      · rfl

theorem world_remove_collect (inv : Inventory) (e : ItemEntry) :
    ((inv.collect e).remove e).world = inv.world := by
  rw [world, world, bearings_remove, bearings_collect]

/-- **When giving an item back undoes taking it in.**  The inventory is as it was just when
the item's counter did not stop at the greatest count and the boss key that comes with the
item, if one does, counted zero before. -/
theorem alike_remove_collect_iff (inv : Inventory) (e : ItemEntry) :
    ((inv.collect e).remove e).alike inv = true ↔
      inv.Fits e ∧ ∀ key, inv.keyWith? e = some key → inv.count key = 0 := by
  rw [alike_iff, and_iff_right (world_remove_collect inv e)]
  exact count_restored_iff inv e

/-- A boss key that was collected before its ring is gone when the ring is given back, though
no counter is anywhere near the greatest count. -/
theorem not_alike_templeKeys :
    templeKeys 1 = (templeKeys 0).collect templeKey ∧ (templeKeys 1).Fits templeRing ∧
      (((templeKeys 1).collect templeRing).remove templeRing).alike (templeKeys 1) = false := by
  refine ⟨rfl, fun _ => ?_, ?_⟩
  · decide
  · decide

/-! ### Runs -/

/-- Nothing is lost when items that are taken in one after the other are given back in the
opposite order. -/
def Undoable (inv : Inventory) : List ItemEntry → Prop
  | [] => True
  | e :: es =>
    inv.Fits e ∧ (∀ key, inv.keyWith? e = some key → inv.count key = 0) ∧
      (inv.collect e).Undoable es

/-- Giving an item back does not tell inventories apart that count the same. -/
theorem count_remove_congr (hbearings : a.bearings = b.bearings)
    (hcount : ∀ id, a.count id = b.count id) (e : ItemEntry) (id : ItemId) :
    (a.remove e).count id = (b.remove e).count id := by
  rw [count_remove, count_remove, keyWith_congr hbearings, hcount]

/-- A run of collecting is undone when the items are given back in the opposite order. -/
theorem alike_undone {es : List ItemEntry} (h : inv.Undoable es) :
    (es.foldr (fun e inv => inv.remove e) (es.foldl collect inv)).alike inv = true := by
  suffices hsame : (es.foldr (fun e inv => inv.remove e) (es.foldl collect inv)).bearings =
      inv.bearings ∧ ∀ id,
        (es.foldr (fun e inv => inv.remove e) (es.foldl collect inv)).count id = inv.count id from
    alike_iff.2 ⟨congrArg Bearings.world hsame.1, hsame.2⟩
  induction es generalizing inv with
  | nil => exact ⟨rfl, fun _ => rfl⟩
  | cons e es ih =>
    obtain ⟨hfits, hkey, hrest⟩ := h
    obtain ⟨hbearings, hcount⟩ := ih hrest
    rw [List.foldl_cons, List.foldr_cons]
    refine ⟨by rw [bearings_remove, hbearings, bearings_collect], fun id => ?_⟩
    rw [count_remove_congr hbearings hcount]
    exact (count_restored_iff inv e).2 ⟨hfits, hkey⟩ id

end Inventory

/-! ### Searches -/

namespace Search

/-- Giving an item back that a search has just taken in leaves what the search knows of the
places and every inventory as they were, if it undoes taking the item in. -/
theorem alike_uncollect_collect_iff (g : Multiworld) (s : Search) (item : PlacedItem)
    {e : ItemEntry} (he : g.catalog.get? item.id = some e)
    (hworld : item.world.index < s.inventories.size) :
    ((s.collect g item).uncollect g item).progress = s.progress ∧
      ((∀ w, (((s.collect g item).uncollect g item).inventory w).alike (s.inventory w) = true) ↔
        (s.inventory item.world).Fits e ∧
          ∀ key, (s.inventory item.world).keyWith? e = some key →
            (s.inventory item.world).count key = 0) := by
  have hinventory : ∀ w, ((s.collect g item).uncollect g item).inventory w =
      if item.world.index = w.index ∧ w.index < s.inventories.size then
        ((s.inventory w).collect e).remove e
      else s.inventory w := by
    intro w
    simp only [inventory, collect, uncollect, withItem, he, inventoryOf_modify, Array.size_modify]
    split <;> rfl
  refine ⟨by simp only [collect, uncollect, withItem, he], ?_⟩
  rw [← Inventory.count_restored_iff]
  constructor
  · intro h
    have hhere := h item.world
    rw [hinventory, if_pos ⟨rfl, hworld⟩] at hhere
    exact (Inventory.alike_iff.1 hhere).2
  · intro h w
    rw [hinventory]
    split
    · next hw =>
      have hsame : item.world = w := congrArg WorldId.mk hw.1
      rw [← hsame]
      exact Inventory.alike_iff.2 ⟨Inventory.world_remove_collect _ e, h⟩
    · exact Inventory.alike_iff.2 ⟨rfl, fun _ => rfl⟩

end Search

end Progression
