import Progression.Proofs.Growing

/-!
# What collecting an item closes

Collecting an item adds to one counter and takes from none, but for a boss key that comes
with a key ring: its counter is set to one, whatever it was.  So a ring that is collected
after two copies of its boss key takes one of them away, and a rule that asks for both is
true before and false after it.  The only other way to close a growing rule is a total that
passes the greatest count.

Where boss keys come with their rings alone, no counter of theirs gets past one, and a whole
run of collecting closes nothing.

## Main definitions

* `Inventory.OpensNoLess` — all growing rules that hold with one inventory hold with another.
* `Inventory.keyWith?` — the boss key that comes with an item.
* `KeysWithRingsOnly` — of some items, none counts as a boss key that comes with a ring.

## Main results

* `Inventory.opensNoLess_iff` — an inventory opens no less if it counts and totals no less.
* `Inventory.opensNoLess_collect_iff` — **what collecting an item closes.**
* `Inventory.opensNoLess_collected` — **boss keys that come with rings alone close nothing.**
-/

namespace Progression

open Rule

namespace Inventory

variable {inv inv' : Inventory} {e : ItemEntry}

/-! ### What an inventory opens -/

/-- All growing rules that hold with the first inventory hold with the second one, at
whatever place, age and time, and whatever an oracle answers. -/
def OpensNoLess (inv inv' : Inventory) : Prop :=
  ∀ f : Formula, f.growing = true →
    ∀ (region : Option RegionId) (age : Option Age) (times : TimeOfDay) {σ : Type}
      (ask : Query → σ → Bool × σ) (s : σ),
      (f.holds ask ⟨inv, region, age, times⟩ s).1 = true →
      (f.holds ask ⟨inv', region, age, times⟩ s).1 = true

namespace OpensNoLess

theorem count_le (h : OpensNoLess inv inv') (id : ItemId) : inv.count id ≤ inv'.count id := by
  have hrule := h (.count id (inv.count id)) rfl none none .none (fun _ s => (false, s)) ()
  exact of_decide_eq_true (hrule (decide_eq_true (UInt32.le_refl _)))

theorem tally_le (h : OpensNoLess inv inv') (t : Tally) : t.value inv ≤ t.value inv' := by
  refine Count.any_le_iff.2 fun n => ?_
  exact h (.atLeast t n) rfl none none .none (fun _ s => (false, s)) ()

end OpensNoLess

theorem AtMost.opensNoLess (h : inv.AtMost inv')
    (htallies : ∀ t : Tally, t.value inv ≤ t.value inv') : OpensNoLess inv inv' := by
  intro f hf region age times σ ask s hholds
  -- a growing rule asks nothing, so the oracle does not show
  have hgiven : ∀ cx : Situation,
      (f.holds ask cx s).1 = f.holdsGiven (fun _ => false) cx := fun cx =>
    (Formula.holds_eq_holdsGiven (P := fun _ => True) (fun _ _ h => by cases h) _ s
      (Formula.timeless_of_growing f hf) trivial).1
  have hage : (⟨inv, region, age, times⟩ : Situation).age =
      (⟨inv', region, age, times⟩ : Situation).age := rfl
  rw [hgiven] at hholds ⊢
  exact Formula.holdsGiven_of_tallies hage h htallies f hf hholds

/-- An inventory opens no less than another one of its world if it counts no less of each
item, and no less in total. -/
theorem opensNoLess_iff (hbearings : inv.bearings = inv'.bearings) :
    OpensNoLess inv inv' ↔
      (∀ id, inv.count id ≤ inv'.count id) ∧ ∀ t : Tally, t.value inv ≤ t.value inv' :=
  ⟨fun h => ⟨h.count_le, h.tally_le⟩,
    fun ⟨hcount, htallies⟩ => AtMost.opensNoLess ⟨hbearings, hcount⟩ htallies⟩

/-! ### Boss keys -/

/-- The boss key that comes with an item. -/
def keyWith? (inv : Inventory) (e : ItemEntry) : Option ItemId :=
  if e.advancement then inv.bearings.bossKey? e.id else none

theorem collect_eq_keyWith (inv : Inventory) (e : ItemEntry) :
    inv.collect e = (inv.keyWith? e).elim (inv.gain e) fun key => (inv.gain e).setCount key 1 := by
  unfold collect gain keyWith?
  split
  · cases inv.bearings.bossKey? e.id <;> rfl
  · rfl

@[simp] theorem bearings_collect (inv : Inventory) (e : ItemEntry) :
    (inv.collect e).bearings = inv.bearings := by
  rw [collect_eq_keyWith]
  cases inv.keyWith? e with
  | none => exact bearings_gain inv e
  | some key => rw [Option.elim_some, bearings_setCount, bearings_gain]

/-- A boss key that comes with an item then counts one, whatever it counted. -/
theorem count_collect (inv : Inventory) (e : ItemEntry) (id : ItemId) :
    (inv.collect e).count id = if inv.keyWith? e = some id then 1 else (inv.gain e).count id := by
  rw [collect_eq_keyWith]
  cases inv.keyWith? e with
  | none => rfl
  | some key => simp only [Option.elim_some, count_setCount, Option.some.injEq]

/-- Collecting an item lowers a counter just when it comes with a boss key of which there is
more than one copy. -/
theorem count_le_collect_iff (inv : Inventory) (e : ItemEntry) :
    (∀ id, inv.count id ≤ (inv.collect e).count id) ↔
      ∀ key, inv.keyWith? e = some key → inv.count key ≤ 1 := by
  constructor
  · intro h key hkey
    have hcount := h key
    rwa [count_collect, if_pos hkey] at hcount
  · intro h id
    rw [count_collect]
    split
    · next hkey => exact h id hkey
    · exact (atMost_gain inv e).count id

/-- **What collecting an item closes.**  All growing rules that hold stay true just when the
item does not come with a boss key of which there is more than one copy, and no total falls.
No total falls of its own accord as long as all of them fit. -/
theorem opensNoLess_collect_iff (inv : Inventory) (e : ItemEntry) :
    (OpensNoLess inv (inv.collect e) ↔
      (∀ key, inv.keyWith? e = some key → inv.count key ≤ 1) ∧
        ∀ t : Tally, t.value inv ≤ t.value (inv.collect e)) ∧
    ((inv.collect e).TotalsFit →
      (OpensNoLess inv (inv.collect e) ↔
        ∀ key, inv.keyWith? e = some key → inv.count key ≤ 1)) := by
  have hbearings : inv.bearings = (inv.collect e).bearings := (bearings_collect inv e).symm
  have hiff := opensNoLess_iff hbearings
  rw [count_le_collect_iff] at hiff
  refine ⟨hiff, fun hfit => hiff.trans (and_iff_left_of_imp fun hkey => ?_)⟩
  have hatmost : inv.AtMost (inv.collect e) := ⟨hbearings, (count_le_collect_iff inv e).2 hkey⟩
  exact Tally.value_le hatmost hfit

/-! ### Boss keys that come with rings alone -/

/-- None of some items counts as a boss key that comes with a key ring. -/
def KeysWithRingsOnly (b : Bearings) (es : List ItemEntry) : Prop :=
  ∀ e ∈ es, e.advancement = true → (worth e).1 ∉ b.keyRings.map Prod.snd

/-- There is at most one copy of each boss key that comes with a key ring. -/
def SingleKeys (inv : Inventory) : Prop :=
  ∀ key ∈ inv.bearings.keyRings.map Prod.snd, inv.count key ≤ 1

theorem singleKeys_empty (b : Bearings) (capacity : Nat) : SingleKeys (empty b capacity) := by
  intro key _
  rw [count_empty]
  exact UInt32.zero_le

theorem mem_keys_of_keyWith {key : ItemId} (h : inv.keyWith? e = some key) :
    key ∈ inv.bearings.keyRings.map Prod.snd := by
  unfold keyWith? Bearings.bossKey? at h
  split at h
  · obtain ⟨before, after, hrings, -⟩ := List.lookup_eq_some_iff.1 h
    rw [hrings, List.map_append, List.map_cons]
    exact List.mem_append_right _ List.mem_cons_self
  · cases h

theorem SingleKeys.collect (h : SingleKeys inv)
    (he : e.advancement = true → (worth e).1 ∉ inv.bearings.keyRings.map Prod.snd) :
    SingleKeys (inv.collect e) := by
  intro key hkey
  rw [bearings_collect] at hkey
  rw [count_collect]
  split
  · exact UInt32.le_refl 1
  · unfold gain
    split
    · next hadvancement =>
      have hother : (worth e).1 ≠ key := fun hsame => he hadvancement (hsame ▸ hkey)
      rw [count_setCount, if_neg hother]
      exact h key hkey
    · exact h key hkey

theorem SingleKeys.atMost_collect (h : SingleKeys inv) (e : ItemEntry) :
    inv.AtMost (inv.collect e) :=
  ⟨(bearings_collect inv e).symm,
    (count_le_collect_iff inv e).2 fun key hkey => h key (mem_keys_of_keyWith hkey)⟩

/-- What a run of collecting keeps and adds to, as long as boss keys come with rings alone. -/
theorem SingleKeys.collected (h : SingleKeys inv) {es : List ItemEntry}
    (hes : KeysWithRingsOnly inv.bearings es) :
    SingleKeys (es.foldl Inventory.collect inv) ∧ inv.AtMost (es.foldl Inventory.collect inv) := by
  induction es generalizing inv with
  | nil => exact ⟨h, .refl inv⟩
  | cons e es ih =>
    obtain ⟨he, hes⟩ := List.forall_mem_cons.1 hes
    have hrest : KeysWithRingsOnly (inv.collect e).bearings es := by
      rw [bearings_collect]
      exact hes
    obtain ⟨hkeys, hatmost⟩ := ih (h.collect he) hrest
    exact ⟨hkeys, (h.atMost_collect e).trans hatmost⟩

/-- **Boss keys that come with rings alone close nothing.**  If none of the items that are
collected from the start on counts as the boss key of a key ring, and all totals fit in the
end, then each growing rule that holds on the way holds in the end. -/
theorem opensNoLess_collected (b : Bearings) (capacity : Nat) {es es' : List ItemEntry}
    (hkeys : KeysWithRingsOnly b (es ++ es'))
    (hfit : ((es ++ es').foldl collect (empty b capacity)).TotalsFit) :
    OpensNoLess (es.foldl collect (empty b capacity))
      ((es ++ es').foldl collect (empty b capacity)) := by
  obtain ⟨hes, hes'⟩ := List.forall_mem_append.1 hkeys
  obtain ⟨hsingle, hfirst⟩ := (singleKeys_empty b capacity).collected hes
  have hrest : KeysWithRingsOnly (es.foldl collect (empty b capacity)).bearings es' := by
    rw [← hfirst.bearings]
    exact hes'
  obtain ⟨-, hatmost⟩ := hsingle.collected hrest
  rw [List.foldl_append] at hfit ⊢
  exact hatmost.opensNoLess (Tally.value_le hatmost hfit)

/-- A key ring of the Forest Temple. -/
def templeRing : ItemEntry := Catalog.empty.freshEntry "Small Key Ring (Forest Temple)"

/-- The boss key of the Forest Temple. -/
def templeKey : ItemEntry := { Catalog.empty.freshEntry "Boss Key (Forest Temple)" with id := ⟨1⟩ }

/-- So many boss keys in a world where one comes with the key ring. -/
def templeKeys (n : Nat) : Inventory :=
  let b := (Bearings.plain ⟨0⟩ Catalog.empty.groups).addKeyRing templeRing.id templeKey.id
  (List.replicate n templeKey).foldl collect (empty b 2)

/-- With one copy of the boss key the ring closes nothing; with two copies it closes a rule
that asks for both. -/
theorem opensNoLess_templeKeys :
    OpensNoLess (templeKeys 1) ((templeKeys 1).collect templeRing) ∧
      ¬ OpensNoLess (templeKeys 2) ((templeKeys 2).collect templeRing) ∧
      (Formula.count templeKey.id 2).check (templeKeys 2) none .none = true ∧
      (Formula.count templeKey.id 2).check ((templeKeys 2).collect templeRing) none .none =
        false := by
  have hfit : ∀ n < 3, ((templeKeys n).collect templeRing).TotalsFit := by
    unfold TotalsFit
    decide
  have hkey : ∀ n < 3, (templeKeys n).keyWith? templeRing = some templeKey.id := by
    decide
  refine ⟨((opensNoLess_collect_iff _ _).2 (hfit 1 (by decide))).2 ?_, fun hopens => ?_,
    by decide, by decide⟩
  · intro key hring
    rw [hkey 1 (by decide), Option.some.injEq] at hring
    rw [← hring]
    decide
  · have hcount := ((opensNoLess_collect_iff _ _).2 (hfit 2 (by decide))).1 hopens _
      (hkey 2 (by decide))
    revert hcount
    decide

/-- So collecting an item may close a growing rule. -/
theorem templeRing_closes :
    ∃ f : Formula, f.growing = true ∧ f.check (templeKeys 2) none .none = true ∧
      f.check ((templeKeys 2).collect templeRing) none .none = false :=
  ⟨.count templeKey.id 2, rfl, by decide, by decide⟩

end Inventory

end Progression
