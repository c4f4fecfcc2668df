import Progression.Proofs.Arithmetic
import Progression.Proofs.Counters
import Progression.Proofs.Meaning
import Progression.World.Build

/-!
# Thresholds

A rule asks for a number of copies of an item, as a pair or as a call of `has`, and a hunt asks
for a number of pieces.  The numbers are integers of 64 bits and the counters have 32, so a number
has to become a count first.  No number at zero or below asks for anything.  A number beyond all
counts becomes the greatest count, at which the counters stop: it is reached by the counter that
has stopped, whatever the number is.  All other numbers are reached just when the counter is no
less.

## Main definitions

* `Names` — the item that a term names, with what is registered for it.
* `Lexicon.Threshold` — the number that a pair asks for.
* `Inventory.Reaches` — an inventory has a number of copies, or as many as it can count.

## Main results

* `result_pair_iff`, `result_hasCall_iff` — the formulas of pairs and of calls of `has`.
* `holds_has` — the truth of a test for a number of copies.
* `Multiworld.won_hunt_iff` — when a hunt is won.
* `reaches_thresholds` — **a threshold is passed just when it is reached.**
-/

namespace Progression

open Rule

/-! ### Numbers of copies -/

/-- An inventory has a number of copies, or as many as it can count of an item of which the number
is beyond all counts. -/
def Inventory.Reaches (inv : Inventory) (id : ItemId) (n : Int) : Prop :=
  n ≤ (inv.count id).toNat ∨ Count.greatest < n ∧ (inv.count id).toNat = Count.greatest

namespace Rule

variable {lx : Lexicon} {r t : Registry} {item count : Term} {id : ItemId} {f : Formula}

theorem reaches_iff (inv : Inventory) (id : ItemId) (n : Int) :
    Reading.reaches n (inv.count id) = true ↔ inv.Reaches id n := by
  have hmost := Count.toNat_le_greatest (inv.count id)
  rw [Reading.reaches, decide_eq_true_iff, Inventory.Reaches]
  omega

/-- A test for a number of copies asks nothing, and holds just when the number is reached. -/
theorem holds_has (id : ItemId) (n : Int) {σ : Type} (ask : Query → σ → Bool × σ)
    (cx : Situation) (s : σ) :
    ((Formula.has id n).holds ask cx s).2 = s ∧
      (((Formula.has id n).holds ask cx s).1 = true ↔ cx.inventory.Reaches id n) := by
  -- a constant, an item or a count, none of which asks
  have hplain : (Formula.has id n).holds ask cx s =
      ((Formula.has id n).holdsGiven (fun _ => false) cx, s) := by
    unfold Formula.has
    split
    · rfl
    · split <;> rfl
  rw [hplain, holdsGiven_has, reaches_iff]
  exact ⟨rfl, Iff.rfl⟩

/-! ### Items that terms name -/

/-- The item that a term names in a registry, and the registry afterwards: a name or a text that
is known, or else the new event of a capitalised name or of any text. -/
inductive Names (r : Registry) : Term → ItemId → Registry → Prop where
  | name {word : String} {id : ItemId} :
    r.catalog.lookup word = some id → Names r (.name word) id r
  | text {text : String} {id : ItemId} :
    r.catalog.lookup text = some id → Names r (.str text) id r
  | newName {word : String} :
    r.catalog.lookup word = none → isEventName word = true →
      Names r (.name word) (r.declareEvent (Name.unescape word)).1
        (r.declareEvent (Name.unescape word)).2
  | newText {text : String} :
    r.catalog.lookup text = none →
      Names r (.str text) (r.declareEvent text).1 (r.declareEvent text).2

theorem result_itemNamed_iff {word : String} {term : Term} :
    Action.result (itemNamed lx word term) r = (.ok id, t) ↔ Names r (.name word) id t := by
  unfold itemNamed
  simp only [Action.result_bind, Action.result_get]
  constructor
  · intro h
    split at h
    · next hknown =>
      cases h
      exact .name hknown
    · next hnew =>
      split at h
      · next hevent =>
        cases h
        exact .newName hnew hevent
      · cases h
  · intro h
    cases h with
    | name hknown =>
      rw [hknown]
      rfl
    | newName hnew hevent =>
      rw [hnew, if_pos hevent]
      rfl

theorem result_itemOrEvent_iff {text : String} :
    Action.result (itemOrEvent text) r = (.ok id, t) ↔ Names r (.str text) id t := by
  unfold itemOrEvent
  simp only [Action.result_bind, Action.result_get]
  constructor
  · intro h
    split at h
    · next hknown =>
      cases h
      exact .text hknown
    · next hnew =>
      cases h
      exact .newText hnew
  · intro h
    cases h with
    | text hknown =>
      rw [hknown]
      rfl
    | newText hnew =>
      rw [hnew]
      rfl

theorem result_itemArgument_iff {func : String} {term : Term} :
    Action.result (itemArgument lx func item term) r = (.ok id, t) ↔ Names r item id t := by
  unfold itemArgument
  split
  · exact result_itemNamed_iff
  · exact result_itemOrEvent_iff
  · next hname htext =>
    refine ⟨fun h => (nomatch h), fun h => ?_⟩
    cases h with
    | name _ => exact absurd rfl (hname _)
    | newName _ _ => exact absurd rfl (hname _)
    | text _ => exact absurd rfl (htext _)
    | newText _ => exact absurd rfl (htext _)

/-! ### The formulas of thresholds -/

/-- The number that a pair asks for: one that is written, or the integer that a name stands
for. -/
inductive Lexicon.Threshold (lx : Lexicon) : Term → Int → Prop where
  | written (n : Int) : lx.Threshold (.int n) n
  | named {word : String} {n : Int} :
    (lx.constant? word).bind Value.int? = some n → lx.Threshold (.name word) n

theorem result_countTest_iff {term : Term} :
    Action.result (countTest lx id count term) r = (.ok f, t) ↔
      t = r ∧ ∃ n, lx.Threshold count n ∧ f = .has id n := by
  constructor
  · intro h
    unfold countTest at h
    split at h
    · cases h
      exact ⟨rfl, _, .written _, rfl⟩
    · split at h
      · next hname =>
        cases h
        exact ⟨rfl, _, .named hname, rfl⟩
      · cases h
    · cases h
  · rintro ⟨rfl, n, hn, rfl⟩
    cases hn with
    | written n => rfl
    | named hname =>
      rw [countTest, hname]
      rfl

theorem result_integerArgument_iff {func : String} {term : Term} {n : Int} :
    Action.result (integerArgument lx func count term) r = (.ok n, t) ↔
      t = r ∧ lx.HasInt count n := by
  unfold integerArgument Lexicon.HasInt
  rw [Action.result_bind, Action.result_lift]
  cases lx.literal? count with
  | error e => simp
  | ok v =>
    simp only [Except.ok.injEq]
    cases hn : v.bind Value.int? with
    | none =>
      refine ⟨fun h => (nomatch h), ?_⟩
      rintro ⟨rfl, v', rfl, hn'⟩
      rw [Option.bind_some, hn'] at hn
      cases hn
    | some m =>
      obtain ⟨v', rfl, hv'⟩ := Option.bind_eq_some_iff.1 hn
      constructor
      · intro h
        cases h
        exact ⟨rfl, v', rfl, hv'⟩
      · rintro ⟨rfl, w, hw, hwn⟩
        cases hw
        rw [hv', Option.some.injEq] at hwn
        rw [hwn]
        rfl

/-- **The formula of a pair.** -/
theorem result_pair_iff :
    Action.result (resolve lx (.tuple [item, count])) r = (.ok f, t) ↔
      ∃ id n, Names r item id t ∧ lx.Threshold count n ∧ f = .has id n := by
  have hpair : ∀ {named : Resolve ItemId} {term : Term},
      (∀ id t, Action.result named r = (.ok id, t) ↔ Names r item id t) →
      (Action.result (named >>= fun id => countTest lx id count term) r = (.ok f, t) ↔
        ∃ id n, Names r item id t ∧ lx.Threshold count n ∧ f = .has id n) := by
    intro named term hnamed
    simp only [Action.result_bind_eq_ok_iff, hnamed, result_countTest_iff]
    constructor
    · rintro ⟨id, u, hid, rfl, n, hn, hf⟩
      exact ⟨id, n, hid, hn, hf⟩
    · rintro ⟨id, n, hid, hn, hf⟩
      exact ⟨id, t, hid, rfl, n, hn, hf⟩
  have htuple : resolve lx (.tuple [item, count]) =
      countCondition lx [item, count] (.tuple [item, count]) := rfl
  rw [htuple]
  unfold countCondition
  cases item with
  | name word => exact hpair fun id t => result_itemNamed_iff
  | str text => exact hpair fun id t => result_itemOrEvent_iff
  | _ => exact ⟨fun h => (nomatch h), fun ⟨_, _, h, _⟩ => (nomatch h)⟩

/-- **The formula of a call of `has`.** -/
theorem result_hasCall_iff :
    Action.result (resolve lx (.call "has" [item, count])) r = (.ok f, t) ↔
      ∃ id n, Names r item id t ∧ lx.HasInt count n ∧ f = .has id n := by
  have hcall : resolve lx (.call "has" [item, count]) =
      hasCondition lx [item, count] (.call "has" [item, count]) := rfl
  rw [hcall, hasCondition]
  simp only [Action.result_bind_eq_ok_iff, result_itemArgument_iff, result_integerArgument_iff,
    Action.result_pure, Prod.mk.injEq, Except.ok.injEq]
  constructor
  · rintro ⟨id, u, hid, n, v, ⟨rfl, hn⟩, rfl, rfl⟩
    exact ⟨id, n, hid, hn, rfl⟩
  · rintro ⟨id, n, hid, hn, rfl⟩
    exact ⟨id, t, hid, n, t, ⟨rfl, hn⟩, rfl, rfl⟩

end Rule

/-! ### Hunts -/

/-- A hunt for a number of pieces that is a count, or negative, is won just when there are no
fewer of them. -/
theorem Multiworld.won_hunt_iff (m : Multiworld) (w : WorldId) {goal : Int} {piece : ItemId}
    (hhunt : (m.world w).profile.settings.flag "triforce_hunt" = true)
    (hgoal : (m.world w).profile.settings.int? "triforce_goal_per_world" = some goal)
    (hmost : goal ≤ Count.greatest) (hpiece : m.catalog.lookup "Triforce Piece" = some piece)
    {inv : Inventory} (hinv : inv.bearings = m.bearings w) :
    inv.won = true ↔ goal ≤ (inv.count piece).toNat := by
  have hwin : inv.bearings.win = .hunt (some piece) ((Count.ofInt? goal).getD 0) := by
    rw [hinv, bearings, winCondition, if_pos hhunt, hgoal, Catalog.groups, hpiece, Option.getD_some]
  have hcount : (((Count.ofInt? goal).getD 0).toNat : Int) = max goal 0 := by
    unfold Count.ofInt?
    split
    · rw [Option.getD_some, Count.toNat_ofNat]
      omega
    · rw [Option.getD_none, UInt32.toNat_zero]
      omega
  rw [Inventory.won, hwin]
  simp only [Option.any_some, Inventory.has, decide_eq_true_eq, UInt32.le_iff_toNat_le]
  omega

/-- **A threshold is passed just when it is reached.**  A pair, and a call of `has`, is refused or
becomes the test of an item that its first term names for the number that its second one stands
for.  The test asks for nothing but the counter, and holds just when the number is reached: when
the counter is no less, or when it has stopped and the number is beyond all counts.  A hunt for a
number of pieces that is not beyond all counts is won just when there are no fewer of them,
whatever was collected and given back. -/
theorem reaches_thresholds (lx : Lexicon) (r : Registry) (item count : Term) :
    (∀ f t, Action.result (resolve lx (.tuple [item, count])) r = (.ok f, t) ↔
      ∃ id n, Names r item id t ∧ lx.Threshold count n ∧ f = .has id n) ∧
    (∀ f t, Action.result (resolve lx (.call "has" [item, count])) r = (.ok f, t) ↔
      ∃ id n, Names r item id t ∧ lx.HasInt count n ∧ f = .has id n) ∧
    (∀ (id : ItemId) (n : Int) {σ : Type} (ask : Query → σ → Bool × σ) (cx : Situation) (s : σ),
      ((Formula.has id n).holds ask cx s).1 = true ↔ cx.inventory.Reaches id n) ∧
    ∀ (m : Multiworld) (w : WorldId) (goal : Int) (piece : ItemId)
      (changes : List Inventory.Change),
      (m.world w).profile.settings.flag "triforce_hunt" = true →
      (m.world w).profile.settings.int? "triforce_goal_per_world" = some goal →
      goal ≤ Count.greatest → m.catalog.lookup "Triforce Piece" = some piece →
      ((Inventory.after (m.bearings w) m.catalog.size changes).won = true ↔
        goal ≤ ((Inventory.after (m.bearings w) m.catalog.size changes).count piece).toNat) := by
  refine ⟨fun f t => result_pair_iff, fun f t => result_hasCall_iff,
    fun id n σ ask cx s => (holds_has id n ask cx s).2, ?_⟩
  intro m w goal piece changes hhunt hgoal hmost hpiece
  exact m.won_hunt_iff w hhunt hgoal hmost hpiece (Inventory.bearings_after _ _ changes)

/-- A world where so many pieces are hunted for. -/
def huntWorld (goal : Int) : Multiworld :=
  let settings := Settings.ofList
    [("triforce_hunt", .bool true), ("triforce_goal_per_world", .int goal)]
  let catalog := Catalog.ofCalls [.declare (.advancing "Triforce Piece")]
  ((Multiworld.empty catalog).addWorld { Profile.plain with settings }).2

/-- Collect the pieces of a hunt. -/
def huntedPieces (n : Nat) : Inventory :=
  let piece := Catalog.empty.freshEntry "Triforce Piece"
  .after ((huntWorld 2).bearings ⟨0⟩) (huntWorld 2).catalog.size
    (List.replicate n (.collect piece))

/-- A hunt for two pieces is won by the second one. -/
theorem won_huntedPieces :
    (huntedPieces 1).won = false ∧ (huntedPieces 2).won = true ∧
      (huntWorld 2).catalog.lookup "Triforce Piece" = some ⟨0⟩ := by
  have hpiece : (huntWorld 2).catalog.lookup "Triforce Piece" = some ⟨0⟩ := by decide
  have hwon := fun n => (reaches_thresholds default default default default).2.2.2 (huntWorld 2)
    ⟨0⟩ 2 ⟨0⟩ (List.replicate n (.collect (Catalog.empty.freshEntry "Triforce Piece")))
    (by decide) (by decide) (by decide) hpiece
  refine ⟨?_, (hwon 2).2 (by decide), hpiece⟩
  rw [← Bool.not_eq_true]
  exact fun h => absurd ((hwon 1).1 h) (by decide)

/-- A bow, and a quiver that counts as the greatest number of them. -/
def bowAndQuiver : Catalog :=
  .ofCalls [.declare (.advancing "Bow"),
    .declare { ItemDef.advancing "Quiver" with countsAs := some ("Bow", 4294967295) }]

/-- One copy of the quiver. -/
def oneQuiver : Inventory :=
  .after (.plain ⟨0⟩ bowAndQuiver.groups) bowAndQuiver.size
    ((bowAndQuiver.get? ⟨1⟩).toList.map .collect)

/-- A counter that has stopped passes a rule that asks for one copy more than it counts. -/
theorem passes_beyond_counts :
    let n : Int := 4294967296
    let passes (rule : Term) : Option Bool :=
      ((Action.result (resolve ⟨.plain, .empty, none⟩ rule) ⟨bowAndQuiver, .empty⟩).1.map
        fun f => f.check oneQuiver none .none).toOption
    Integer.fits n = true ∧ (oneQuiver.count ⟨0⟩).toNat < n ∧
      passes (.tuple [.name "Bow", .int n]) = some true ∧
      passes (.call "has" [.name "Bow", .int n]) = some true := by
  decide

end Progression
