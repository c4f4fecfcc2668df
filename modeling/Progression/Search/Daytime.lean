import Progression.Rule.Holds
import Progression.Search.Reached
import Progression.World.Basic

/-!
# Times of day in a search

Which regions are reachable at a time of day is found out only when a rule asks
for it.  The time then spreads from the reached regions that have it, through
exits whose rules hold at that time, to other reached regions; no region is
newly reached by it.

## Main definitions

* `Post` — a formula with the world and the region in which it is evaluated.
* `spread` — the spreading of times from exit to exit.
* `reachableAt` — whether a region is reachable as an age at one of some times.
* `evaluate` — the truth of a formula in a search.

## Main statements

* `contains_reachableAt`, `contains_evaluate` — questions reach no region.
-/

namespace Progression

open Rule

/-- A formula with the world and the region in which it is evaluated. -/
structure Post where
  formula : Formula
  world : WorldId
  region : RegionId
  deriving DecidableEq, Inhabited

/-- The rule of an exit, where it is evaluated. -/
def Exit.post (e : Exit) : Post := ⟨e.guard.formula, e.world, e.parent⟩

/-- The rule of a location, where it is evaluated. -/
def Location.post (l : Location) : Post := ⟨l.guard.formula, l.world, l.parent⟩

/-- The inventory of a world. -/
def inventoryOf (invs : Array Inventory) (w : WorldId) : Inventory := invs.getD w.index default

/-- The situation in which a rule is evaluated as an age. -/
def Post.situation (p : Post) (invs : Array Inventory) (age : Age) (times : TimeOfDay) :
    Situation :=
  ⟨inventoryOf invs p.world, some p.region, some age, times⟩

/-! ### Spreading -/

/-- Whether an exit leads to a reached region that lacks some of the times. -/
def Exit.isShort (e : Exit) (times : TimeOfDay) (m : Reached) : Bool :=
  e.connected.any fun target => m.lacks target times

/-- The number of exits that lead to reached regions that lack some of the times. -/
def shortExits (g : Multiworld) (times : TimeOfDay) (m : Reached) : Nat :=
  g.exits.toList.countP fun e => e.isShort times m

/-- A count falls when a condition gets stronger and fails at a member for which it held. -/
theorem countP_lt_countP {α : Type} {p q : α → Bool} {xs : List α}
    (hpq : ∀ x ∈ xs, p x = true → q x = true) {a : α} (ha : a ∈ xs) (hq : q a = true)
    (hp : p a = false) : xs.countP p < xs.countP q := by
  induction xs with
  | nil => exact nomatch ha
  | cons x xs ih =>
    have hle : xs.countP p ≤ xs.countP q :=
      List.countP_mono_left fun y hy => hpq y (List.mem_cons_of_mem _ hy)
    rw [List.countP_cons, List.countP_cons]
    rcases List.mem_cons.1 ha with rfl | ha
    · simp only [hp, hq, Bool.false_eq_true, if_false, if_true]
      omega
    · have hlt := ih (fun y hy => hpq y (List.mem_cons_of_mem _ hy)) ha
      have hx : (if p x = true then 1 else 0) ≤ if q x = true then 1 else 0 := by
        by_cases h : p x = true
        · simp [h, hpq x List.mem_cons_self h]
        · simp [h]
      omega

/-- An exit that is connected is one of the exits. -/
theorem Multiworld.exit_mem {g : Multiworld} {id : ExitId} {target : RegionId}
    (h : (g.exit id).connected = some target) : g.exit id ∈ g.exits.toList := by
  unfold Multiworld.exit at *
  by_cases hi : id.index < g.exits.size
  · simp [Array.getD, hi]
  · simp [Array.getD, hi, show (default : Exit).connected = none from rfl] at h

theorem shortExits_grant_lt {g : Multiworld} {id : ExitId} {target : RegionId}
    {times : TimeOfDay} {m : Reached} (hc : (g.exit id).connected = some target)
    (hl : m.lacks target times = true) :
    shortExits g times (m.grant target times) < shortExits g times m := by
  refine countP_lt_countP ?_ (Multiworld.exit_mem hc) (by simp [Exit.isShort, hc, hl])
    (by simp [Exit.isShort, hc])
  intro e _ he
  cases hcon : e.connected with
  | none => simp [Exit.isShort, hcon] at he
  | some t =>
    simp only [Exit.isShort, hcon, Option.any_some] at he ⊢
    by_cases ht : target = t
    · rwa [← ht]
    · rwa [Reached.lacks_grant_of_ne ht] at he

/-- Spread the times through the queued exits that `passes` lets through, up to the
region `goal`.  The result says whether the goal was among the regions that got them. -/
def spread (g : Multiworld) (passes : Exit → Bool) (goal : RegionId) (times : TimeOfDay)
    (queue : List ExitId) (m : Reached) : Bool × Reached :=
  match queue with
  | [] => (false, m)
  | id :: queue =>
    match _hc : (g.exit id).connected with
    | none => spread g passes goal times queue m
    | some target =>
      if _h : m.lacks target times = true ∧ passes (g.exit id) = true then
        if target = goal then (true, m.grant target times)
        else
          spread g passes goal times (queue ++ (g.region target).exits) (m.grant target times)
      else spread g passes goal times queue m
termination_by (shortExits g times m, queue.length)
decreasing_by
  · exact Prod.Lex.right _ (by simp)
  · exact Prod.Lex.left _ _ (shortExits_grant_lt _hc _h.1)
  · exact Prod.Lex.right _ (by simp)

/-- One exit lets the times through, or it does not. -/
theorem spread_cons (g : Multiworld) (passes : Exit → Bool) (goal : RegionId) (times : TimeOfDay)
    (id : ExitId) (queue : List ExitId) (m : Reached) :
    spread g passes goal times (id :: queue) m =
      match (g.exit id).connected with
      | none => spread g passes goal times queue m
      | some target =>
        if m.lacks target times = true ∧ passes (g.exit id) = true then
          if target = goal then (true, m.grant target times)
          else
            spread g passes goal times (queue ++ (g.region target).exits) (m.grant target times)
        else spread g passes goal times queue m := by
  rw [spread]
  split
  · next hc => rw [hc]
  · next target hc => rw [hc]; rfl

/-- Spreading reaches no region. -/
theorem contains_spread (g : Multiworld) (passes : Exit → Bool) (goal : RegionId)
    (times : TimeOfDay) (queue : List ExitId) (m : Reached) (r : RegionId) :
    (spread g passes goal times queue m).2.contains r = m.contains r := by
  fun_induction spread g passes goal times queue m <;> simp_all

/-! ### Questions -/

/-- The exits of the reached regions of a world that have one of the times. -/
def sourceExits (g : Multiworld) (w : WorldId) (times : TimeOfDay) (m : Reached) : List ExitId :=
  (m.filter fun e => e.2.meets times && (g.region e.1).world == w).flatMap
    fun e => (g.region e.1).exits

/-- Whether a region is reached as an age at one of the times, or at all if no time
is given; and what is known to be reached afterwards. -/
def reachableAt (g : Multiworld) (invs : Array Inventory) (age : Age) (region : RegionId)
    (times : TimeOfDay) (m : Reached) : Bool × Reached :=
  match m.times? region with
  | none => (false, m)
  | some known =>
    if times.isNone || known.meets times then (true, m)
    else
      let passes (e : Exit) := e.post.formula.holdsAt (e.post.situation invs age times)
      spread g passes region times (sourceExits g (g.region region).world times m) m

/-- Whether a rule holds as an age at the given times, and what is known to be reached
afterwards. -/
def evaluate (g : Multiworld) (invs : Array Inventory) (age : Age) (times : TimeOfDay)
    (p : Post) (m : Reached) : Bool × Reached :=
  p.formula.holds (fun q => reachableAt g invs age q.region q.times)
    (p.situation invs age times) m

/-- Asking whether a region is reachable reaches no region. -/
@[simp] theorem contains_reachableAt (g : Multiworld) (invs : Array Inventory) (age : Age)
    (region : RegionId) (times : TimeOfDay) (m : Reached) (r : RegionId) :
    (reachableAt g invs age region times m).2.contains r = m.contains r := by
  unfold reachableAt
  split
  · rfl
  · split
    · rfl
    · exact contains_spread ..

/-- Evaluating a rule reaches no region. -/
@[simp] theorem contains_evaluate (g : Multiworld) (invs : Array Inventory) (age : Age)
    (times : TimeOfDay) (p : Post) (m : Reached) (r : RegionId) :
    (evaluate g invs age times p m).2.contains r = m.contains r :=
  Formula.holds_keeps (P := fun m' => Reached.contains m' r = m.contains r)
    (fun _ _ h => by rw [contains_reachableAt, h]) _ _ rfl

end Progression
