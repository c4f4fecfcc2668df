import Progression.Inventory
import Progression.Place
import Progression.Rule.Compare
import Progression.Rule.Formula

/-!
# When a formula holds

A formula is evaluated in a situation: an inventory, the region of the spot it
guards, an age and a time of day.  A test of the time of day that the situation
leaves open is put to an oracle, which says whether the region can be reached at
that time and may remember what it found.  Operands are evaluated from left to
right and only as far as they decide the result.

A total that is too great for a count is no number that a test could compare, and
an evaluation that comes to one stops there.  Its test does not hold.

## Main definitions

* `Situation`, `Query` — what a formula is given, and what it may ask.
* `Formula.holds` — the truth of a formula, and the memory of the oracle after it.
* `Formula.stops` — whether its evaluation comes to a total that is too great.
* `Formula.holdsAt` — its truth where the oracle always says no.
* `Formula.check?` — its truth for an inventory alone, unless the evaluation stops.

## Main results

* `Formula.holds_keeps_of_tests` — an evaluation keeps what the questions of its tests keep.
-/

namespace Progression.Rule

/-- Where a formula is evaluated. -/
structure Situation where
  inventory : Inventory
  /-- The region of the spot that the formula guards. -/
  region : Option RegionId
  age : Option Age
  /-- The time at which the formula is evaluated, empty if left open. -/
  times : TimeOfDay
  deriving Inhabited

/-- A question whether a region can be reached at one of the given times; without
an age, as anybody. -/
structure Query where
  region : RegionId
  age : Option Age
  times : TimeOfDay
  deriving DecidableEq

/-- The number that an inventory counts over a group of items, unless it is too great. -/
def Tally.value : Tally → Inventory → Option Count
  | .hearts, inv => some inv.hearts
  | .medallions, inv => inv.medallions
  | .stones, inv => inv.stones
  | .dungeonRewards, inv => inv.dungeonRewards
  | .ocarinaButtons, inv => inv.ocarinaButtons

/-- The value of a side of a comparison. -/
def Operand.value (cx : Situation) : Operand → Scalar
  | .age => cx.age.elim .missing fun a => .str a.name
  | .literal v => .ofValue v
  | .itemCount id => .int (cx.inventory.count id).toNat
  | .heartCount => .int cx.inventory.hearts.toNat

namespace Formula

section Oracle

variable {σ : Type} (ask : Query → σ → Bool × σ) (cx : Situation)

/-- Ask whether the region of the spot can be reached at one of the times. -/
def askAt (times : TimeOfDay) (s : σ) : Bool × σ :=
  match cx.region with
  | some region => ask ⟨region, cx.age, times⟩ s
  | none => (false, s)

mutual

/-- Whether a formula holds, and the memory of the oracle afterwards.  At a given
time a test of the time of day looks at nothing else. -/
def holds : Formula → σ → Bool × σ
  | .const b, s => (b, s)
  | .item id, s => (cx.inventory.has id 1, s)
  | .count id n, s => (cx.inventory.has id n, s)
  | .any ids, s => (cx.inventory.hasAny ids, s)
  | .all ids, s => (cx.inventory.hasAll ids, s)
  | .and fs, s => holdsAll fs s
  | .or fs, s => holdsAny fs s
  | .not f, s =>
    let (b, s) := holds f s
    (!b, s)
  | .compare op l r, s => ((op.holds? (l.value cx) (r.value cx)).getD false, s)
  | .bottle, s => (cx.inventory.hasBottle, s)
  | .atLeast tally n, s => ((tally.value cx.inventory).any (n ≤ ·), s)
  | .allGoals, s => (cx.inventory.meetsAll, s)
  | .won, s => (cx.inventory.won, s)
  | .time times none, s =>
    if cx.times.isNone then askAt ask cx times s else (cx.times.meets times, s)
  | .time times (some escape), s =>
    if cx.times.isNone then
      let (b, s) := holds escape s
      if b then (true, s) else askAt ask cx times s
    else (cx.times.meets times, s)

/-- Whether all formulas of a list hold, up to the first that does not. -/
def holdsAll : List Formula → σ → Bool × σ
  | [], s => (true, s)
  | f :: fs, s =>
    let (b, s) := holds f s
    if b then holdsAll fs s else (false, s)

/-- Whether a formula of a list holds, up to the first that does. -/
def holdsAny : List Formula → σ → Bool × σ
  | [], s => (false, s)
  | f :: fs, s =>
    let (b, s) := holds f s
    if b then (true, s) else holdsAny fs s

end

mutual

/-- Whether an evaluation comes to a total that is too great, and so stops at it. -/
def stops : Formula → σ → Bool
  | .and fs, s => stopsAll fs s
  | .or fs, s => stopsAny fs s
  | .not f, s => stops f s
  | .atLeast tally _, _ => (tally.value cx.inventory).isNone
  | .time _ (some escape), s => cx.times.isNone && stops escape s
  | _, _ => false

/-- Whether the evaluation of a list stops before a formula that does not hold. -/
def stopsAll : List Formula → σ → Bool
  | [], _ => false
  | f :: fs, s =>
    let (b, t) := holds ask cx f s
    stops f s || b && stopsAll fs t

/-- Whether the evaluation of a list stops before a formula that holds. -/
def stopsAny : List Formula → σ → Bool
  | [], _ => false
  | f :: fs, s =>
    let (b, t) := holds ask cx f s
    stops f s || !b && stopsAny fs t

end

/-! ### Steps of an evaluation -/

section Steps

theorem holdsAll_cons (f : Formula) (fs : List Formula) (s : σ) :
    holdsAll ask cx (f :: fs) s =
      if (f.holds ask cx s).1 then holdsAll ask cx fs (f.holds ask cx s).2
      else (false, (f.holds ask cx s).2) := by
  rw [holdsAll]

theorem holdsAny_cons (f : Formula) (fs : List Formula) (s : σ) :
    holdsAny ask cx (f :: fs) s =
      if (f.holds ask cx s).1 then (true, (f.holds ask cx s).2)
      else holdsAny ask cx fs (f.holds ask cx s).2 := by
  rw [holdsAny]

theorem stopsAll_cons (f : Formula) (fs : List Formula) (s : σ) :
    stopsAll ask cx (f :: fs) s =
      (f.stops ask cx s || (f.holds ask cx s).1 && stopsAll ask cx fs (f.holds ask cx s).2) := by
  rw [stopsAll]

theorem stopsAny_cons (f : Formula) (fs : List Formula) (s : σ) :
    stopsAny ask cx (f :: fs) s =
      (f.stops ask cx s || !(f.holds ask cx s).1 && stopsAny ask cx fs (f.holds ask cx s).2) := by
  rw [stopsAny]

theorem holds_time_none (times : TimeOfDay) (s : σ) :
    (time times none).holds ask cx s =
      if cx.times.isNone then askAt ask cx times s else (cx.times.meets times, s) := by
  rw [holds]

theorem holds_time_some (times : TimeOfDay) (escape : Formula) (s : σ) :
    (time times (some escape)).holds ask cx s =
      if cx.times.isNone then
        if (escape.holds ask cx s).1 then (true, (escape.holds ask cx s).2)
        else askAt ask cx times (escape.holds ask cx s).2
      else (cx.times.meets times, s) := by
  rw [holds]

end Steps

/-! ### What an evaluation keeps -/

section Keeps

variable {ask cx} {P : σ → Prop}

theorem askAt_keeps (hask : ∀ q s, P s → P (ask q s).2) (times : TimeOfDay) (s : σ)
    (h : P s) : P (askAt ask cx times s).2 := by
  unfold askAt
  split
  · exact hask _ s h
  · exact h

theorem holdsAll_keeps_of_mem {fs : List Formula}
    (h : ∀ f ∈ fs, ∀ s, P s → P (f.holds ask cx s).2) (s : σ) (hs : P s) :
    P (holdsAll ask cx fs s).2 := by
  induction fs generalizing s with
  | nil => exact hs
  | cons f fs ih =>
    obtain ⟨hf, hfs⟩ := List.forall_mem_cons.1 h
    rw [holdsAll_cons]
    split
    · exact ih hfs _ (hf s hs)
    · exact hf s hs

theorem holdsAny_keeps_of_mem {fs : List Formula}
    (h : ∀ f ∈ fs, ∀ s, P s → P (f.holds ask cx s).2) (s : σ) (hs : P s) :
    P (holdsAny ask cx fs s).2 := by
  induction fs generalizing s with
  | nil => exact hs
  | cons f fs ih =>
    obtain ⟨hf, hfs⟩ := List.forall_mem_cons.1 h
    rw [holdsAny_cons]
    split
    · exact hf s hs
    · exact ih hfs _ (hf s hs)

/-- An evaluation keeps what the questions keep that are asked by the tests of the formula, in
a situation that leaves the time open. -/
theorem holds_keeps_of_tests (f : Formula) (s : σ) (hs : P s)
    (hask : cx.times.isNone = true → ∀ times ∈ f.tests, ∀ s, P s → P (askAt ask cx times s).2) :
    P (f.holds ask cx s).2 := by
  induction f using Formula.induction generalizing s with
  | const | item | count | any | all | compare | bottle | atLeast | allGoals | won => exact hs
  | and fs ih =>
    exact holdsAll_keeps_of_mem (fun f hf s hs => ih f hf s hs fun hnone times ht =>
      hask hnone times (tests_subset_testsOf hf ht)) s hs
  | or fs ih =>
    exact holdsAny_keeps_of_mem (fun f hf s hs => ih f hf s hs fun hnone times ht =>
      hask hnone times (tests_subset_testsOf hf ht)) s hs
  | not f ih => exact ih s hs hask
  | time times e ih =>
    cases e with
    | none =>
      rw [holds_time_none]
      split
      · next hnone => exact hask hnone times List.mem_cons_self s hs
      · exact hs
    | some escape =>
      rw [holds_time_some]
      split
      · next hnone =>
        -- the escape is evaluated first, and may ask questions of its own
        have hescape := ih escape rfl s hs fun hnone times ht =>
          hask hnone times (List.mem_cons_of_mem _ ht)
        split
        · exact hescape
        · exact hask hnone times List.mem_cons_self _ hescape
      · exact hs

/-- What every answer of the oracle keeps true of its memory, an evaluation keeps true. -/
theorem holds_keeps (hask : ∀ q s, P s → P (ask q s).2) (f : Formula) (s : σ) (h : P s) :
    P (f.holds ask cx s).2 :=
  holds_keeps_of_tests f s h fun _ times _ s hs => askAt_keeps hask times s hs

end Keeps

end Oracle

/-- Whether a formula holds where the oracle always says no. -/
def holdsAt (cx : Situation) (f : Formula) : Bool := (f.holds (fun _ s => (false, s)) cx ()).1

/-- Whether a formula holds for an inventory alone. -/
def check (f : Formula) (inv : Inventory) (age : Option Age) (times : TimeOfDay) : Bool :=
  f.holdsAt ⟨inv, none, age, times⟩

/-- Whether a formula holds for an inventory alone, unless the evaluation stops. -/
def check? (f : Formula) (inv : Inventory) (age : Option Age) (times : TimeOfDay) :
    Option Bool :=
  if f.stops (fun _ s => (false, s)) ⟨inv, none, age, times⟩ () then none
  else some (f.check inv age times)

end Formula

end Progression.Rule
