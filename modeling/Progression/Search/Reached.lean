import Progression.Age
import Progression.Place

/-!
# Reached regions

A search keeps, for each age, the regions that it has reached, each with the
times of day at which it is known to be reachable, and the exits that are still
to be tried.

## Main definitions

* `Reached` — the reached regions with their times.
* `Reached.insert`, `Reached.grant` — reach a region, or add times to one.
* `Frontier` — the reached regions of one age and the exits to be tried.
* `Progress` — both frontiers and the visited locations.
-/

namespace Progression

/-- The reached regions in the order in which they were reached, with their times. -/
abbrev Reached := List (RegionId × TimeOfDay)

namespace Reached

/-- The times at which a region is reached, if it is. -/
def times? (r : RegionId) : Reached → Option TimeOfDay
  | [] => none
  | e :: m => if e.1 = r then some e.2 else times? r m

/-- Whether a region is reached. -/
def contains (m : Reached) (r : RegionId) : Bool := (times? r m).isSome

/-- Reach a region at the given times, in place of the times it had. -/
def insert (r : RegionId) (t : TimeOfDay) : Reached → Reached
  | [] => [(r, t)]
  | e :: m => if e.1 = r then (r, t) :: m else e :: insert r t m

/-- Add times to a region, if it is reached. -/
def grant (r : RegionId) (t : TimeOfDay) : Reached → Reached
  | [] => []
  | e :: m => if e.1 = r then (r, e.2.union t) :: m else e :: grant r t m

/-- Whether a region is reached, but not at all of the given times. -/
def lacks (m : Reached) (r : RegionId) (t : TimeOfDay) : Bool :=
  (times? r m).any fun u => !u.contains t

/-- Whether two lists of reached regions say the same, whatever their order. -/
def alike (a b : Reached) : Bool :=
  a.all (fun e => times? e.1 b == some e.2) && b.all fun e => times? e.1 a == some e.2

@[simp] theorem times?_nil (r : RegionId) : times? r [] = none := rfl

theorem times?_cons (r : RegionId) (e : RegionId × TimeOfDay) (m : Reached) :
    times? r (e :: m) = if e.1 = r then some e.2 else times? r m := rfl

theorem times?_insert (r s : RegionId) (t : TimeOfDay) (m : Reached) :
    times? s (insert r t m) = if r = s then some t else times? s m := by
  induction m with
  | nil => rfl
  | cons e m ih =>
    by_cases her : e.1 = r <;> by_cases hrs : r = s <;>
      simp_all [insert, times?_cons]

theorem times?_grant (r s : RegionId) (t : TimeOfDay) (m : Reached) :
    times? s (grant r t m) = if r = s then (times? s m).map (·.union t) else times? s m := by
  induction m with
  | nil => simp [grant]
  | cons e m ih =>
    by_cases her : e.1 = r <;> by_cases hrs : r = s <;>
      simp_all [grant, times?_cons]

@[simp] theorem contains_insert (r s : RegionId) (t : TimeOfDay) (m : Reached) :
    (insert r t m).contains s = (decide (r = s) || m.contains s) := by
  by_cases h : r = s <;> simp [contains, times?_insert, h]

/-- Adding times to a region reaches no further one. -/
@[simp] theorem contains_grant (r s : RegionId) (t : TimeOfDay) (m : Reached) :
    (grant r t m).contains s = m.contains s := by
  by_cases h : r = s <;> simp [contains, times?_grant, h]

/-- A region lacks nothing that was just added to it. -/
@[simp] theorem lacks_grant_self (r : RegionId) (t : TimeOfDay) (m : Reached) :
    (grant r t m).lacks r t = false := by
  cases h : times? r m <;> simp [lacks, times?_grant, h]

theorem lacks_grant_of_ne {r s : RegionId} (h : r ≠ s) (t u : TimeOfDay) (m : Reached) :
    (grant r t m).lacks s u = m.lacks s u := by
  simp [lacks, times?_grant, h]

end Reached

/-- What is reached as one age, and the exits to be tried next. -/
structure Frontier where
  queue : List ExitId
  reached : Reached
  deriving DecidableEq, Inhabited

/-- Everything that a search has found out. -/
structure Progress where
  child : Frontier
  adult : Frontier
  /-- The visited locations, the latest first. -/
  visited : List LocationId
  deriving DecidableEq, Inhabited

namespace Progress

/-- The frontier of an age. -/
def frontier (p : Progress) : Age → Frontier
  | .child => p.child
  | .adult => p.adult

/-- Replace the frontier of an age. -/
def setFrontier (p : Progress) (age : Age) (f : Frontier) : Progress :=
  match age with
  | .child => { p with child := f }
  | .adult => { p with adult := f }

/-- Replace what is reached as an age. -/
def setReached (p : Progress) (age : Age) (m : Reached) : Progress :=
  p.setFrontier age { p.frontier age with reached := m }

/-- What is reached as an age. -/
def reached (p : Progress) (age : Age) : Reached := (p.frontier age).reached

/-- Mark a location as visited. -/
def visit (p : Progress) (id : LocationId) : Progress :=
  if id ∈ p.visited then p else { p with visited := id :: p.visited }

/-- Whether two searches have found out the same. -/
def alike (a b : Progress) : Bool :=
  a.child.queue == b.child.queue && a.adult.queue == b.adult.queue &&
    a.child.reached.alike b.child.reached && a.adult.reached.alike b.adult.reached &&
    a.visited.all (· ∈ b.visited) && b.visited.all (· ∈ a.visited)

@[simp] theorem frontier_setFrontier_self (p : Progress) (age : Age) (f : Frontier) :
    (p.setFrontier age f).frontier age = f := by
  cases age <;> rfl

@[simp] theorem visited_setFrontier (p : Progress) (age : Age) (f : Frontier) :
    (p.setFrontier age f).visited = p.visited := by
  cases age <;> rfl

@[simp] theorem visited_setReached (p : Progress) (age : Age) (m : Reached) :
    (p.setReached age m).visited = p.visited :=
  visited_setFrontier ..

theorem mem_visited_visit {p : Progress} {id l : LocationId} :
    l ∈ (p.visit id).visited ↔ l = id ∨ l ∈ p.visited := by
  unfold visit
  split
  · next h =>
    constructor
    · exact .inr
    · rintro (rfl | hl)
      · exact h
      · exact hl
  · exact List.mem_cons

end Progress

end Progression
