import Progression.Search.Query

/-!
# Goals met in a search

## Main definitions

* `CategoryGoals` — who meets which goals of a category.
* `GoalReport` — the same for several categories, and whether all worlds are won.
* `Search.testGoals`, `Search.goalsMet`, `Search.beatableGoals` — the reports of a search.
-/

namespace Progression

/-- Who meets which goals of a category. -/
structure CategoryGoals where
  /-- The worlds that meet a goal in full, for every goal of the tested worlds. -/
  goals : Table String (List WorldId)
  /-- The goals that a tested world meets in full. -/
  byWorld : Table WorldId (List String)
  deriving DecidableEq, Inhabited

namespace CategoryGoals

/-- Nothing tested. -/
def empty : CategoryGoals := ⟨[], []⟩

/-- Test a goal against the inventory of a world. -/
def testGoal (inv : Inventory) (c : CategoryGoals) (goal : Goal) : CategoryGoals :=
  let met := inv.meets goal
  { goals := c.goals.update goal.name fun worlds =>
      worlds.getD [] ++ if met then [inv.world] else []
    byWorld := c.byWorld.update inv.world fun names =>
      names.getD [] ++ if met then [goal.name] else [] }

/-- Test the first category of the given name, if a world has one. -/
def testWorld (name : String) (c : CategoryGoals) (inv : Inventory) : CategoryGoals :=
  let c := { c with byWorld := c.byWorld.update inv.world (·.getD []) }
  match inv.bearings.goals.find? (·.name == name) with
  | some category => category.goals.foldl (testGoal inv) c
  | none => c

end CategoryGoals

/-- Who meets which goals of several categories. -/
structure GoalReport where
  categories : Table String CategoryGoals
  /-- Whether all worlds are won. -/
  wayOfTheHero : Bool
  deriving DecidableEq, Inhabited

namespace Search

/-- The inventories of all worlds, or of one. -/
def inventoriesOf (s : Search) (w : Option WorldId) : List Inventory :=
  s.inventories.toList.filter fun inv => w.all (inv.world == ·)

/-- Test the named categories of goals against the inventories of all worlds or of
one. -/
def testGoals (s : Search) (names : List String) (w : Option WorldId) :
    Table String CategoryGoals :=
  names.foldl (fun t name => t.update name fun c =>
    (s.inventoriesOf w).foldl (CategoryGoals.testWorld name) (c.getD .empty)) []

/-- The goals that are met by what is collected, and whether all worlds are won. -/
def goalsMet (s : Search) (names : List String) (w : Option WorldId) : GoalReport :=
  ⟨s.testGoals names w, s.allWorlds Inventory.won⟩

/-- The goals that are met after everything worth visiting is collected. -/
def beatableGoals (s : Search) (g : Multiworld) (names : List String) : GoalReport :=
  (s.collectLocations g []).goalsMet names none

end Search

end Progression
