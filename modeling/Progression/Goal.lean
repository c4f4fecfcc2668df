import Progression.Item

/-!
# Goals

## Main definitions

* `ItemGoal`, `Goal`, `GoalCategory` — what a world may ask to be collected.
* `WinCondition` — when a world is won.
-/

namespace Progression

/-- A number of copies of an item to be collected. -/
structure ItemGoal where
  name : String
  item : ItemId
  /-- The count from which on the goal is met in part. -/
  minimum : Count
  /-- The count from which on the goal is met in full. -/
  quantity : Count
  deriving DecidableEq, Inhabited

/-- A goal: several items to be collected. -/
structure Goal where
  name : String
  items : List ItemGoal
  deriving DecidableEq, Inhabited

/-- A named list of goals. -/
structure GoalCategory where
  name : String
  goals : List Goal
  deriving DecidableEq, Inhabited

/-- When a world is won. -/
inductive WinCondition where
  /-- The item has been collected; without an item never. -/
  | triforce (item : Option ItemId)
  /-- The goal's number of pieces has been collected; without a piece never. -/
  | hunt (piece : Option ItemId) (goal : Count)
  deriving DecidableEq, Inhabited

end Progression
