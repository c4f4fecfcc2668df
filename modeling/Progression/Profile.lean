import Progression.Goal
import Progression.Settings

/-!
# World profiles

## Main definitions

* `Profile` — how a world is configured.
-/

namespace Progression

/-- How a world is configured. -/
structure Profile where
  settings : Settings
  /-- Further named values, looked up after the settings. -/
  attributes : Settings
  /-- Whether tests of the time of day are real; else they always hold. -/
  timeMatters : Bool
  /-- The notes of each song. -/
  songs : Table String String
  /-- The dungeons whose key ring comes with the boss key. -/
  keyRingDungeons : List String
  /-- The regions with shortcuts. -/
  shortcuts : List String
  goals : List GoalCategory
  deriving DecidableEq, Inhabited

namespace Profile

/-- A world without any configuration. -/
def plain : Profile := ⟨.empty, .empty, false, [], [], [], []⟩

/-- The value of a setting, or else of an attribute. -/
def constant? (p : Profile) (name : String) : Option Value :=
  (p.settings.get? name).or (p.attributes.get? name)

end Profile

end Progression
