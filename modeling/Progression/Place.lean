/-!
# Places

The regions, exits and locations of all worlds are numbered together, in the
order in which they are made.

## Main definitions

* `RegionId`, `ExitId`, `LocationId` — their numbers.
* `Spot` — what a rule can guard.
-/

namespace Progression

/-- The number of a region. -/
structure RegionId where
  index : Nat
  deriving DecidableEq, Inhabited

/-- The number of an exit. -/
structure ExitId where
  index : Nat
  deriving DecidableEq, Inhabited

/-- The number of a location. -/
structure LocationId where
  index : Nat
  deriving DecidableEq, Inhabited

/-- What a rule can guard. -/
inductive Spot where
  | location (id : LocationId)
  | exit (id : ExitId)
  deriving DecidableEq, Inhabited

end Progression
