import Progression.Search.Visit

/-!
# Questions to a search

## Main definitions

* `Search.reachableRegions` — the regions reached as some ages.
* `Search.canReach` — whether a region is reachable.
* `Search.spotAccess`, `Search.canReachSpot` — whether a spot is accessible.
* `Search.allWorlds`, `Search.canBeatGame` — whether all worlds can be won.
-/

namespace Progression

namespace Search

/-- The regions reached as the ages of a scope. -/
def reachableRegions (s : Search) : AgeScope → List RegionId
  | .child => s.progress.child.reached.map Prod.fst
  | .adult => s.progress.adult.reached.map Prod.fst
  | .both =>
    (s.progress.adult.reached.map Prod.fst).filter fun r => s.progress.child.reached.contains r
  | .either =>
    let child := s.progress.child.reached
    child.map Prod.fst ++
      (s.progress.adult.reached.map Prod.fst).filter fun r => !child.contains r

/-- Whether a region is reachable as the ages of a scope, at one of the times if any
is given. -/
def canReach (g : Multiworld) (region : RegionId) (scope : AgeScope) (times : TimeOfDay) :
    Search → Bool × Search :=
  let as age := reachableAt g age region times
  match scope with
  | .child => as .child
  | .adult => as .adult
  | .both => bothHold (as .adult) (as .child)
  | .either => eitherHolds (as .adult) (as .child)

/-- The rule of a spot, where it is evaluated. -/
def postOf (g : Multiworld) : Spot → Post
  | .location id => (g.location id).post
  | .exit id => (g.exit id).post

/-- Whether the region of a spot is reachable and its rule holds as an age. -/
def spotAccessAs (g : Multiworld) (p : Post) (times : TimeOfDay) (age : Age) :
    Search → Bool × Search :=
  bothHold (reachableAt g age p.region times) (evaluate g age times p)

/-- Whether the region of a spot is reachable and its rule holds, as the ages of a
scope. -/
def spotAccess (g : Multiworld) (spot : Spot) (scope : AgeScope) (times : TimeOfDay) :
    Search → Bool × Search :=
  let p := postOf g spot
  match scope with
  | .child => spotAccessAs g p times .child
  | .adult => spotAccessAs g p times .adult
  | .either => eitherHolds (spotAccessAs g p times .adult) (spotAccessAs g p times .child)
  | .both =>
    bothHold (canReach g p.region .both times)
      (bothHold (evaluate g .adult times p) (evaluate g .child times p))

/-- Whether the location of a name in a world is accessible. -/
def canReachSpot (g : Multiworld) (w : WorldId) (name : String) (scope : AgeScope)
    (times : TimeOfDay) (s : Search) : Bool × Search :=
  match g.locationNamed? w name with
  | some id => s.spotAccess g (.location id) scope times
  | none => (false, s)

/-- Whether the inventories of all worlds satisfy a condition. -/
def allWorlds (s : Search) (condition : Inventory → Bool) : Bool :=
  s.inventories.all condition

/-- Whether the inventories of all worlds satisfy a condition, now or, if `scan` is
set, after everything worth visiting is collected. -/
def canBeatGameWith (s : Search) (g : Multiworld) (scan : Bool) (condition : Inventory → Bool) :
    Bool :=
  s.allWorlds condition || (scan && (s.collectLocations g []).allWorlds condition)

/-- Whether all worlds are won, now or after everything worth visiting is collected. -/
def canBeatGame (s : Search) (g : Multiworld) (scan : Bool) : Bool :=
  s.canBeatGameWith g scan Inventory.won

end Search

end Progression
