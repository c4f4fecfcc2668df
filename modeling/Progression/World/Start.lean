import Progression.World.Basic

/-!
# Starting inventories

## Main definitions

* `Multiworld.bearings` — the bearings that a world's profile gives.
* `Multiworld.initialInventories` — the empty inventories of all worlds.
-/

namespace Progression

namespace Multiworld

/-- The boss key that comes with an entry under a profile, if the entry is a key
ring of a dungeon for which the profile wants that. -/
def keyRing? (m : Multiworld) (p : Profile) (e : ItemEntry) : Option (ItemId × ItemId) := do
  let dungeon ← e.keyRing
  if p.keyRingDungeons.contains dungeon then
    return (e.id, ← m.catalog.bossKey? dungeon)
  else none

/-- When a world with the given profile is won. -/
def winCondition (groups : ItemGroups) (p : Profile) : WinCondition :=
  if p.settings.flag "triforce_hunt" then
    let goal := (p.settings.int? "triforce_goal_per_world").getD 1
    .hunt groups.triforcePiece ((Count.ofInt? goal).getD 0)
  else .triforce groups.triforce

/-- The bearings of a world's inventories. -/
def bearings (m : Multiworld) (w : WorldId) : Bearings :=
  let p := (m.world w).profile
  let groups := m.catalog.groups
  ⟨w, groups, m.catalog.entries.toList.filterMap (m.keyRing? p), winCondition groups p, p.goals⟩

/-- One empty inventory for each world, in the order of the worlds. -/
def initialInventories (m : Multiworld) : List Inventory :=
  m.worldIds.map fun w => .empty (m.bearings w) m.catalog.size

end Multiworld

end Progression
