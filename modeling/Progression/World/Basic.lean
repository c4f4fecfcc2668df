import Progression.Inventory
import Progression.Place
import Progression.Rule.Compile

/-!
# Worlds

The worlds that are generated together share one catalog, one rulebook and one
numbering of regions, exits and locations; each of these records its world.

## Main definitions

* `Region`, `Exit`, `Location`, `World` — the parts.
* `Multiworld` — all worlds.
* `Multiworld.region`, `Multiworld.exit`, `Multiworld.location` — the part of a number.
* `Multiworld.regionNamed?`, `Multiworld.locationNamed?` — the part of a name.
-/

namespace Progression

open Rule

/-- A region of a world. -/
structure Region where
  name : String
  world : WorldId
  /-- The exits that lead out of the region. -/
  exits : List ExitId
  /-- The exits that are connected to the region. -/
  entrances : List ExitId
  locations : List LocationId
  /-- The times of day that being in the region gives. -/
  provides : TimeOfDay
  deriving Inhabited

/-- A one-way connection from a region to another one of its world. -/
structure Exit where
  name : String
  world : WorldId
  parent : RegionId
  /-- The name of the region that the exit leads to. -/
  target : String
  /-- That region, once it is looked up. -/
  connected : Option RegionId
  guard : Guard
  text : String
  deriving Inhabited

/-- An item and the world that collects it. -/
structure PlacedItem where
  id : ItemId
  world : WorldId
  deriving DecidableEq, Inhabited

/-- A spot that can hold an item. -/
structure Location where
  name : String
  kind : String
  world : WorldId
  parent : RegionId
  guard : Guard
  text : String
  item : Option PlacedItem
  /-- Whether the location was made for a subrule. -/
  internal : Bool
  locked : Bool
  /-- Whether the rule always holds. -/
  always : Bool
  /-- Whether the rule never holds. -/
  never : Bool
  deriving Inhabited

/-- A world. -/
structure World where
  profile : Profile
  root : RegionId
  /-- The regions by their names. -/
  regionNames : Table String RegionId
  /-- The locations by their names; of several with one name, the one made last. -/
  locationNames : Table String LocationId
  /-- The locations in the order in which they were made. -/
  locations : List LocationId
  /-- The locations whose items are handed out at the start. -/
  skipped : List LocationId
  ledger : Ledger
  deriving Inhabited

/-- The worlds that are generated together. -/
structure Multiworld where
  catalog : Catalog
  worlds : Array World
  regions : Array Region
  exits : Array Exit
  locations : Array Location
  book : Rulebook
  deriving Inhabited

namespace Multiworld

/-- No worlds yet. -/
def empty (catalog : Catalog) : Multiworld := ⟨catalog, #[], #[], #[], #[], .blank 0⟩

/-! ### Parts by number

A number that is not in use has an empty part: a region without exits, an exit
that leads nowhere, a location without an item. -/

/-- The world of a number. -/
def world (m : Multiworld) (id : WorldId) : World := m.worlds.getD id.index default

/-- The region of a number. -/
def region (m : Multiworld) (id : RegionId) : Region := m.regions.getD id.index default

/-- The exit of a number. -/
def exit (m : Multiworld) (id : ExitId) : Exit := m.exits.getD id.index default

/-- The location of a number. -/
def location (m : Multiworld) (id : LocationId) : Location :=
  m.locations.getD id.index default

/-- The numbers of all worlds. -/
def worldIds (m : Multiworld) : List WorldId := (List.range m.worlds.size).map .mk

/-- The numbers of all exits. -/
def exitIds (m : Multiworld) : List ExitId := (List.range m.exits.size).map .mk

/-- The numbers of all locations. -/
def locationIds (m : Multiworld) : List LocationId := (List.range m.locations.size).map .mk

/-- The root region of a world. -/
def root (m : Multiworld) (w : WorldId) : RegionId := (m.world w).root

/-! ### Parts by name -/

/-- The region of a world that has the given name. -/
def regionNamed? (m : Multiworld) (w : WorldId) (name : String) : Option RegionId :=
  (m.world w).regionNames.find? name

/-- The location of a world that has the given name; of several the one made last. -/
def locationNamed? (m : Multiworld) (w : WorldId) (name : String) : Option LocationId :=
  (m.world w).locationNames.find? name

/-! ### Changing parts -/

/-- Change a world. -/
def modifyWorld (m : Multiworld) (id : WorldId) (f : World → World) : Multiworld :=
  { m with worlds := m.worlds.modify id.index f }

/-- Change a region. -/
def modifyRegion (m : Multiworld) (id : RegionId) (f : Region → Region) : Multiworld :=
  { m with regions := m.regions.modify id.index f }

/-- Change an exit. -/
def modifyExit (m : Multiworld) (id : ExitId) (f : Exit → Exit) : Multiworld :=
  { m with exits := m.exits.modify id.index f }

/-- Change a location. -/
def modifyLocation (m : Multiworld) (id : LocationId) (f : Location → Location) : Multiworld :=
  { m with locations := m.locations.modify id.index f }

end Multiworld

end Progression
