import Progression.World.Basic

/-!
# Building worlds

## Main definitions

* `Multiworld.addWorld`, `Multiworld.addRegion`, `Multiworld.addExit`,
  `Multiworld.addLocation`, `Multiworld.addEvent` — make the parts of worlds.
* `Multiworld.placeItem`, `Multiworld.skip`, `Multiworld.declareItem` — the rest.
-/

namespace Progression

open Rule

/-- The kind of the locations of events and subrules. -/
def eventKind : String := "Event"

/-- Append a member to a list unless it is there. -/
def appendNew {α : Type} [DecidableEq α] (xs : List α) (x : α) : List α :=
  if x ∈ xs then xs else xs ++ [x]

namespace Multiworld

/-- Add a region, whether or not its world has one of that name. -/
def pushRegion (m : Multiworld) (w : WorldId) (name : String) (provides : TimeOfDay) :
    RegionId × Multiworld :=
  (⟨m.regions.size⟩, { m with regions := m.regions.push ⟨name, w, [], [], [], provides⟩ })

/-- Let a name lead to a region of a world. -/
def nameRegion (m : Multiworld) (w : WorldId) (name : String) (id : RegionId) : Multiworld :=
  m.modifyWorld w fun x => { x with regionNames := x.regionNames.insert name id }

/-- A world whose only region is its root. -/
def rootedWorld (profile : Profile) (root : RegionId) : World :=
  ⟨profile, root, [("Root", root)], [], [], [], .empty⟩

/-- Add a world with its root region. -/
def addWorld (m : Multiworld) (profile : Profile) : WorldId × Multiworld :=
  let w : WorldId := ⟨m.worlds.size⟩
  let (root, m) := m.pushRegion w "Root" .none
  (w, { m with worlds := m.worlds.push (rootedWorld profile root) })

/-- Add a region, or let the one of that name provide further times. -/
def addRegion (m : Multiworld) (w : WorldId) (name : String) (provides : TimeOfDay) :
    RegionId × Multiworld :=
  match m.regionNamed? w name with
  | some id =>
    (id, m.modifyRegion id fun r => { r with provides := r.provides.union provides })
  | none =>
    let (id, m) := m.pushRegion w name provides
    (id, m.nameRegion w name id)

/-- Add an exit from a region to the region of the given name in its world. -/
def addExit (m : Multiworld) (parent : RegionId) (name target text : String) :
    ExitId × Multiworld :=
  let id : ExitId := ⟨m.exits.size⟩
  let e : Exit := ⟨name, (m.region parent).world, parent, target, none, .always, text⟩
  (id, { m with exits := m.exits.push e }.modifyRegion parent fun r =>
    { r with exits := r.exits ++ [id] })

/-- Add a location to its region and world, under its name. -/
def pushLocation (m : Multiworld) (l : Location) : LocationId × Multiworld :=
  let id : LocationId := ⟨m.locations.size⟩
  let m := { m with locations := m.locations.push l }
  let m := m.modifyRegion l.parent fun r => { r with locations := r.locations ++ [id] }
  (id, m.modifyWorld l.world fun w => { w with
    locationNames := w.locationNames.insert l.name id, locations := w.locations ++ [id] })

/-- Add a location to a region. -/
def addLocation (m : Multiworld) (parent : RegionId) (name kind text : String) :
    LocationId × Multiworld :=
  m.pushLocation ⟨name, kind, (m.region parent).world, parent, .always, text, none,
    false, false, false, false⟩

/-- Add a location that holds the event of its name. -/
def addEvent (m : Multiworld) (parent : RegionId) (name text : String) :
    LocationId × Multiworld :=
  let (item, catalog) := m.catalog.declareEvent name
  let w := (m.region parent).world
  let (id, m) := { m with catalog }.addLocation parent name eventKind text
  let m := m.modifyLocation id fun l => { l with item := some ⟨item, w⟩, locked := true }
  (id, m.modifyWorld w fun x => { x with ledger := x.ledger.noteEvent name })

/-- Put an item for a world at a location. -/
def placeItem (m : Multiworld) (id : LocationId) (item : ItemId) (w : WorldId) : Multiworld :=
  m.modifyLocation id fun l => { l with item := some ⟨item, w⟩ }

/-- Hand the item of a location out at the start. -/
def skip (m : Multiworld) (id : LocationId) : Multiworld :=
  m.modifyWorld (m.location id).world fun w => { w with skipped := appendNew w.skipped id }

/-- Declare an item. -/
def declareItem (m : Multiworld) (d : ItemDef) : ItemId × Multiworld :=
  let (id, catalog) := m.catalog.declare d
  (id, { m with catalog })

end Multiworld

end Progression
