import Progression.Catalog
import Progression.Goal
import Progression.Table

/-!
# Inventories

An inventory counts the items that one world has collected.  It is all that a
rule can read, together with the world's groups of items, its key rings, its
goals and its win condition, which never change.

## Main definitions

* `WorldId` — the number of a world.
* `Bearings` — the fixed part of an inventory.
* `Inventory` — the counters of a world with its bearings.
* `Inventory.collect`, `Inventory.remove` — take an item in, or give it back.
* `Inventory.count` and the questions after it — what rules ask.
-/

namespace Progression

/-- The number of a world. -/
structure WorldId where
  index : Nat
  deriving DecidableEq, Inhabited

instance : LT WorldId := ⟨fun a b => a.index < b.index⟩

instance : DecidableLT WorldId := fun a b => inferInstanceAs (Decidable (a.index < b.index))

/-- What an inventory knows about its world. -/
structure Bearings where
  world : WorldId
  groups : ItemGroups
  /-- The key rings that come with a boss key, and that key. -/
  keyRings : List (ItemId × ItemId)
  win : WinCondition
  goals : List GoalCategory
  deriving DecidableEq, Inhabited

namespace Bearings

/-- The bearings of a world without key rings and goals, to be won by the Triforce. -/
def plain (world : WorldId) (groups : ItemGroups) : Bearings :=
  ⟨world, groups, [], .triforce groups.triforce, []⟩

/-- The boss key that comes with an item. -/
def bossKey? (b : Bearings) (ring : ItemId) : Option ItemId := b.keyRings.lookup ring

/-- Let a boss key come with a key ring, in place of any other. -/
def addKeyRing (b : Bearings) (ring key : ItemId) : Bearings :=
  { b with keyRings := b.keyRings.filter (·.1 != ring) ++ [(ring, key)] }

end Bearings

/-- The counters of a world.  Items past the last counter count zero. -/
structure Inventory where
  counts : Array Count
  bearings : Bearings
  deriving Inhabited

namespace Inventory

/-- An inventory without items, with counters for the first `capacity` items. -/
def empty (bearings : Bearings) (capacity : Nat) : Inventory :=
  ⟨Array.replicate capacity 0, bearings⟩

/-- The world of an inventory. -/
def world (inv : Inventory) : WorldId := inv.bearings.world

/-- The number of copies of an item. -/
def count (inv : Inventory) (id : ItemId) : Count := inv.counts.getD id.index 0

/-! ### Collecting -/

/-- Set the counter of an item, with new counters up to it if there is none. -/
def setCount (inv : Inventory) (id : ItemId) (n : Count) : Inventory :=
  let missing := id.index + 1 - inv.counts.size
  { inv with
    counts := (inv.counts ++ Array.replicate missing 0).setIfInBounds id.index n }

/-- The item and number of copies that an entry counts as. -/
def worth (e : ItemEntry) : ItemId × Count := e.countsAs.getD (e.id, 1)

/-- Take an item in.  A key ring also sets its boss key. -/
def collect (inv : Inventory) (e : ItemEntry) : Inventory :=
  if e.advancement then
    let (id, n) := worth e
    let inv' := inv.setCount id (Count.plus (inv.count id) n)
    match inv.bearings.bossKey? e.id with
    | some key => inv'.setCount key 1
    | none => inv'
  else inv

/-- Give an item back.  A key ring also clears its boss key. -/
def remove (inv : Inventory) (e : ItemEntry) : Inventory :=
  if e.advancement then
    let (id, n) := worth e
    let inv' := { inv with
      counts := inv.counts.setIfInBounds id.index (Count.minus (inv.count id) n) }
    match inv.bearings.bossKey? e.id with
    | some key => inv'.setCount key 0
    | none => inv'
  else inv

/-! ### Questions -/

/-- Whether there are at least `n` copies of an item. -/
def has (inv : Inventory) (id : ItemId) (n : Count) : Bool := decide (n ≤ inv.count id)

/-- Whether there is a copy of one of the items. -/
def hasAny (inv : Inventory) (ids : List ItemId) : Bool := ids.any fun id => inv.has id 1

/-- Whether there is a copy of each of the items. -/
def hasAll (inv : Inventory) (ids : List ItemId) : Bool := ids.all fun id => inv.has id 1

/-- The total number of copies of the items, unless it is too great. -/
def countOf (inv : Inventory) (ids : List ItemId) : Option Count :=
  Count.total (ids.map inv.count)

/-- A bottle, or a second letter: the first one is delivered. -/
def hasBottle (inv : Inventory) : Bool :=
  inv.hasAny inv.bearings.groups.bottles ||
    inv.bearings.groups.rutosLetter.any fun letter => inv.has letter 2

/-- The number of hearts: three, and one for every four pieces. -/
def hearts (inv : Inventory) : Count :=
  (inv.bearings.groups.pieceOfHeart.elim 0 inv.count) / 4 + 3

/-- The number of medallions. -/
def medallions (inv : Inventory) : Option Count := inv.countOf inv.bearings.groups.medallions

/-- The number of stones. -/
def stones (inv : Inventory) : Option Count := inv.countOf inv.bearings.groups.stones

/-- The number of medallions and stones. -/
def dungeonRewards (inv : Inventory) : Option Count :=
  inv.countOf inv.bearings.groups.dungeonRewards

/-- The number of ocarina buttons. -/
def ocarinaButtons (inv : Inventory) : Option Count :=
  inv.countOf inv.bearings.groups.ocarinaButtons

/-- Whether the world is won. -/
def won (inv : Inventory) : Bool :=
  match inv.bearings.win with
  | .triforce item => item.any fun id => inv.has id 1
  | .hunt piece goal => piece.any fun id => inv.has id goal

/-- Whether a goal's item is collected in part. -/
def meetsPart (inv : Inventory) (g : ItemGoal) : Bool := inv.has g.item g.minimum

/-- Whether a goal's item is collected in full. -/
def meetsItem (inv : Inventory) (g : ItemGoal) : Bool := inv.has g.item g.quantity

/-- Whether a goal is met in full. -/
def meets (inv : Inventory) (g : Goal) : Bool := g.items.all inv.meetsItem

/-- Whether every goal of the world is met in full. -/
def meetsAll (inv : Inventory) : Bool :=
  inv.bearings.goals.all fun category => category.goals.all inv.meets

/-! ### Comparison and listing -/

/-- The items with copies, with their counts. -/
def held (inv : Inventory) : List (ItemId × Count) :=
  (inv.counts.toList.zipIdx.filter fun p => p.1 != 0).map fun p => (⟨p.2⟩, p.1)

/-- Whether two inventories are of one world and count alike. -/
def alike (a b : Inventory) : Bool := a.world == b.world && a.held == b.held

/-- The items with copies, by display name. -/
def heldByName (inv : Inventory) (c : Catalog) : Table String Count :=
  Table.ofList <| inv.held.filterMap fun p => (c.get? p.1).map fun e => (e.name, p.2)

end Inventory

end Progression
