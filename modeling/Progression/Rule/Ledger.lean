import Progression.Catalog
import Progression.Rule.Term
import Progression.Table

/-!
# Ledgers

A rule can ask whether another rule holds in some region.  Such a subrule is
replaced by an event item: the ledger of a world keeps which item stands for
which rule in which region, and which of them still have no place in the world.

## Main definitions

* `Subrule` — a rule that an event item stands for.
* `Ledger` — the subrules and events of a world.
* `Registry` — what resolving a rule can add to: the catalog and a ledger.
* `Registry.registerSubrule` — the item that stands for a subrule.
-/

namespace Progression.Rule

/-- A rule that is asked for in a region, and the event item that stands for it. -/
structure Subrule where
  region : String
  body : Term
  event : String
  item : ItemId
  deriving DecidableEq, Inhabited

/-- The subrules and events of a world. -/
structure Ledger where
  /-- Every subrule so far, the latest first. -/
  registered : List Subrule
  /-- The subrules without a place, in the order of registration. -/
  pending : List Subrule
  /-- The names of the events, in ascending order. -/
  events : List String
  deriving DecidableEq, Inhabited

namespace Ledger

/-- The ledger of a world without rules. -/
def empty : Ledger := ⟨[], [], []⟩

/-- Note the name of an event. -/
def noteEvent (l : Ledger) (name : String) : Ledger :=
  { l with events := insertKey name l.events }

/-- The subrules registered for a region. -/
def ofRegion (l : Ledger) (region : String) : List Subrule :=
  l.registered.filter (·.region == region)

/-- The registered subrule of a region and a body. -/
def find? (l : Ledger) (region : String) (body : Term) : Option Subrule :=
  l.registered.find? fun s => s.region == region && s.body == body

/-- Take the pending subrules out. -/
def takePending (l : Ledger) : List Subrule × Ledger := (l.pending, { l with pending := [] })

end Ledger

/-- What resolving a rule can add to. -/
structure Registry where
  catalog : Catalog
  ledger : Ledger
  deriving DecidableEq, Inhabited

namespace Registry

/-- Declare an event and note its name. -/
def declareEvent (r : Registry) (name : String) : ItemId × Registry :=
  let (id, catalog) := r.catalog.declareEvent name
  (id, ⟨catalog, r.ledger.noteEvent name⟩)

/-- The item that stands for a rule in a region.  A new subrule gets an event
named for the region and numbered within it, and is pending. -/
def registerSubrule (r : Registry) (region : String) (body : Term) : ItemId × Registry :=
  match r.ledger.find? region body with
  | some s => (s.item, r)
  | none =>
    let event := region ++ " Subrule " ++ toString ((r.ledger.ofRegion region).length + 1)
    let (id, r) := r.declareEvent event
    let s : Subrule := ⟨region, body, event, id⟩
    let ledger := { r.ledger with
      registered := s :: r.ledger.registered, pending := r.ledger.pending ++ [s] }
    (id, { r with ledger })

end Registry

end Progression.Rule
