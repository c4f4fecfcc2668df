import Progression.Search.Visit

/-!
# Rewinding a search

A rewindable search keeps snapshots of its progress, so that visits can be taken
back.  Items are not part of a snapshot: they stay collected.

## Main definitions

* `Rewindable` — a search with its snapshots.
* `Rewindable.checkpoint` — take a snapshot.
* `Rewindable.unvisit` — take back a visit.
* `Rewindable.reset` — go back to the oldest snapshot.
-/

namespace Progression

/-- A search with snapshots of its earlier progress, the latest first. -/
structure Rewindable where
  live : Search
  history : List Progress
  deriving Inhabited

namespace Rewindable

/-- A search without snapshots. -/
def of (s : Search) : Rewindable := ⟨s, []⟩

/-- The number of snapshots. -/
def depth (r : Rewindable) : Nat := r.history.length

/-- Take a snapshot. -/
def checkpoint (r : Rewindable) : Rewindable :=
  { r with history := r.live.progress :: r.history }

/-- Go back to some earlier progress. -/
def rewindTo (r : Rewindable) (p : Progress) (history : List Progress) : Rewindable :=
  ⟨{ r.live with progress := p }, history⟩

/-- Go back to the latest snapshot if the location was already visited there. -/
def popTo (r : Rewindable) (id : LocationId) : Rewindable :=
  match r.history with
  | [] => r
  | p :: history => if id ∈ p.visited then r.rewindTo p history else r

/-- Take back the visit to a location.  If the latest snapshot has the visit as well,
the search goes back to it first. -/
def unvisit (r : Rewindable) (id : LocationId) : Except Search.Fault Rewindable :=
  if r.live.visited id then
    let r := r.popTo id
    let p := r.live.progress
    .ok (r.rewindTo { p with visited := p.visited.filter (· ≠ id) } r.history)
  else .error (.neverVisited id)

/-- Go back to the oldest snapshot and forget all of them. -/
def reset (r : Rewindable) : Rewindable :=
  match r.history.getLast? with
  | some p => r.rewindTo p []
  | none => r

end Rewindable

end Progression
