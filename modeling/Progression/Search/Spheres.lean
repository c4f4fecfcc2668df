import Progression.Search.Query
import Progression.World.Start

/-!
# Collection spheres

A sphere is everything that can be visited with the items of the spheres before it.
Its items are collected only when the sphere is complete.

## Main definitions

* `Sphere` — the locations of a sphere, with the extent of the search at that time.
* `Playthrough` — all spheres, and whether all worlds are won in the end.
* `Search.collectSpheres` — split an exploration into spheres.
* `Multiworld.playthrough` — the spheres from the initial inventories.
-/

namespace Progression

/-- The locations of a sphere in the order of their visits, and the number of regions
reached as each age when the last of them was visited. -/
structure Sphere where
  locations : List LocationId
  childRegions : Nat
  adultRegions : Nat
  deriving DecidableEq, Inhabited

/-- The spheres of an exploration. -/
structure Playthrough where
  spheres : List Sphere
  /-- Whether all worlds are won after the last sphere. -/
  beatable : Bool
  deriving DecidableEq, Inhabited

/-- The number of locations in all spheres. -/
def Playthrough.size (p : Playthrough) : Nat :=
  p.spheres.foldl (fun n s => n + s.locations.length) 0

namespace Search

/-- Collect the items of several locations. -/
def collectAllAt (s : Search) (g : Multiworld) (ids : List LocationId) : Search :=
  ids.foldl (fun s id => s.collectAt g id) s

/-- The candidates that are not in a sphere. -/
def outside (sphere ids : List LocationId) : List LocationId :=
  ids.filter fun id => !sphere.contains id

/-- Everything that an exploration finds is among its candidates. -/
theorem mem_of_mem_explore {g : Multiworld} {manner : Manner} {ids : List LocationId}
    {limit : Option Nat} {s : Search} {l : LocationId}
    (h : l ∈ (s.explore g manner ids limit).1) : l ∈ ids := by
  fun_induction explore g manner ids limit s with
  | case1 => simp at h
  | case2 => simp at h
  | case3 limit s _ id found s' hs more s'' hmore ih =>
    have hsweep : ∀ x ∈ id :: found, x ∈ ids := fun x hx =>
      ((mem_visited_sweep g manner ids limit (s.nextSphere g)).2 x (by rw [hs]; exact hx)).1
    rw [← List.cons_append] at h
    rcases List.mem_append.1 h with h | h
    · exact hsweep l h
    · exact ih (by rw [hmore]; exact h)

theorem length_outside_lt {ids sphere : List LocationId} {l : LocationId} (h : l ∈ ids)
    (hs : l ∈ sphere) : (outside sphere ids).length < ids.length := by
  unfold outside
  rw [← List.countP_eq_length_filter]
  have hlt : ids.countP (fun id => !sphere.contains id) < ids.countP fun _ => true :=
    countP_lt_countP (fun _ _ _ => rfl) h rfl (by simpa using hs)
  simpa using hlt

/-- The spheres of the candidates, and the search after the last of them. -/
def spheresOf (g : Multiworld) (ids : List LocationId) (s : Search) : List Sphere × Search :=
  match _h : s.explore g .look ids none with
  | ([], t) => ([], t)
  | (id :: found, t) =>
    let t := t.collectAllAt g (id :: found)
    let sphere : Sphere :=
      ⟨id :: found, t.progress.child.reached.length, t.progress.adult.reached.length⟩
    let (spheres, t) := spheresOf g (outside (id :: found) ids) t
    (sphere :: spheres, t)
termination_by ids.length
decreasing_by
  have hid : id ∈ (s.explore g .look ids none).1 := by simp [_h]
  exact length_outside_lt (mem_of_mem_explore hid) List.mem_cons_self

/-- Split an exploration of the candidates into spheres. -/
def collectSpheres (g : Multiworld) (ids : List LocationId) (s : Search) :
    Playthrough × Search :=
  let (spheres, s) := spheresOf g ids s
  (⟨spheres, s.canBeatGame g false⟩, s)

end Search

/-- The spheres of everything worth visiting, from the initial inventories. -/
def Multiworld.playthrough (g : Multiworld) : Except Search.Fault Playthrough :=
  (Search.start g g.initialInventories).map fun s =>
    (s.collectSpheres g (Search.progressionLocations g)).1

end Progression
