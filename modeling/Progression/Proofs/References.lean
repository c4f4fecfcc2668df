import Mathlib.Data.List.Nodup
import Progression.Proofs.Additions
import Progression.Proofs.Spots

/-!
# The parts of worlds refer to each other

References go in both directions.  An exit names its region and the region lists its exits,
a location names its region and its world and both list it, and a connected exit names the
region that it leads to, which lists the exit among its entrances.  What the lists hold is said
by the parts that they list, so that the two directions agree when each list holds just those
parts, each of them once.

## Main definitions

* `Lists` — lists that hold what belongs to their owners, each part once.
* `Multiworld.IsExitOf` and its like — what belongs to a region or a world.
* `Multiworld.IsRegionNamed`, `Multiworld.IsLocationNamed` — the bearers of a name.
* `Multiworld.Interlinked` — all references agree.
* `Multiworld.SameRegions`, `Multiworld.SameReferences` — changes that leave the regions, or
  all references, alone.

## Main results

* `Lists.insert` — lists keep up with a part that comes to belong to an owner.
* `Multiworld.SameReferences.modifyWorld` and its like — what no reference goes through.
-/

namespace Progression

open Rule

/-! ### Lists of what belongs together -/

theorem appendNew_of_not_mem {α : Type} [DecidableEq α] {xs : List α} {x : α} (h : x ∉ xs) :
    appendNew xs x = xs ++ [x] :=
  if_neg h

theorem nodup_appendNew {α : Type} [DecidableEq α] {xs : List α} (h : xs.Nodup) (x : α) :
    (appendNew xs x).Nodup := by
  by_cases hx : x ∈ xs
  · rwa [appendNew, if_pos hx]
  · rw [appendNew_of_not_mem hx, ← List.concat_eq_append]
    exact h.concat hx

/-- The list of each owner holds what belongs to this owner, each part once, and nothing
else. -/
structure Lists {ι κ : Type} (list : κ → List ι) (belongs : ι → κ → Prop) : Prop where
  nodup : ∀ k, (list k).Nodup
  mem_iff : ∀ i k, i ∈ list k ↔ belongs i k

namespace Lists

variable {ι κ : Type} {list list' : κ → List ι} {belongs belongs' : ι → κ → Prop}

theorem congr (h : Lists list belongs) (hlist : ∀ k, list' k = list k)
    (hbelongs : ∀ i k, belongs' i k ↔ belongs i k) : Lists list' belongs' := by
  constructor
  · intro k
    rw [hlist]
    exact h.nodup k
  · intro i k
    rw [hlist, hbelongs]
    exact h.mem_iff i k

theorem of_empty (hlist : ∀ k, list k = []) (hbelongs : ∀ i k, ¬ belongs i k) :
    Lists list belongs := by
  constructor
  · intro k
    rw [hlist]
    exact .nil
  · intro i k
    rw [hlist]
    exact iff_of_false List.not_mem_nil (hbelongs i k)

/-- A part may come to belong to an owner, or may belong to it already. -/
theorem insert [DecidableEq ι] [DecidableEq κ] {x : ι} {o : κ} (h : Lists list belongs)
    (hlist : ∀ k, list' k = if o = k then appendNew (list k) x else list k)
    (hbelongs : ∀ i k, belongs' i k ↔ belongs i k ∨ i = x ∧ o = k) : Lists list' belongs' := by
  constructor
  · intro k
    rw [hlist]
    split
    · exact nodup_appendNew (h.nodup k) x
    · exact h.nodup k
  · intro i k
    rw [hlist, hbelongs, ← h.mem_iff]
    by_cases hk : o = k
    · rw [if_pos hk, Multiworld.mem_appendNew]
      simp only [hk, and_true]
    · rw [if_neg hk]
      simp only [hk, and_false, or_false]

/-- A part that belongs to no one yet may come to belong to one owner. -/
theorem append [DecidableEq ι] [DecidableEq κ] {x : ι} {o : κ} (h : Lists list belongs)
    (hnew : ∀ k, ¬ belongs x k)
    (hlist : ∀ k, list' k = if o = k then list k ++ [x] else list k)
    (hbelongs : ∀ i k, belongs' i k ↔ belongs i k ∨ i = x ∧ o = k) : Lists list' belongs' := by
  refine h.insert (fun k => ?_) hbelongs
  rw [appendNew_of_not_mem fun hmem => hnew k ((h.mem_iff x k).1 hmem)]
  exact hlist k

end Lists

namespace Multiworld

variable {m m' : Multiworld}

/-! ### What belongs where -/

/-- An exit that is in use leads out of a region. -/
def IsExitOf (m : Multiworld) (id : ExitId) (r : RegionId) : Prop :=
  id.index < m.exits.size ∧ (m.exit id).parent = r

/-- An exit is connected to a region. -/
def LeadsTo (m : Multiworld) (id : ExitId) (r : RegionId) : Prop :=
  (m.exit id).connected = some r

/-- A location that is in use is one of a region. -/
def IsLocationOf (m : Multiworld) (id : LocationId) (r : RegionId) : Prop :=
  id.index < m.locations.size ∧ (m.location id).parent = r

/-- A location that is in use is one of a world. -/
def IsLocationIn (m : Multiworld) (id : LocationId) (w : WorldId) : Prop :=
  id.index < m.locations.size ∧ (m.location id).world = w

/-- A region that is in use bears a name in a world. -/
def IsRegionNamed (m : Multiworld) (r : RegionId) (w : WorldId) (name : String) : Prop :=
  r.index < m.regions.size ∧ (m.region r).world = w ∧ (m.region r).name = name

/-- A location of a world bears a name. -/
def IsLocationNamed (m : Multiworld) (id : LocationId) (w : WorldId) (name : String) : Prop :=
  m.IsLocationIn id w ∧ (m.location id).name = name

/-- All references between the parts of worlds agree. -/
structure Interlinked (m : Multiworld) : Prop where
  /-- An exit is listed by its region. -/
  exits : Lists (fun r => (m.region r).exits) m.IsExitOf
  /-- A location is listed by its region. -/
  locations : Lists (fun r => (m.region r).locations) m.IsLocationOf
  /-- A location is listed by its world. -/
  worldLocations : Lists (fun w => (m.world w).locations) m.IsLocationIn
  /-- A connected exit is listed by the region that it leads to. -/
  entrances : Lists (fun r => (m.region r).entrances) m.LeadsTo
  /-- That region bears the name that the exit looks for, in the world of the exit. -/
  connected : ∀ id r, m.LeadsTo id r →
    m.IsRegionNamed r (m.exit id).world (m.exit id).target
  /-- The table of a world leads from a name to the one region that bears it. -/
  regionNamed : ∀ w name r, m.regionNamed? w name = some r ↔ m.IsRegionNamed r w name
  /-- The other one leads from a name to the location that was made last among its bearers. -/
  latest : ∀ w name, m.locationNamed? w name =
    (m.world w).locations.reverse.find? fun id => (m.location id).name == name
  region_world : ∀ r, r.index < m.regions.size → (m.region r).world.index < m.worlds.size
  skipped_nodup : ∀ w, (m.world w).skipped.Nodup
  /-- A world skips its own locations only. -/
  skipped : ∀ w, ∀ id ∈ (m.world w).skipped, m.IsLocationIn id w

/-! ### Changes to a region -/

section Modify

variable {α : Type} {id : RegionId} {f : Region → Region}

/-- What a change to a region leaves alone is the same in all regions. -/
theorem kept_of_modify (hr : m'.regions = m.regions.modify id.index f) (read : Region → α)
    (hf : ∀ r, read (f r) = read r) (r : RegionId) : read (m'.region r) = read (m.region r) := by
  have hregion : m'.region r = (m.modifyRegion id f).region r := by
    rw [region, hr]
    rfl
  rw [hregion, region_modifyRegion]
  split
  · exact hf _
  · rfl

/-- What it changes is changed in that region only. -/
theorem changed_of_modify (hr : m'.regions = m.regions.modify id.index f)
    (hid : id.index < m.regions.size) (read : Region → α) (g : α → α)
    (hf : ∀ r, read (f r) = g (read r)) (r : RegionId) :
    read (m'.region r) = if id = r then g (read (m.region r)) else read (m.region r) := by
  have hregion : m'.region r = (m.modifyRegion id f).region r := by
    rw [region, hr]
    rfl
  rw [hregion, region_modifyRegion]
  by_cases h : id = r
  · subst h
    rw [if_pos ⟨rfl, hid⟩, if_pos rfl, hf]
  · rw [if_neg fun h' => h h'.1, if_neg h]

end Modify

/-- There are the same regions with the same names in the same worlds, though there may be
worlds that have no parts yet. -/
structure SameRegions (m m' : Multiworld) : Prop where
  worlds : m.worlds.size ≤ m'.worlds.size
  regions : m'.regions.size = m.regions.size
  name : ∀ r, (m'.region r).name = (m.region r).name
  world : ∀ r, (m'.region r).world = (m.region r).world
  named : ∀ w name, m'.regionNamed? w name = m.regionNamed? w name

namespace SameRegions

theorem of_modify {id : RegionId} {f : Region → Region} (hw : m'.worlds.size = m.worlds.size)
    (hnamed : ∀ w name, m'.regionNamed? w name = m.regionNamed? w name)
    (hr : m'.regions = m.regions.modify id.index f)
    (hf : ∀ r, (f r).name = r.name ∧ (f r).world = r.world) : SameRegions m m' where
  worlds := Nat.le_of_eq hw.symm
  regions := by rw [hr, Array.size_modify]
  name := kept_of_modify hr Region.name fun r => (hf r).1
  world := kept_of_modify hr Region.world fun r => (hf r).2
  named := hnamed

theorem isRegionNamed_iff (h : SameRegions m m') (r : RegionId) (w : WorldId) (name : String) :
    m'.IsRegionNamed r w name ↔ m.IsRegionNamed r w name := by
  rw [IsRegionNamed, h.regions, h.name, h.world]
  rfl

theorem regionNamed (h : SameRegions m m') (hm : m.Interlinked) (w : WorldId) (name : String)
    (r : RegionId) : m'.regionNamed? w name = some r ↔ m'.IsRegionNamed r w name := by
  rw [h.named, h.isRegionNamed_iff]
  exact hm.regionNamed w name r

theorem region_world (h : SameRegions m m') (hm : m.Interlinked) (r : RegionId)
    (hr : r.index < m'.regions.size) : (m'.region r).world.index < m'.worlds.size := by
  rw [h.world]
  exact Nat.lt_of_lt_of_le (hm.region_world r (h.regions ▸ hr)) h.worlds

end SameRegions

/-- All references between the parts of worlds are the same. -/
structure SameReferences (m m' : Multiworld) : Prop extends SameRegions m m' where
  exits : m'.exits.size = m.exits.size
  locations : m'.locations.size = m.locations.size
  ofWorld : ∀ w, (m'.world w).locationNames = (m.world w).locationNames ∧
    (m'.world w).locations = (m.world w).locations ∧ (m'.world w).skipped = (m.world w).skipped
  ofRegion : ∀ r, (m'.region r).exits = (m.region r).exits ∧
    (m'.region r).entrances = (m.region r).entrances ∧
    (m'.region r).locations = (m.region r).locations
  ofExit : ∀ id, (m'.exit id).world = (m.exit id).world ∧
    (m'.exit id).parent = (m.exit id).parent ∧ (m'.exit id).target = (m.exit id).target ∧
    (m'.exit id).connected = (m.exit id).connected
  ofLocation : ∀ id, (m'.location id).name = (m.location id).name ∧
    (m'.location id).world = (m.location id).world ∧
    (m'.location id).parent = (m.location id).parent

/-- Nothing is there under the next number. -/
theorem getD_size {α : Type} (xs : Array α) (d : α) : xs.getD xs.size d = d := by
  simp

namespace SameReferences

theorem withCatalog (m : Multiworld) (catalog : Catalog) (book : Rulebook) :
    SameReferences m { m with catalog, book } where
  worlds := Nat.le_refl _
  regions := rfl
  name _ := rfl
  world _ := rfl
  named _ _ := rfl
  exits := rfl
  locations := rfl
  ofWorld _ := ⟨rfl, rfl, rfl⟩
  ofRegion _ := ⟨rfl, rfl, rfl⟩
  ofExit _ := ⟨rfl, rfl, rfl, rfl⟩
  ofLocation _ := ⟨rfl, rfl, rfl⟩

/-- A world that names and lists nothing is like a world that is not in use. -/
theorem pushWorld (m : Multiworld) (profile : Profile) (root : RegionId) (ledger : Ledger) :
    SameReferences m
      { m with worlds := m.worlds.push ⟨profile, root, [], [], [], [], ledger⟩ } where
  worlds := by simp
  regions := rfl
  name _ := rfl
  world _ := rfl
  named w name := by
    rw [regionNamed?, regionNamed?, Multiworld.world, Multiworld.world, getD_push]
    split
    · next hw =>
      rw [hw, getD_size]
      rfl
    · rfl
  exits := rfl
  locations := rfl
  ofWorld w := by
    rw [Multiworld.world, Multiworld.world, getD_push]
    split
    · next hw =>
      rw [hw, getD_size]
      exact ⟨rfl, rfl, rfl⟩
    · exact ⟨rfl, rfl, rfl⟩
  ofRegion _ := ⟨rfl, rfl, rfl⟩
  ofExit _ := ⟨rfl, rfl, rfl, rfl⟩
  ofLocation _ := ⟨rfl, rfl, rfl⟩

theorem modifyWorld (m : Multiworld) (id : WorldId) {f : World → World}
    (hf : ∀ w, (f w).regionNames = w.regionNames ∧ (f w).locationNames = w.locationNames ∧
      (f w).locations = w.locations ∧ (f w).skipped = w.skipped) :
    SameReferences m (m.modifyWorld id f) where
  worlds := Nat.le_of_eq Array.size_modify.symm
  regions := rfl
  name _ := rfl
  world _ := rfl
  named w name := regionNamed_modifyWorld m id w name fun x => (hf x).1
  exits := rfl
  locations := rfl
  ofWorld w := by
    rw [world_modifyWorld]
    split
    · exact (hf _).2
    · exact ⟨rfl, rfl, rfl⟩
  ofRegion _ := ⟨rfl, rfl, rfl⟩
  ofExit _ := ⟨rfl, rfl, rfl, rfl⟩
  ofLocation _ := ⟨rfl, rfl, rfl⟩

/-- A region may provide other times. -/
theorem modifyProvides (m : Multiworld) (id : RegionId) (f : TimeOfDay → TimeOfDay) :
    SameReferences m (m.modifyRegion id fun r => { r with provides := f r.provides }) where
  toSameRegions := by
    have hregions : (m.modifyRegion id fun r => { r with provides := f r.provides }).regions =
        m.regions.modify id.index fun r => { r with provides := f r.provides } := rfl
    exact .of_modify rfl (fun _ _ => rfl) hregions fun _ => ⟨rfl, rfl⟩
  exits := rfl
  locations := rfl
  ofWorld _ := ⟨rfl, rfl, rfl⟩
  ofRegion r := by
    rw [region_modifyRegion]
    split <;> exact ⟨rfl, rfl, rfl⟩
  ofExit _ := ⟨rfl, rfl, rfl, rfl⟩
  ofLocation _ := ⟨rfl, rfl, rfl⟩

/-- An exit may get another rule. -/
theorem modifyGuard (m : Multiworld) (id : ExitId) (guard : Guard) :
    SameReferences m (m.modifyExit id fun e => { e with guard }) where
  worlds := Nat.le_refl _
  regions := rfl
  name _ := rfl
  world _ := rfl
  named _ _ := rfl
  exits := Array.size_modify
  locations := rfl
  ofWorld _ := ⟨rfl, rfl, rfl⟩
  ofRegion _ := ⟨rfl, rfl, rfl⟩
  ofExit e := by
    rw [exit_modifyExit]
    split <;> exact ⟨rfl, rfl, rfl, rfl⟩
  ofLocation _ := ⟨rfl, rfl, rfl⟩

theorem modifyLocation (m : Multiworld) (id : LocationId) {f : Location → Location}
    (hf : ∀ l, (f l).name = l.name ∧ (f l).world = l.world ∧ (f l).parent = l.parent) :
    SameReferences m (m.modifyLocation id f) where
  worlds := Nat.le_refl _
  regions := rfl
  name _ := rfl
  world _ := rfl
  named _ _ := rfl
  exits := rfl
  locations := Array.size_modify
  ofWorld _ := ⟨rfl, rfl, rfl⟩
  ofRegion _ := ⟨rfl, rfl, rfl⟩
  ofExit _ := ⟨rfl, rfl, rfl, rfl⟩
  ofLocation l := by
    rw [location_modifyLocation]
    split
    · exact hf _
    · exact ⟨rfl, rfl, rfl⟩

end SameReferences

end Multiworld

end Progression
