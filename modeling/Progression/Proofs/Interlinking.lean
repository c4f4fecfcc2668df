import Mathlib.Data.List.Find
import Progression.Proofs.References

/-!
# Worlds stay interlinked

A change that records one direction of a reference has to record the other.  Most changes do so
with a part that is new and that nothing refers to yet.  Only an exit can be connected more than
once, and then it is connected to the region that it leads to already: a region is found by a
name, and no two regions of a world have the same one.

## Main results

* `Multiworld.Interlinked.newRegion`, `Multiworld.Interlinked.addExit`,
  `Multiworld.Interlinked.pushLocation`, `Multiworld.Interlinked.link`,
  `Multiworld.Interlinked.skip` — **each change that makes references keeps the worlds
  interlinked.**
* `Multiworld.Interlinked.of_sameReferences` — and so does a change that makes none.
* `Multiworld.Interlinked.unique` — no two regions of a world bear the same name.
* `Multiworld.Interlinked.isLocationNamed` — a name leads to a location that bears it.
-/

namespace Progression

namespace Multiworld

variable {m m' : Multiworld}

/-! ### New parts -/

/-- A new part has an owner, and the owners of the other parts stay. -/
theorem owns_push {α κ : Type} (xs : Array α) (x d : α) (owner : α → κ) (i : Nat) (k : κ) :
    (i < (xs.push x).size ∧ owner ((xs.push x).getD i d) = k) ↔
      (i < xs.size ∧ owner (xs.getD i d) = k) ∨ i = xs.size ∧ owner x = k := by
  rw [getD_push, Array.size_push]
  by_cases hi : i = xs.size
  · simp [hi]
  · rw [if_neg hi]
    have hlt : i < xs.size + 1 ↔ i < xs.size := by omega
    simp [hi, hlt]

namespace Interlinked

/-- Nothing refers to anything at first. -/
theorem empty (c : Catalog) : (Multiworld.empty c).Interlinked where
  exits := .of_empty (fun _ => rfl) fun _ _ h => nomatch h.1
  locations := .of_empty (fun _ => rfl) fun _ _ h => nomatch h.1
  worldLocations := .of_empty (fun _ => rfl) fun _ _ h => nomatch h.1
  entrances := .of_empty (fun _ => rfl) fun _ _ h => nomatch h
  connected _ _ h := nomatch h
  regionNamed _ _ _ := iff_of_false (fun h => nomatch h) fun h => nomatch h.1
  latest _ _ := rfl
  region_world _ h := nomatch h
  skipped_nodup _ := .nil
  skipped _ _ h := nomatch h

/-- A change to other things keeps the worlds interlinked. -/
theorem of_sameReferences (h : m.Interlinked) (hs : SameReferences m m') : m'.Interlinked := by
  have hlocationIn : ∀ id w, m'.IsLocationIn id w ↔ m.IsLocationIn id w := by
    intro id w
    rw [IsLocationIn, hs.locations, (hs.ofLocation id).2.1]
    rfl
  constructor
  case exits =>
    refine h.exits.congr (fun r => (hs.ofRegion r).1) fun id r => ?_
    rw [IsExitOf, hs.exits, (hs.ofExit id).2.1]
    rfl
  case locations =>
    refine h.locations.congr (fun r => (hs.ofRegion r).2.2) fun id r => ?_
    rw [IsLocationOf, hs.locations, (hs.ofLocation id).2.2]
    rfl
  case worldLocations => exact h.worldLocations.congr (fun w => (hs.ofWorld w).2.1) hlocationIn
  case entrances =>
    refine h.entrances.congr (fun r => (hs.ofRegion r).2.1) fun id r => ?_
    rw [LeadsTo, (hs.ofExit id).2.2.2]
    rfl
  case connected =>
    intro id r hr
    rw [LeadsTo, (hs.ofExit id).2.2.2] at hr
    rw [hs.isRegionNamed_iff, (hs.ofExit id).1, (hs.ofExit id).2.2.1]
    exact h.connected id r hr
  case regionNamed => exact hs.regionNamed h
  case latest =>
    intro w name
    rw [locationNamed?, (hs.ofWorld w).1, (hs.ofWorld w).2.1]
    simp only [(hs.ofLocation _).1]
    exact h.latest w name
  case region_world => exact hs.region_world h
  case skipped_nodup =>
    intro w
    rw [(hs.ofWorld w).2.2]
    exact h.skipped_nodup w
  case skipped =>
    intro w id hid
    rw [(hs.ofWorld w).2.2] at hid
    exact (hlocationIn id w).2 (h.skipped w id hid)

end Interlinked

/-! ### New regions -/

theorem region_pushRegion (m : Multiworld) (w : WorldId) (name : String) (provides : TimeOfDay)
    (r : RegionId) : (m.pushRegion w name provides).2.region r =
      if r.index = m.regions.size then ⟨name, w, [], [], [], provides⟩ else m.region r :=
  getD_push m.regions ⟨name, w, [], [], [], provides⟩ default r.index

theorem isRegionNamed_pushRegion (m : Multiworld) (w : WorldId) (name : String)
    (provides : TimeOfDay) (r : RegionId) (v : WorldId) (other : String) :
    (m.pushRegion w name provides).2.IsRegionNamed r v other ↔
      m.IsRegionNamed r v other ∨ r.index = m.regions.size ∧ w = v ∧ name = other := by
  have hsize : (m.pushRegion w name provides).2.regions.size = m.regions.size + 1 :=
    Array.size_push _
  rw [IsRegionNamed, IsRegionNamed, region_pushRegion, hsize]
  by_cases hr : r.index = m.regions.size
  · simp [hr]
  · have hlt : r.index < m.regions.size + 1 ↔ r.index < m.regions.size := by omega
    simp [hr, hlt]

/-- A new region lists nothing, just like a region that is not in use. -/
theorem lists_pushRegion (m : Multiworld) (w : WorldId) (name : String) (provides : TimeOfDay)
    (r : RegionId) :
    ((m.pushRegion w name provides).2.region r).exits = (m.region r).exits ∧
      ((m.pushRegion w name provides).2.region r).entrances = (m.region r).entrances ∧
      ((m.pushRegion w name provides).2.region r).locations = (m.region r).locations := by
  rw [region_pushRegion]
  split
  · next hr =>
    rw [region, hr, getD_size]
    exact ⟨rfl, rfl, rfl⟩
  · exact ⟨rfl, rfl, rfl⟩

/-- Add a region under a name that leads nowhere yet. -/
def newRegion (m : Multiworld) (w : WorldId) (name : String) (provides : TimeOfDay) :
    Multiworld :=
  (m.pushRegion w name provides).2.nameRegion w name ⟨m.regions.size⟩

/-- Of its world, only the table of regions changes. -/
theorem world_newRegion (m : Multiworld) (w : WorldId) (name : String) (provides : TimeOfDay)
    (v : WorldId) : ((m.newRegion w name provides).world v).locationNames =
        (m.world v).locationNames ∧
      ((m.newRegion w name provides).world v).locations = (m.world v).locations ∧
      ((m.newRegion w name provides).world v).skipped = (m.world v).skipped := by
  have hworld : (m.newRegion w name provides).world v = _ :=
    world_modifyWorld (m.pushRegion w name provides).2 w v _
  rw [hworld]
  split <;> exact ⟨rfl, rfl, rfl⟩

/-- A new world is one without names that gets its root region and the name of it. -/
theorem addWorld_eq (m : Multiworld) (profile : Profile) :
    (m.addWorld profile).2 =
      newRegion
        { m with worlds := m.worlds.push ⟨profile, ⟨m.regions.size⟩, [], [], [], [], .empty⟩ }
        ⟨m.worlds.size⟩ "Root" .none := by
  have hworlds : m.worlds.push (rootedWorld profile ⟨m.regions.size⟩) =
      (m.worlds.push ⟨profile, ⟨m.regions.size⟩, [], [], [], [], .empty⟩).modify m.worlds.size
        fun x => { x with regionNames := x.regionNames.insert "Root" ⟨m.regions.size⟩ } := by
    refine Array.ext (by simp) fun i _ _ => ?_
    rw [Array.getElem_modify, Array.getElem_push, Array.getElem_push]
    split
    · next hlt => rw [if_neg (Nat.ne_of_gt hlt)]
    · next hge =>
      rw [if_pos (by simp at *; omega)]
      rfl
  rw [newRegion, nameRegion, modifyWorld]
  simp only [Multiworld.addWorld, Multiworld.pushRegion, hworlds]

namespace Interlinked

/-- The table leads to a new region as soon as there is one. -/
theorem newRegion (h : m.Interlinked) {w : WorldId} {name : String}
    (hw : w.index < m.worlds.size) (hname : m.regionNamed? w name = none)
    (provides : TimeOfDay) : (m.newRegion w name provides).Interlinked := by
  have hnamed : ∀ r v other, (m.newRegion w name provides).IsRegionNamed r v other ↔
      m.IsRegionNamed r v other ∨ r.index = m.regions.size ∧ w = v ∧ name = other :=
    isRegionNamed_pushRegion m w name provides
  have hlists := lists_pushRegion m w name provides
  have hworlds := world_newRegion m w name provides
  have hsize : (m.newRegion w name provides).worlds.size = m.worlds.size := Array.size_modify
  constructor
  case exits => exact h.exits.congr (fun r => (hlists r).1) fun _ _ => .rfl
  case locations => exact h.locations.congr (fun r => (hlists r).2.2) fun _ _ => .rfl
  case worldLocations => exact h.worldLocations.congr (fun v => (hworlds v).2.1) fun _ _ => .rfl
  case entrances => exact h.entrances.congr (fun r => (hlists r).2.1) fun _ _ => .rfl
  case connected => exact fun id r hr => (hnamed _ _ _).2 (.inl (h.connected id r hr))
  case regionNamed =>
    intro v other r
    have hfind : (m.newRegion w name provides).regionNamed? v other = _ :=
      regionNamed_nameRegion (m.pushRegion w name provides).2 w v name other ⟨m.regions.size⟩
    rw [hfind, hnamed]
    split
    · -- no other region bears the name of the new one
      next hself =>
      obtain ⟨rfl, -, rfl⟩ := hself
      have hold : ¬ m.IsRegionNamed r w name := by
        rw [← h.regionNamed, hname]
        exact fun h => nomatch h
      obtain ⟨i⟩ := r
      simp [hold, eq_comm]
    · next hother =>
      have hnew : ¬ (r.index = m.regions.size ∧ w = v ∧ name = other) := by
        rintro ⟨-, rfl, rfl⟩
        exact hother ⟨rfl, hw, rfl⟩
      rw [or_iff_left hnew]
      exact h.regionNamed v other r
  case latest =>
    intro v other
    rw [locationNamed?, (hworlds v).1, (hworlds v).2.1]
    exact h.latest v other
  case region_world =>
    intro r hr
    have hregion : (m.newRegion w name provides).region r = _ :=
      region_pushRegion m w name provides r
    rw [hregion, hsize]
    split
    · exact hw
    · next hne =>
      have hlt : r.index < m.regions.size + 1 := by
        rwa [← Array.size_push]
      exact h.region_world r (by omega)
  case skipped_nodup =>
    intro v
    rw [(hworlds v).2.2]
    exact h.skipped_nodup v
  case skipped =>
    intro v id hid
    rw [(hworlds v).2.2] at hid
    exact h.skipped v id hid

end Interlinked

/-! ### New exits and locations -/

theorem exit_addExit (m : Multiworld) (parent : RegionId) (name target text : String)
    (id : ExitId) : (m.addExit parent name target text).2.exit id =
      if id.index = m.exits.size then
        ⟨name, (m.region parent).world, parent, target, none, .always, text⟩
      else m.exit id :=
  getD_push m.exits _ default id.index

/-- A new exit leads nowhere, just like an exit that is not in use. -/
theorem leadsTo_addExit (m : Multiworld) (parent : RegionId) (name target text : String)
    (id : ExitId) (r : RegionId) :
    (m.addExit parent name target text).2.LeadsTo id r ↔ m.LeadsTo id r := by
  rw [LeadsTo, LeadsTo, exit_addExit]
  split
  · next hid =>
    rw [exit, hid, getD_size]
    rfl
  · rfl

/-- A new location is one of its world. -/
theorem isLocationIn_pushLocation (m : Multiworld) (l : Location) (id : LocationId)
    (w : WorldId) : (m.pushLocation l).2.IsLocationIn id w ↔
      m.IsLocationIn id w ∨ id = ⟨m.locations.size⟩ ∧ l.world = w := by
  obtain ⟨i⟩ := id
  rw [LocationId.mk.injEq]
  exact owns_push m.locations l default Location.world i w

namespace Interlinked

/-- A new exit is listed by its region, and leads nowhere yet. -/
theorem addExit (h : m.Interlinked) {parent : RegionId} (hp : parent.index < m.regions.size)
    (name target text : String) : (m.addExit parent name target text).2.Interlinked := by
  have hregions : (m.addExit parent name target text).2.regions =
      m.regions.modify parent.index
        fun r => { r with exits := r.exits ++ [⟨m.exits.size⟩] } := rfl
  have hsame : SameRegions m (m.addExit parent name target text).2 :=
    .of_modify rfl (fun _ _ => rfl) hregions fun _ => ⟨rfl, rfl⟩
  have hleads := leadsTo_addExit m parent name target text
  constructor
  case exits =>
    refine h.exits.append (fun _ hnew => Nat.lt_irrefl _ hnew.1)
      (changed_of_modify hregions hp Region.exits (· ++ [⟨m.exits.size⟩]) fun _ => rfl) ?_
    rintro ⟨i⟩ r
    rw [ExitId.mk.injEq]
    exact owns_push m.exits _ default Exit.parent i r
  case locations =>
    exact h.locations.congr (kept_of_modify hregions Region.locations fun _ => rfl)
      fun _ _ => .rfl
  case worldLocations => exact h.worldLocations
  case entrances =>
    exact h.entrances.congr (kept_of_modify hregions Region.entrances fun _ => rfl) hleads
  case connected =>
    intro id r hr
    have hold := (hleads id r).1 hr
    rw [hsame.isRegionNamed_iff, exit_addExit]
    split
    · next hid =>
      rw [LeadsTo, exit_addExit, if_pos hid] at hr
      cases hr
    · exact h.connected id r hold
  case regionNamed => exact hsame.regionNamed h
  case latest => exact h.latest
  case region_world => exact hsame.region_world h
  case skipped_nodup => exact h.skipped_nodup
  case skipped => exact h.skipped

/-- A new location is listed by its region and by its world. -/
theorem pushLocation (h : m.Interlinked) {l : Location} (hp : l.parent.index < m.regions.size)
    (hw : l.world.index < m.worlds.size) : (m.pushLocation l).2.Interlinked := by
  have hregions : (m.pushLocation l).2.regions = m.regions.modify l.parent.index
      fun r => { r with locations := r.locations ++ [⟨m.locations.size⟩] } := rfl
  have hsame : SameRegions m (m.pushLocation l).2 :=
    .of_modify (worlds_pushLocation m l) (regionNamed_pushLocation m l) hregions
      fun _ => ⟨rfl, rfl⟩
  have hlocationIn := isLocationIn_pushLocation m l
  have hskipped : ∀ w, ((m.pushLocation l).2.world w).skipped = (m.world w).skipped := by
    intro w
    rw [world_pushLocation]
    split <;> rfl
  constructor
  case exits =>
    exact h.exits.congr (kept_of_modify hregions Region.exits fun _ => rfl) fun _ _ => .rfl
  case locations =>
    refine h.locations.append (fun _ hnew => Nat.lt_irrefl _ hnew.1)
      (changed_of_modify hregions hp Region.locations (· ++ [⟨m.locations.size⟩])
        fun _ => rfl) ?_
    rintro ⟨i⟩ r
    rw [LocationId.mk.injEq]
    exact owns_push m.locations l default Location.parent i r
  case worldLocations =>
    refine h.worldLocations.append (x := ⟨m.locations.size⟩)
      (fun _ hnew => Nat.lt_irrefl _ hnew.1) (fun w => ?_) hlocationIn
    rw [world_pushLocation]
    by_cases hworld : l.world = w
    · subst hworld
      rw [if_pos ⟨rfl, hw⟩, if_pos rfl]
    · rw [if_neg fun h => hworld h.1, if_neg hworld]
  case entrances =>
    exact h.entrances.congr (kept_of_modify hregions Region.entrances fun _ => rfl)
      fun _ _ => .rfl
  case connected => exact fun id r hr => (hsame.isRegionNamed_iff _ _ _).2 (h.connected id r hr)
  case regionNamed => exact hsame.regionNamed h
  case latest =>
    intro w name
    -- the locations that were there before have the names that they had
    have hold : ((m.world w).locations.reverse.find?
          fun id => ((m.pushLocation l).2.location id).name == name) =
        m.locationNamed? w name := by
      rw [h.latest]
      refine List.find?_congr fun id hid => ?_
      have hin := (h.worldLocations.mem_iff id w).1 (List.mem_reverse.1 hid)
      rw [location_pushLocation, if_neg (Nat.ne_of_lt hin.1)]
    rw [locationNamed?, world_pushLocation]
    split
    · rw [Table.find?_insert, List.reverse_concat, List.find?_cons, hold, location_pushLocation,
        if_pos rfl]
      by_cases hname : l.name = name
      · rw [if_pos hname, beq_iff_eq.2 hname]
      · rw [if_neg hname, beq_eq_false_iff_ne.2 hname]
        rfl
    · exact hold.symm
  case region_world => exact hsame.region_world h
  case skipped_nodup =>
    intro w
    rw [hskipped]
    exact h.skipped_nodup w
  case skipped =>
    intro w id hid
    rw [hskipped] at hid
    exact (hlocationIn id w).2 (.inl (h.skipped w id hid))

/-! ### Connections -/

/-- No two regions of a world bear the same name. -/
theorem unique (h : m.Interlinked) (w : WorldId) (name : String) (r r' : RegionId)
    (hr : m.IsRegionNamed r w name) (hr' : m.IsRegionNamed r' w name) : r = r' := by
  rw [← h.regionNamed] at hr hr'
  exact Option.some.inj (hr.symm.trans hr')

/-- An exit that is connected to a region of the name that it looks for leads there for the
first time, or led there before. -/
theorem leadsTo_link (h : m.Interlinked) {id : ExitId} {target : RegionId}
    (hid : id.index < m.exits.size)
    (ht : m.IsRegionNamed target (m.exit id).world (m.exit id).target) (e : ExitId)
    (r : RegionId) :
    (m.link id target).LeadsTo e r ↔ m.LeadsTo e r ∨ e = id ∧ target = r := by
  rw [LeadsTo, exit_link]
  by_cases he : id = e
  · subst he
    rw [if_pos ⟨rfl, hid⟩]
    constructor
    · intro hr
      exact .inr ⟨rfl, Option.some.inj hr⟩
    · -- no other region of its world bears the name
      rintro (hr | ⟨-, rfl⟩)
      · exact congrArg some (h.unique _ _ _ _ ht (h.connected id r hr))
      · rfl
  · rw [if_neg fun h => he h.1]
    refine ⟨.inl, ?_⟩
    rintro (hr | ⟨rfl, -⟩)
    · exact hr
    · exact absurd rfl he

/-- An exit may be connected by name, as often as one likes. -/
theorem link (h : m.Interlinked) {id : ExitId} {target : RegionId}
    (hid : id.index < m.exits.size)
    (ht : m.IsRegionNamed target (m.exit id).world (m.exit id).target) :
    (m.link id target).Interlinked := by
  have hregions : (m.link id target).regions = m.regions.modify target.index
      fun r => { r with entrances := appendNew r.entrances id } := rfl
  have hsame : SameRegions m (m.link id target) :=
    .of_modify rfl (fun _ _ => rfl) hregions fun _ => ⟨rfl, rfl⟩
  have hexits : (m.link id target).exits.size = m.exits.size := Array.size_modify
  have hexit : ∀ e, ((m.link id target).exit e).world = (m.exit e).world ∧
      ((m.link id target).exit e).target = (m.exit e).target ∧
      ((m.link id target).exit e).parent = (m.exit e).parent := by
    intro e
    rw [exit_link]
    split <;> exact ⟨rfl, rfl, rfl⟩
  constructor
  case exits =>
    refine h.exits.congr (kept_of_modify hregions Region.exits fun _ => rfl) fun e r => ?_
    rw [IsExitOf, hexits, (hexit e).2.2]
    rfl
  case locations =>
    exact h.locations.congr (kept_of_modify hregions Region.locations fun _ => rfl)
      fun _ _ => .rfl
  case worldLocations => exact h.worldLocations
  case entrances =>
    exact h.entrances.insert
      (changed_of_modify hregions ht.1 Region.entrances (appendNew · id) fun _ => rfl)
      (h.leadsTo_link hid ht)
  case connected =>
    intro e r hr
    rw [hsame.isRegionNamed_iff, (hexit e).1, (hexit e).2.1]
    rcases (h.leadsTo_link hid ht e r).1 hr with hr | ⟨rfl, rfl⟩
    · exact h.connected e r hr
    · exact ht
  case regionNamed => exact hsame.regionNamed h
  case latest => exact h.latest
  case region_world => exact hsame.region_world h
  case skipped_nodup => exact h.skipped_nodup
  case skipped => exact h.skipped

/-! ### Skipped locations -/

/-- A location that is handed out at the start is noted in its world. -/
theorem skip (h : m.Interlinked) {id : LocationId} (hid : id.index < m.locations.size) :
    (m.skip id).Interlinked := by
  have hworld : ∀ w, (m.skip id).world w =
      if (m.location id).world = w ∧ w.index < m.worlds.size then
        { m.world w with skipped := appendNew (m.world w).skipped id }
      else m.world w := fun w => world_modifyWorld m _ w _
  constructor
  case exits => exact h.exits
  case locations => exact h.locations
  case worldLocations =>
    refine h.worldLocations.congr (fun w => ?_) fun _ _ => .rfl
    rw [hworld]
    split <;> rfl
  case entrances => exact h.entrances
  case connected => exact h.connected
  case regionNamed =>
    intro w name r
    have hfind : (m.skip id).regionNamed? w name = m.regionNamed? w name :=
      regionNamed_modifyWorld m _ w name fun _ => rfl
    rw [hfind]
    exact h.regionNamed w name r
  case latest =>
    intro w name
    have hsame : ((m.skip id).world w).locationNames = (m.world w).locationNames ∧
        ((m.skip id).world w).locations = (m.world w).locations := by
      rw [hworld]
      split <;> exact ⟨rfl, rfl⟩
    rw [locationNamed?, hsame.1, hsame.2]
    exact h.latest w name
  case region_world =>
    intro r hr
    have hworlds : (m.skip id).worlds.size = m.worlds.size := Array.size_modify
    rw [hworlds]
    exact h.region_world r hr
  case skipped_nodup =>
    intro w
    rw [hworld]
    split
    · exact nodup_appendNew (h.skipped_nodup w) id
    · exact h.skipped_nodup w
  case skipped =>
    intro w l hl
    rw [hworld] at hl
    split at hl
    · next hw =>
      rcases mem_appendNew.1 hl with hl | rfl
      · exact h.skipped w l hl
      · exact ⟨hid, hw.1⟩
    · exact h.skipped w l hl

end Interlinked

/-! ### Finding parts by name -/

namespace Interlinked

/-- A name leads to a location of its world that bears it. -/
theorem isLocationNamed (h : m.Interlinked) {w : WorldId} {name : String} {id : LocationId}
    (hid : m.locationNamed? w name = some id) : m.IsLocationNamed id w name := by
  rw [h.latest] at hid
  have hlisted := List.mem_reverse.1 (List.mem_of_find?_eq_some hid)
  have hname := List.find?_some hid
  exact ⟨(h.worldLocations.mem_iff id w).1 hlisted, beq_iff_eq.1 hname⟩

/-- A name that leads to no location is borne by none. -/
theorem not_isLocationNamed (h : m.Interlinked) {w : WorldId} {name : String}
    (hnone : m.locationNamed? w name = none) (id : LocationId) :
    ¬ m.IsLocationNamed id w name := by
  rintro ⟨hin, hname⟩
  rw [h.latest] at hnone
  have hlisted : id ∈ (m.world w).locations.reverse :=
    List.mem_reverse.2 ((h.worldLocations.mem_iff id w).2 hin)
  have hother := List.find?_eq_none.1 hnone id hlisted
  simp [hname] at hother

end Interlinked

end Multiworld

end Progression
