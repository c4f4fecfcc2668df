import Progression.Proofs.Resolving
import Progression.World.Compile

/-!
# Worlds stay well formed

Worlds are made by building operations and compilations, in any order.  Whatever comes
out, even of a compilation that fails, the regions and exits fit together: an exit is
listed by its own region only, leads nowhere outside its world, and its rule tests for
day or night, never for both at once.

## Main definitions

* `TimeOfDay.isSingle` — whether a set of times is day or night alone.
* `Multiworld.WellFormed` — how the parts of all worlds fit together.
* `Multiworld.Built` — what building and compiling can make.

## Main results

* `Multiworld.Built.wellFormed` — **whatever is built and compiled is well formed.**
-/

namespace Progression

open Rule

/-- Whether a set of times is the day or the night alone. -/
def TimeOfDay.isSingle (t : TimeOfDay) : Bool := t.day != t.night

namespace Multiworld

/-! ### Parts in use -/

theorem mem_worldIds {m : Multiworld} {w : WorldId} :
    w ∈ m.worldIds ↔ w.index < m.worlds.size := by
  simp only [worldIds, List.mem_map, List.mem_range]
  exact ⟨fun ⟨_, h, hw⟩ => hw ▸ h, fun h => ⟨w.index, h, rfl⟩⟩

theorem mem_exitIds {m : Multiworld} {id : ExitId} :
    id ∈ m.exitIds ↔ id.index < m.exits.size := by
  simp only [exitIds, List.mem_map, List.mem_range]
  exact ⟨fun ⟨_, h, hid⟩ => hid ▸ h, fun h => ⟨id.index, h, rfl⟩⟩

theorem mem_locationIds {m : Multiworld} {id : LocationId} :
    id ∈ m.locationIds ↔ id.index < m.locations.size := by
  simp only [locationIds, List.mem_map, List.mem_range]
  exact ⟨fun ⟨_, h, hid⟩ => hid ▸ h, fun h => ⟨id.index, h, rfl⟩⟩

/-! ### Parts after a change -/

section Parts

variable {α : Type}

theorem getD_push (xs : Array α) (x d : α) (i : Nat) :
    (xs.push x).getD i d = if i = xs.size then x else xs.getD i d := by
  simp only [Array.getD_eq_getD_getElem?, Array.getElem?_push]
  split <;> rfl

theorem getD_modify (xs : Array α) (f : α → α) (i j : Nat) (d : α) :
    (xs.modify i f).getD j d = if i = j ∧ j < xs.size then f (xs.getD j d) else xs.getD j d := by
  simp only [Array.getD_eq_getD_getElem?, Array.getElem?_modify]
  by_cases hj : j < xs.size
  · by_cases hi : i = j <;> simp [hj, hi]
  · by_cases hi : i = j <;> simp [hj, hi]

/-- Nothing changes when a part is changed to what it is, or when there is no such part. -/
theorem modify_eq_self {xs : Array α} {f : α → α} {i : Nat} {d : α}
    (h : i < xs.size → f (xs.getD i d) = xs.getD i d) : xs.modify i f = xs := by
  refine Array.ext Array.size_modify fun j _ hj => ?_
  rw [Array.getElem_modify]
  split
  · next hij =>
    have hget : xs.getD i d = xs[j] := by
      rw [Array.getD_eq_getD_getElem?, hij, Array.getElem?_eq_getElem hj]
      rfl
    have heq := h (hij ▸ hj)
    rwa [hget] at heq
  · rfl

variable (m : Multiworld)

theorem region_modifyRegion (id r : RegionId) (f : Region → Region) :
    (m.modifyRegion id f).region r =
      if id = r ∧ r.index < m.regions.size then f (m.region r) else m.region r := by
  cases id
  cases r
  rw [region, modifyRegion, getD_modify]
  simp only [RegionId.mk.injEq]
  rfl

theorem exit_modifyExit (id e : ExitId) (f : Exit → Exit) :
    (m.modifyExit id f).exit e =
      if id = e ∧ e.index < m.exits.size then f (m.exit e) else m.exit e := by
  cases id
  cases e
  rw [exit, modifyExit, getD_modify]
  simp only [ExitId.mk.injEq]
  rfl

theorem location_modifyLocation (id l : LocationId) (f : Location → Location) :
    (m.modifyLocation id f).location l =
      if id = l ∧ l.index < m.locations.size then f (m.location l) else m.location l := by
  cases id
  cases l
  rw [location, modifyLocation, getD_modify]
  simp only [LocationId.mk.injEq]
  rfl

theorem world_modifyWorld (id w : WorldId) (f : World → World) :
    (m.modifyWorld id f).world w =
      if id = w ∧ w.index < m.worlds.size then f (m.world w) else m.world w := by
  cases id
  cases w
  rw [world, modifyWorld, getD_modify]
  simp only [WorldId.mk.injEq]
  rfl

theorem root_modifyWorld (id : WorldId) {f : World → World} (hf : ∀ x, (f x).root = x.root)
    (w : WorldId) : (m.modifyWorld id f).root w = m.root w := by
  rw [root, root, world_modifyWorld]
  split
  · exact hf _
  · rfl

theorem region_pushRegion_self (w : WorldId) (name : String) (provides : TimeOfDay) :
    (m.pushRegion w name provides).2.region ⟨m.regions.size⟩ =
      ⟨name, w, [], [], [], provides⟩ := by
  rw [region, pushRegion, getD_push, if_pos rfl]

theorem region_pushRegion_of_ne (w : WorldId) (name : String) (provides : TimeOfDay)
    {r : RegionId} (hr : r.index ≠ m.regions.size) :
    (m.pushRegion w name provides).2.region r = m.region r := by
  rw [region, pushRegion, getD_push, if_neg hr]
  rfl

end Parts

/-! ### Names after a change -/

section Names

variable (m : Multiworld)

/-- A change to other parts of a world leaves the names of its regions alone. -/
theorem regionNamed_modifyWorld (id : WorldId) {f : World → World} (w : WorldId) (name : String)
    (hf : ∀ x, (f x).regionNames = x.regionNames) :
    (m.modifyWorld id f).regionNamed? w name = m.regionNamed? w name := by
  rw [regionNamed?, regionNamed?, world_modifyWorld]
  split
  · rw [hf]
  · rfl

/-- A name that is bound leads to its region, and other names lead where they led before. -/
theorem regionNamed_nameRegion (w v : WorldId) (name other : String) (id : RegionId) :
    (m.nameRegion w name id).regionNamed? v other =
      if w = v ∧ v.index < m.worlds.size ∧ name = other then some id
      else m.regionNamed? v other := by
  rw [regionNamed?, nameRegion, world_modifyWorld, regionNamed?]
  by_cases hv : w = v ∧ v.index < m.worlds.size
  · rw [if_pos hv, Table.find?_insert]
    simp only [hv.1, hv.2, true_and]
  · rw [if_neg hv, if_neg fun h => hv ⟨h.1, h.2.1⟩]

theorem regionNamed_pushLocation (l : Location) (w : WorldId) (name : String) :
    (m.pushLocation l).2.regionNamed? w name = m.regionNamed? w name :=
  regionNamed_modifyWorld _ l.world w name fun _ => rfl

/-- Nothing has a name in a world that is not there. -/
theorem regionNamed_of_size_le {w : WorldId} (hw : m.worlds.size ≤ w.index) (name : String) :
    m.regionNamed? w name = none := by
  rw [regionNamed?, world, Array.getD_eq_getD_getElem?, Array.getElem?_eq_none hw]
  rfl

/-- In a new world, one name leads to a region. -/
theorem regionNamed_addWorld (profile : Profile) (w : WorldId) (name : String) :
    (m.addWorld profile).2.regionNamed? w name =
      if w.index = m.worlds.size then if "Root" = name then some ⟨m.regions.size⟩ else none
      else m.regionNamed? w name := by
  have hworld : (m.addWorld profile).2.world w =
      if w.index = m.worlds.size then rootedWorld profile ⟨m.regions.size⟩ else m.world w :=
    getD_push ..
  rw [regionNamed?, hworld]
  split <;> rfl

end Names

/-! ### Well-formedness -/

/-- How the regions and exits of all worlds fit together, and what their rules test. -/
structure WellFormed (m : Multiworld) : Prop where
  root_lt : ∀ w : WorldId, w.index < m.worlds.size → (m.root w).index < m.regions.size
  root_world : ∀ w : WorldId, w.index < m.worlds.size → (m.region (m.root w)).world = w
  region_world : ∀ r : RegionId, r.index < m.regions.size →
    (m.region r).world.index < m.worlds.size
  /-- A region lists its own exits. -/
  exit_listed : ∀ r, ∀ id ∈ (m.region r).exits, id.index < m.exits.size ∧
    (m.exit id).parent = r ∧ (m.exit id).world = (m.region r).world
  /-- An exit leads to a region of its world. -/
  connected : ∀ id target, (m.exit id).connected = some target →
    target.index < m.regions.size ∧ (m.region target).world = (m.exit id).world
  /-- A name leads to a region that bears it. -/
  named : ∀ w name r, m.regionNamed? w name = some r →
    r.index < m.regions.size ∧ (m.region r).world = w ∧ (m.region r).name = name
  exit_times : ∀ id, (m.exit id).guard.formula.eachTime TimeOfDay.isSingle = true
  location_times : ∀ id, (m.location id).guard.formula.eachTime TimeOfDay.isSingle = true

/-- What a region that is in use has in common before and after a change that does not
rebuild the worlds, and likewise the exits. -/
structure SameShape (m m' : Multiworld) : Prop where
  worlds : m'.worlds.size = m.worlds.size
  regions : m'.regions.size = m.regions.size
  exits : m'.exits.size = m.exits.size
  root : ∀ w, m'.root w = m.root w
  regionNamed : ∀ w name, m'.regionNamed? w name = m.regionNamed? w name
  region : ∀ r, (m'.region r).world = (m.region r).world ∧
    (m'.region r).name = (m.region r).name ∧ (m'.region r).exits = (m.region r).exits
  exit : ∀ id, (m'.exit id).parent = (m.exit id).parent ∧
    (m'.exit id).world = (m.exit id).world ∧ (m'.exit id).connected = (m.exit id).connected

namespace SameShape

variable {m m' : Multiworld}

/-- The same worlds, regions and exits. -/
theorem of_parts (hw : m'.worlds = m.worlds) (hr : m'.regions = m.regions)
    (he : m'.exits = m.exits) : SameShape m m' where
  worlds := by rw [hw]
  regions := by rw [hr]
  exits := by rw [he]
  root w := by rw [Multiworld.root, Multiworld.root, world, world, hw]
  regionNamed w name := by rw [regionNamed?, regionNamed?, world, world, hw]
  region r := by
    rw [Multiworld.region, Multiworld.region, hr]
    exact ⟨rfl, rfl, rfl⟩
  exit id := by
    rw [Multiworld.exit, Multiworld.exit, he]
    exact ⟨rfl, rfl, rfl⟩

theorem modifyRegion (m : Multiworld) (id : RegionId) {f : Region → Region}
    (hf : ∀ r, (f r).world = r.world ∧ (f r).name = r.name ∧ (f r).exits = r.exits) :
    SameShape m (m.modifyRegion id f) where
  worlds := rfl
  regions := by simp [Multiworld.modifyRegion]
  exits := rfl
  root _ := rfl
  regionNamed _ _ := rfl
  region r := by
    rw [region_modifyRegion]
    split
    · exact hf _
    · exact ⟨rfl, rfl, rfl⟩
  exit _ := ⟨rfl, rfl, rfl⟩

theorem modifyWorld (m : Multiworld) (id : WorldId) {f : World → World}
    (hf : ∀ w, (f w).root = w.root ∧ (f w).regionNames = w.regionNames) :
    SameShape m (m.modifyWorld id f) where
  worlds := by simp [Multiworld.modifyWorld]
  regions := rfl
  exits := rfl
  root := root_modifyWorld m id fun w => (hf w).1
  regionNamed v name := regionNamed_modifyWorld m id v name fun w => (hf w).2
  region _ := ⟨rfl, rfl, rfl⟩
  exit _ := ⟨rfl, rfl, rfl⟩

theorem modifyExit (m : Multiworld) (id : ExitId) {f : Exit → Exit}
    (hf : ∀ e, (f e).parent = e.parent ∧ (f e).world = e.world ∧ (f e).connected = e.connected) :
    SameShape m (m.modifyExit id f) where
  worlds := rfl
  regions := rfl
  exits := by simp [Multiworld.modifyExit]
  root _ := rfl
  regionNamed _ _ := rfl
  region _ := ⟨rfl, rfl, rfl⟩
  exit e := by
    rw [exit_modifyExit]
    split
    · exact hf _
    · exact ⟨rfl, rfl, rfl⟩

theorem modifyLocation (m : Multiworld) (id : LocationId) (f : Location → Location) :
    SameShape m (m.modifyLocation id f) :=
  ⟨rfl, rfl, rfl, fun _ => rfl, fun _ _ => rfl, fun _ => ⟨rfl, rfl, rfl⟩,
    fun _ => ⟨rfl, rfl, rfl⟩⟩

end SameShape

namespace WellFormed

variable {m m' : Multiworld}

/-- A change that keeps the shape keeps the worlds well formed, if the rules still test
for day or night only. -/
theorem of_sameShape (h : m.WellFormed) (hs : SameShape m m')
    (hexit : ∀ id, (m'.exit id).guard.formula.eachTime TimeOfDay.isSingle = true)
    (hloc : ∀ id, (m'.location id).guard.formula.eachTime TimeOfDay.isSingle = true) :
    m'.WellFormed where
  root_lt w hw := by
    rw [hs.root, hs.regions]
    exact h.root_lt w (hs.worlds ▸ hw)
  root_world w hw := by
    rw [hs.root, (hs.region _).1]
    exact h.root_world w (hs.worlds ▸ hw)
  region_world r hr := by
    rw [(hs.region r).1, hs.worlds]
    exact h.region_world r (hs.regions ▸ hr)
  exit_listed r id hid := by
    rw [(hs.region r).2.2] at hid
    rw [hs.exits, (hs.exit id).1, (hs.exit id).2.1, (hs.region r).1]
    exact h.exit_listed r id hid
  connected id target hc := by
    rw [(hs.exit id).2.2] at hc
    rw [hs.regions, (hs.region target).1, (hs.exit id).2.1]
    exact h.connected id target hc
  named w name r hr := by
    rw [hs.regionNamed] at hr
    rw [hs.regions, (hs.region r).1, (hs.region r).2.1]
    exact h.named w name r hr
  exit_times := hexit
  location_times := hloc

theorem empty (c : Catalog) : (Multiworld.empty c).WellFormed where
  root_lt _ hw := nomatch hw
  root_world _ hw := nomatch hw
  region_world _ hr := nomatch hr
  exit_listed _ _ hid := nomatch hid
  connected _ _ hc := nomatch hc
  named _ _ _ hr := nomatch hr
  exit_times _ := rfl
  location_times _ := rfl

/-! ### Building -/

/-- A change to a region's other parts. -/
theorem modifyRegion (h : m.WellFormed) (id : RegionId) {f : Region → Region}
    (hf : ∀ r, (f r).world = r.world ∧ (f r).name = r.name ∧ (f r).exits = r.exits) :
    (m.modifyRegion id f).WellFormed :=
  h.of_sameShape (.modifyRegion m id hf) h.exit_times h.location_times

theorem modifyWorld (h : m.WellFormed) (id : WorldId) {f : World → World}
    (hf : ∀ w, (f w).root = w.root ∧ (f w).regionNames = w.regionNames) :
    (m.modifyWorld id f).WellFormed :=
  h.of_sameShape (.modifyWorld m id hf) h.exit_times h.location_times

theorem modifyLocation (h : m.WellFormed) (id : LocationId) {f : Location → Location}
    (hf : ∀ l, l.guard.formula.eachTime TimeOfDay.isSingle = true →
      (f l).guard.formula.eachTime TimeOfDay.isSingle = true) :
    (m.modifyLocation id f).WellFormed := by
  refine h.of_sameShape (.modifyLocation m id f) h.exit_times fun l => ?_
  rw [location_modifyLocation]
  split
  · exact hf _ (h.location_times l)
  · exact h.location_times l

/-- What the regions list and where the exits lead is not disturbed by a new region. -/
theorem of_pushRegion (h : m.WellFormed) (hregions : m'.regions.size = m.regions.size + 1)
    (hexits : m'.exits = m.exits)
    (hold : ∀ r : RegionId, r.index ≠ m.regions.size → m'.region r = m.region r)
    (hnew : (m'.region ⟨m.regions.size⟩).exits = []) :
    (∀ r, ∀ id ∈ (m'.region r).exits, id.index < m'.exits.size ∧
      (m'.exit id).parent = r ∧ (m'.exit id).world = (m'.region r).world) ∧
    ∀ id target, (m'.exit id).connected = some target →
      target.index < m'.regions.size ∧ (m'.region target).world = (m'.exit id).world := by
  have hexit : ∀ id, m'.exit id = m.exit id := by
    intro id
    rw [exit, exit, hexits]
  constructor
  · intro r id hid
    by_cases hr : r.index = m.regions.size
    · have hself : r = ⟨m.regions.size⟩ := congrArg RegionId.mk hr
      rw [hself, hnew] at hid
      exact absurd hid List.not_mem_nil
    · rw [hold r hr] at hid ⊢
      rw [hexit, hexits]
      exact h.exit_listed r id hid
  · intro id target hc
    rw [hexit] at hc ⊢
    obtain ⟨ht, htw⟩ := h.connected id target hc
    rw [hold target (by omega), hregions]
    exact ⟨by omega, htw⟩

theorem pushRegion (h : m.WellFormed) {w : WorldId} (hw : w.index < m.worlds.size)
    (name : String) (provides : TimeOfDay) : (m.pushRegion w name provides).2.WellFormed := by
  have hsize : (m.pushRegion w name provides).2.regions.size = m.regions.size + 1 := by
    simp [Multiworld.pushRegion]
  have hold : ∀ r : RegionId, r.index ≠ m.regions.size →
      (m.pushRegion w name provides).2.region r = m.region r :=
    fun r hr => region_pushRegion_of_ne m w name provides hr
  obtain ⟨hlisted, hconnected⟩ := h.of_pushRegion hsize rfl hold
    (by rw [region_pushRegion_self])
  constructor
  case root_lt =>
    intro v hv
    have hroot : (m.root v).index < m.regions.size := h.root_lt v hv
    change (m.root v).index < _
    omega
  case root_world =>
    intro v hv
    have hroot : (m.root v).index < m.regions.size := h.root_lt v hv
    change ((m.pushRegion w name provides).2.region (m.root v)).world = v
    rw [hold _ (by omega)]
    exact h.root_world v hv
  case region_world =>
    intro r hr
    by_cases hr' : r.index = m.regions.size
    · have hself : r = ⟨m.regions.size⟩ := congrArg RegionId.mk hr'
      rw [hself, region_pushRegion_self]
      exact hw
    · rw [hold r hr']
      exact h.region_world r (by omega)
  case exit_listed => exact hlisted
  case connected => exact hconnected
  case named =>
    intro v other r hr
    obtain ⟨hlt, hnamed⟩ := h.named v other r hr
    rw [hold r (Nat.ne_of_lt hlt)]
    exact ⟨by omega, hnamed⟩
  case exit_times => exact h.exit_times
  case location_times => exact h.location_times

/-- A name may be made to lead to a region that bears it. -/
theorem nameRegion (h : m.WellFormed) (id : RegionId) (hid : id.index < m.regions.size) :
    (m.nameRegion (m.region id).world (m.region id).name id).WellFormed := by
  have hroot : ∀ w, (m.nameRegion (m.region id).world (m.region id).name id).root w = m.root w :=
    root_modifyWorld m _ fun _ => rfl
  have hworlds : (m.nameRegion (m.region id).world (m.region id).name id).worlds.size =
      m.worlds.size := Array.size_modify
  constructor
  case root_lt =>
    intro w hw
    rw [hroot]
    exact h.root_lt w (hworlds ▸ hw)
  case root_world =>
    intro w hw
    rw [hroot]
    exact h.root_world w (hworlds ▸ hw)
  case region_world =>
    intro r hr
    rw [hworlds]
    exact h.region_world r hr
  case exit_listed => exact h.exit_listed
  case connected => exact h.connected
  case named =>
    intro w name r hr
    rw [regionNamed_nameRegion] at hr
    split at hr
    · next hself =>
      cases hr
      exact ⟨hid, hself.1, hself.2.2⟩
    · exact h.named w name r hr
  case exit_times => exact h.exit_times
  case location_times => exact h.location_times

theorem addWorld (h : m.WellFormed) (profile : Profile) : (m.addWorld profile).2.WellFormed := by
  let w : WorldId := ⟨m.worlds.size⟩
  have hsize : (m.addWorld profile).2.regions.size = m.regions.size + 1 := by
    simp [Multiworld.addWorld, Multiworld.pushRegion]
  have hworlds : (m.addWorld profile).2.worlds.size = m.worlds.size + 1 := by
    simp [Multiworld.addWorld, Multiworld.pushRegion]
  have hold : ∀ r : RegionId, r.index ≠ m.regions.size →
      (m.addWorld profile).2.region r = m.region r :=
    fun r hr => region_pushRegion_of_ne m w "Root" .none hr
  have hself : (m.addWorld profile).2.region ⟨m.regions.size⟩ = ⟨"Root", w, [], [], [], .none⟩ :=
    region_pushRegion_self m w "Root" .none
  have hroot : ∀ v : WorldId, (m.addWorld profile).2.root v =
      if v.index = m.worlds.size then ⟨m.regions.size⟩ else m.root v := by
    intro v
    refine (congrArg World.root (getD_push m.worlds
      (rootedWorld profile ⟨m.regions.size⟩) default v.index)).trans ?_
    split <;> rfl
  obtain ⟨hlisted, hconnected⟩ := h.of_pushRegion hsize rfl hold (by rw [hself])
  constructor
  case root_lt =>
    intro v hv
    rw [hroot, hsize]
    -- the new world has the new region for its root
    split
    · simp
    · have := h.root_lt v (by omega)
      omega
  case root_world =>
    intro v hv
    rw [hroot]
    split
    · next hnew =>
      have hvw : v = w := congrArg WorldId.mk hnew
      rw [hself, hvw]
    · have := h.root_lt v (by omega)
      rw [hold _ (by omega)]
      exact h.root_world v (by omega)
  case region_world =>
    intro r hr
    rw [hworlds]
    by_cases hr' : r.index = m.regions.size
    · have hrw : r = ⟨m.regions.size⟩ := congrArg RegionId.mk hr'
      rw [hrw, hself]
      exact Nat.lt_succ_self _
    · have := h.region_world r (by omega)
      rw [hold r hr']
      omega
  case exit_listed => exact hlisted
  case connected => exact hconnected
  case named =>
    intro v name r hr
    rw [regionNamed_addWorld] at hr
    split at hr
    · next hnew =>
      split at hr
      · next hname =>
        cases hr
        rw [hself, hsize]
        exact ⟨Nat.lt_succ_self _, congrArg WorldId.mk hnew.symm, hname⟩
      · cases hr
    · obtain ⟨hlt, hnamed⟩ := h.named v name r hr
      rw [hold r (Nat.ne_of_lt hlt)]
      exact ⟨by omega, hnamed⟩
  case exit_times => exact h.exit_times
  case location_times => exact h.location_times

theorem addRegion (h : m.WellFormed) {w : WorldId} (hw : w.index < m.worlds.size)
    (name : String) (provides : TimeOfDay) : (m.addRegion w name provides).2.WellFormed := by
  unfold Multiworld.addRegion
  split
  · exact h.modifyRegion _ fun _ => ⟨rfl, rfl, rfl⟩
  · have hpush := h.pushRegion hw name provides
    have hnamed := hpush.nameRegion ⟨m.regions.size⟩ (by simp [Multiworld.pushRegion])
    rwa [region_pushRegion_self] at hnamed

theorem addExit (h : m.WellFormed) {parent : RegionId} (hp : parent.index < m.regions.size)
    (name target text : String) : (m.addExit parent name target text).2.WellFormed := by
  let e : Exit := ⟨name, (m.region parent).world, parent, target, none, .always, text⟩
  have hsize : (m.addExit parent name target text).2.exits.size = m.exits.size + 1 := by
    simp [Multiworld.addExit, Multiworld.modifyRegion]
  have hregions : (m.addExit parent name target text).2.regions.size = m.regions.size := by
    simp [Multiworld.addExit, Multiworld.modifyRegion]
  have hexit : ∀ id : ExitId, (m.addExit parent name target text).2.exit id =
      if id.index = m.exits.size then e else m.exit id := by
    intro id
    rw [exit, Multiworld.addExit, Multiworld.modifyRegion, getD_push]
    split <;> rfl
  have hregion : ∀ r, (m.addExit parent name target text).2.region r =
      if parent = r ∧ r.index < m.regions.size then
        { m.region r with exits := (m.region r).exits ++ [⟨m.exits.size⟩] }
      else m.region r := fun r => region_modifyRegion { m with exits := m.exits.push e } parent r _
  have hworld : ∀ r, ((m.addExit parent name target text).2.region r).world =
      (m.region r).world := by
    intro r
    rw [hregion]
    split <;> rfl
  have hname : ∀ r, ((m.addExit parent name target text).2.region r).name =
      (m.region r).name := by
    intro r
    rw [hregion]
    split <;> rfl
  constructor
  case root_lt =>
    intro v hv
    rw [hregions]
    exact h.root_lt v hv
  case root_world =>
    intro v hv
    rw [hworld]
    exact h.root_world v hv
  case region_world =>
    intro r hr
    rw [hworld]
    exact h.region_world r (hregions ▸ hr)
  case exit_listed =>
    intro r id hid
    rw [hsize, hworld, hexit]
    -- either the exit is old, or it is the new one and the region is its own
    have hcases : id ∈ (m.region r).exits ∨ id = ⟨m.exits.size⟩ ∧ r = parent := by
      rw [hregion] at hid
      split at hid
      · next hr =>
        rcases List.mem_append.1 hid with hid | hid
        · exact .inl hid
        · exact .inr ⟨List.mem_singleton.1 hid, hr.1.symm⟩
      · exact .inl hid
    rcases hcases with hid | ⟨rfl, rfl⟩
    · obtain ⟨hlt, hparent, hw⟩ := h.exit_listed r id hid
      rw [if_neg (by omega)]
      exact ⟨by omega, hparent, hw⟩
    · rw [if_pos rfl]
      exact ⟨Nat.lt_succ_self _, rfl, rfl⟩
  case connected =>
    intro id target' hc
    rw [hregions, hworld]
    rw [hexit] at hc ⊢
    split at hc
    · cases hc
    · next hid =>
      rw [if_neg hid]
      exact h.connected id target' hc
  case named =>
    intro w other r hr
    rw [hregions, hworld, hname]
    exact h.named w other r hr
  case exit_times =>
    intro id
    rw [hexit]
    split
    · rfl
    · exact h.exit_times id
  case location_times => exact h.location_times

theorem pushLocation (h : m.WellFormed) {l : Location}
    (hl : l.guard.formula.eachTime TimeOfDay.isSingle = true) :
    (m.pushLocation l).2.WellFormed := by
  have hpush : WellFormed { m with locations := m.locations.push l } := by
    refine h.of_sameShape (.of_parts rfl rfl rfl) h.exit_times fun id => ?_
    rw [location, getD_push]
    split
    · exact hl
    · exact h.location_times id
  -- the region and the world list the location, which is no part of their shape
  have hregion : (Multiworld.modifyRegion { m with locations := m.locations.push l } l.parent
      fun r => { r with locations := r.locations ++ [⟨m.locations.size⟩] }).WellFormed :=
    hpush.modifyRegion l.parent fun _ => ⟨rfl, rfl, rfl⟩
  exact hregion.modifyWorld l.world fun _ => ⟨rfl, rfl⟩

theorem addLocation (h : m.WellFormed) (parent : RegionId) (name kind text : String) :
    (m.addLocation parent name kind text).2.WellFormed :=
  h.pushLocation rfl

/-- The catalog and the rulebook play no part. -/
theorem withCatalog (h : m.WellFormed) (catalog : Catalog) (book : Rulebook) :
    WellFormed { m with catalog, book } :=
  h.of_sameShape (.of_parts rfl rfl rfl) h.exit_times h.location_times

theorem addEvent (h : m.WellFormed) (parent : RegionId) (name text : String) :
    (m.addEvent parent name text).2.WellFormed := by
  have hcatalog := h.withCatalog (m.catalog.declareEvent name).2 m.book
  have hlocation := hcatalog.addLocation parent name eventKind text
  change ((Multiworld.modifyLocation _ _ _).modifyWorld _ _).WellFormed
  refine WellFormed.modifyWorld (hlocation.modifyLocation _ ?_) _ fun _ => ⟨rfl, rfl⟩
  intro l hl
  exact hl

/-- An exit may be connected to any region of its world. -/
theorem connect (h : m.WellFormed) (id : ExitId) {target : RegionId}
    (ht : target.index < m.regions.size) (hw : (m.region target).world = (m.exit id).world) :
    (m.modifyExit id fun e => { e with connected := some target }).WellFormed := by
  have hexit := fun e => exit_modifyExit m id e fun e => { e with connected := some target }
  constructor
  case root_lt => exact h.root_lt
  case root_world => exact h.root_world
  case region_world => exact h.region_world
  case exit_listed =>
    intro r e he
    obtain ⟨hlt, hparent, hworld⟩ := h.exit_listed r e he
    refine ⟨by simpa [Multiworld.modifyExit] using hlt, ?_⟩
    rw [hexit]
    split <;> exact ⟨hparent, hworld⟩
  case connected =>
    intro e target' hc
    rw [hexit] at hc ⊢
    split at hc
    · next he =>
      cases hc
      rw [if_pos he, ← he.1]
      exact ⟨ht, hw⟩
    · next he =>
      rw [if_neg he]
      exact h.connected e target' hc
  case named => exact h.named
  case exit_times =>
    intro e
    rw [hexit]
    split <;> exact h.exit_times e
  case location_times => exact h.location_times

/-- A spot may get any rule that tests for day or night only. -/
theorem guardExit (h : m.WellFormed) (id : ExitId) {guard : Guard}
    (hg : guard.formula.eachTime TimeOfDay.isSingle = true) :
    (m.modifyExit id fun e => { e with guard }).WellFormed := by
  refine h.of_sameShape (.modifyExit m id fun _ => ⟨rfl, rfl, rfl⟩) (fun e => ?_) h.location_times
  rw [exit_modifyExit]
  split
  · exact hg
  · exact h.exit_times e

end WellFormed

/-! ### Compilations

A compilation consists of a few kinds of steps, and keeps what they keep. -/

/-- The part of a compilation that comes before the subrules. -/
def compileSpots (templates : Templates) : Build Unit := do
  connectExits
  (← get).worldIds.forM (compileWorld templates)

theorem compileRules_eq (templates : Templates) (rounds : Nat) :
    compileRules templates rounds =
      compileSpots templates >>= fun _ => finishRules templates rounds := by
  rw [compileSpots, bind_assoc]
  rfl

theorem result_compileRules (templates : Templates) (rounds : Nat) (m : Multiworld) :
    Action.result (compileRules templates rounds) m =
      match Action.result (compileSpots templates) m with
      | (.ok _, m') => Action.result (finishRules templates rounds) m'
      | (.error e, m') => (.error e, m') := by
  rw [compileRules_eq, Action.result_bind]
  generalize Action.result (compileSpots templates) m = p
  obtain ⟨_ | _, m'⟩ := p <;> rfl

/-- A property that is kept when exits are connected and rules compiled. -/
structure KeptByCompiling (P : Multiworld → Prop) : Prop where
  connectExit : ∀ id, Keeps P (fun _ => True) (connectExit id)
  compileExit : ∀ templates id, Keeps P (fun _ => True) (compileExit templates id)
  compileLocation : ∀ templates id, Keeps P (fun _ => True) (compileLocation templates id)

/-- A property that is kept when subrules get their places. -/
structure KeptBySettling (P : Multiworld → Prop) : Prop where
  takePending : ∀ w, Keeps P (fun _ => True) (takePending w)
  settle : ∀ templates w s, Keeps P (fun _ => True) (settle templates w s)

section Steps

variable {P : Multiworld → Prop} {templates : Templates}

theorem KeptByCompiling.connectExits (hP : KeptByCompiling P) :
    Keeps P (fun _ => True) connectExits :=
  .bind .get fun _ _ => .forM _ fun id _ => hP.connectExit id

theorem KeptByCompiling.compileWorld (hP : KeptByCompiling P) (w : WorldId) :
    Keeps P (fun _ => True) (compileWorld templates w) := by
  refine .bind .get fun m _ => ?_
  refine .bind (.forM _ fun id _ => hP.compileExit templates id) fun _ _ => ?_
  exact .forM _ fun id _ => hP.compileLocation templates id

theorem KeptByCompiling.compileSpots (hP : KeptByCompiling P) :
    Keeps P (fun _ => True) (compileSpots templates) := by
  refine .bind hP.connectExits fun _ _ => ?_
  refine .bind .get fun m _ => ?_
  exact .forM _ fun w _ => hP.compileWorld w

theorem KeptBySettling.settleRounds (hP : KeptBySettling P) (w : WorldId) (rounds : Nat) :
    Keeps P (fun _ => True) (settleRounds templates w rounds) := by
  induction rounds with
  | zero => exact .bind .get fun _ _ => .pure trivial
  | succ rounds ih =>
    refine .bind (hP.takePending w) fun pending _ => ?_
    split
    · exact .pure trivial
    · refine .bind (.forM _ fun s _ => hP.settle templates w s) fun _ _ => ?_
      exact ih

theorem KeptBySettling.settleWorlds (hP : KeptBySettling P) (rounds : Nat) (ws : List WorldId) :
    Keeps P (fun _ => True) (settleWorlds templates rounds ws) := by
  induction ws with
  | nil => exact .pure trivial
  | cons w ws ih =>
    refine .bind (hP.settleRounds w rounds) fun done _ => ?_
    split
    · exact ih
    · exact .pure trivial

theorem KeptBySettling.finishRules (hP : KeptBySettling P) (rounds : Nat) :
    Keeps P (fun _ => True) (finishRules templates rounds) := by
  refine .bind .get fun m _ => ?_
  exact hP.settleWorlds rounds _

/-- **A compilation keeps what its steps keep.** -/
theorem keeps_compileRules (hP : KeptByCompiling P) (hP' : KeptBySettling P) (rounds : Nat) :
    Keeps P (fun _ => True) (compileRules templates rounds) := by
  rw [compileRules_eq]
  exact .bind hP.compileSpots fun _ _ => hP'.finishRules rounds

end Steps

/-! ### Compiling -/

section Compiling

variable {templates : Templates}

theorem keeps_connectExit (id : ExitId) :
    Keeps WellFormed (fun _ => True) (connectExit id) := by
  refine .bind .get fun m hm => ?_
  dsimp only
  split
  · exact .throw _
  · next target ht =>
    obtain ⟨hlt, hworld, -⟩ := hm.named _ _ _ ht
    exact .set ((hm.connect id hlt hworld).modifyRegion target fun _ => ⟨rfl, rfl, rfl⟩)

theorem keeps_compileAt (w : WorldId) (anchor : Anchor) {action : Lexicon → Resolve Formula}
    (haction : ∀ lx, Keeps (fun _ => True) (fun f => f.eachTime TimeOfDay.isSingle = true)
      (action lx)) :
    Keeps WellFormed (fun g => g.formula.eachTime TimeOfDay.isSingle = true)
      (compileAt templates w anchor action) := by
  refine .bind .get fun m hm => ?_
  dsimp only
  -- of the worlds, only a ledger changes before the result is known
  generalize hc : Workshop.compile _ _ = p
  obtain ⟨result, workshop⟩ := p
  have hset := WellFormed.modifyWorld (hm.withCatalog workshop.registry.catalog workshop.book) w
    (f := fun x => { x with ledger := workshop.registry.ledger }) fun _ => ⟨rfl, rfl⟩
  refine .bind (.set hset) fun _ _ => .liftOk ?_
  rintro g rfl
  exact ((haction _).run _ trivial).2 _ (by rw [result_of_compile hc])

theorem keeps_resolving (lx : Lexicon) (text : String) :
    Keeps (fun _ => True) (fun f => f.eachTime TimeOfDay.isSingle = true) (resolveText lx text) :=
  keeps_resolveText ⟨fun _ _ _ => trivial, fun _ _ _ _ => trivial⟩ rfl rfl text

theorem keeps_compileExit (id : ExitId) :
    Keeps WellFormed (fun _ => True) (compileExit templates id) := by
  refine .bind .get fun m _ => ?_
  dsimp only
  refine .bind (keeps_compileAt _ _ fun lx => keeps_resolving lx _) fun guard hg => ?_
  exact .modifyGet fun m hm => ⟨hm.guardExit id hg, trivial⟩

theorem keeps_compileLocation (id : LocationId) :
    Keeps WellFormed (fun _ => True) (compileLocation templates id) := by
  refine .bind .get fun m _ => ?_
  dsimp only
  refine .bind (keeps_compileAt _ _ fun lx => keeps_resolving lx _) fun guard hg => ?_
  exact .modifyGet fun m hm => ⟨hm.modifyLocation id fun _ _ => hg, trivial⟩

theorem keeps_settle (w : WorldId) (s : Subrule) :
    Keeps WellFormed (fun _ => True) (settle templates w s) := by
  refine .bind .get fun m hm => ?_
  split
  · exact .throw _
  · refine .bind (keeps_compileAt _ _ fun lx => ?_) fun guard hg => ?_
    · exact keeps_resolve ⟨fun _ _ _ => trivial, fun _ _ _ _ => trivial⟩ rfl rfl s.body
    · split
      · exact .pure trivial
      · exact .modifyGet fun m hm => ⟨hm.pushLocation hg, trivial⟩

theorem keeps_takePending (w : WorldId) :
    Keeps WellFormed (fun _ => True) (takePending w) := by
  refine .bind .get fun m _ => ?_
  refine .bind (Q := fun _ => True) (.modifyGet fun m hm => ?_) fun _ _ => .pure trivial
  exact ⟨hm.modifyWorld w fun _ => ⟨rfl, rfl⟩, trivial⟩

theorem wellFormed_keptByCompiling : KeptByCompiling WellFormed :=
  ⟨keeps_connectExit, fun _ => keeps_compileExit, fun _ => keeps_compileLocation⟩

theorem wellFormed_keptBySettling : KeptBySettling WellFormed :=
  ⟨keeps_takePending, fun _ => keeps_settle⟩

end Compiling

/-! ### Whatever is built -/

/-- The multiworlds that building and compiling can make, starting from any catalog.
Handles are those of parts that are there; compilations may fail. -/
inductive Built : Multiworld → Prop where
  | empty (c : Catalog) : Built (.empty c)
  | addWorld {m : Multiworld} (profile : Profile) (h : Built m) : Built (m.addWorld profile).2
  | addRegion {m : Multiworld} {w : WorldId} (hw : w.index < m.worlds.size) (name : String)
    (provides : TimeOfDay) (h : Built m) : Built (m.addRegion w name provides).2
  | addExit {m : Multiworld} {parent : RegionId} (hp : parent.index < m.regions.size)
    (name target text : String) (h : Built m) : Built (m.addExit parent name target text).2
  | addLocation {m : Multiworld} {parent : RegionId} (hp : parent.index < m.regions.size)
    (name kind text : String) (h : Built m) : Built (m.addLocation parent name kind text).2
  | addEvent {m : Multiworld} {parent : RegionId} (hp : parent.index < m.regions.size)
    (name text : String) (h : Built m) : Built (m.addEvent parent name text).2
  | placeItem {m : Multiworld} (id : LocationId) (item : ItemId) (w : WorldId) (h : Built m) :
    Built (m.placeItem id item w)
  | skip {m : Multiworld} (id : LocationId) (h : Built m) : Built (m.skip id)
  | declareItem {m : Multiworld} (d : ItemDef) (h : Built m) : Built (m.declareItem d).2
  | compileRules {m : Multiworld} (templates : Templates) (rounds : Nat) (h : Built m) :
    Built (Action.result (Progression.compileRules templates rounds) m).2
  | finishRules {m : Multiworld} (templates : Templates) (rounds : Nat) (h : Built m) :
    Built (Action.result (Progression.finishRules templates rounds) m).2

/-- **Whatever is built and compiled is well formed.** -/
theorem Built.wellFormed {m : Multiworld} (h : Built m) : m.WellFormed := by
  induction h with
  | empty c => exact .empty c
  | addWorld profile _ ih => exact ih.addWorld profile
  | addRegion hw name provides _ ih => exact ih.addRegion hw name provides
  | addExit hp name target text _ ih => exact ih.addExit hp name target text
  | addLocation _ name kind text _ ih => exact ih.addLocation _ name kind text
  | addEvent _ name text _ ih => exact ih.addEvent _ name text
  | placeItem id item w _ ih => exact ih.modifyLocation id fun _ hl => hl
  | skip id _ ih => exact ih.modifyWorld _ fun _ => ⟨rfl, rfl⟩
  | declareItem d _ ih => exact ih.withCatalog _ _
  | compileRules templates rounds _ ih =>
    exact ((keeps_compileRules wellFormed_keptByCompiling wellFormed_keptBySettling
      rounds).run _ ih).1
  | finishRules templates rounds _ ih =>
    exact ((wellFormed_keptBySettling.finishRules rounds).run _ ih).1

end Multiworld

end Progression
