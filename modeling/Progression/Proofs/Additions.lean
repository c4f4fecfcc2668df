import Progression.Proofs.Places

/-!
# Building upon worlds

Worlds are built before their rules are compiled, and items are placed and further parts are
added after that.  None of this registers a subrule, and the internal locations stay as they
are, but for the items that are placed there: they keep their rules, and their worlds go on
listing them.

## Main definitions

* `Multiworld.BuiltOn` — what building makes of worlds without compiling anything.
* `Multiworld.Undisturbed` — a change that leaves the internal locations and their rules alone.

## Main results

* `Multiworld.BuiltOn.sameSubrules` — building registers no subrule.
* `Multiworld.BuiltOn.undisturbed` — building leaves the internal locations alone.
-/

namespace Progression

open Rule

namespace Multiworld

/-- What building makes of worlds without compiling anything. -/
inductive BuiltOn (m : Multiworld) : Multiworld → Prop where
  | refl : BuiltOn m m
  | addWorld {m' : Multiworld} (profile : Profile) (h : BuiltOn m m') :
    BuiltOn m (m'.addWorld profile).2
  | addRegion {m' : Multiworld} {w : WorldId} (hw : w.index < m'.worlds.size) (name : String)
    (provides : TimeOfDay) (h : BuiltOn m m') : BuiltOn m (m'.addRegion w name provides).2
  | addExit {m' : Multiworld} {parent : RegionId} (hp : parent.index < m'.regions.size)
    (name target text : String) (h : BuiltOn m m') :
    BuiltOn m (m'.addExit parent name target text).2
  | addLocation {m' : Multiworld} {parent : RegionId} (hp : parent.index < m'.regions.size)
    (name kind text : String) (h : BuiltOn m m') :
    BuiltOn m (m'.addLocation parent name kind text).2
  | addEvent {m' : Multiworld} {parent : RegionId} (hp : parent.index < m'.regions.size)
    (name text : String) (h : BuiltOn m m') : BuiltOn m (m'.addEvent parent name text).2
  | placeItem {m' : Multiworld} (id : LocationId) (item : ItemId) (w : WorldId)
    (h : BuiltOn m m') : BuiltOn m (m'.placeItem id item w)
  | skip {m' : Multiworld} (id : LocationId) (h : BuiltOn m m') : BuiltOn m (m'.skip id)
  | declareItem {m' : Multiworld} (d : ItemDef) (h : BuiltOn m m') :
    BuiltOn m (m'.declareItem d).2

variable {m m' m'' : Multiworld}

theorem BuiltOn.built (h : BuiltOn m m') (hm : m.Built) : m'.Built := by
  induction h with
  | refl => exact hm
  | addWorld profile _ ih => exact ih.addWorld profile
  | addRegion hw name provides _ ih => exact ih.addRegion hw name provides
  | addExit hp name target text _ ih => exact ih.addExit hp name target text
  | addLocation hp name kind text _ ih => exact ih.addLocation hp name kind text
  | addEvent hp name text _ ih => exact ih.addEvent hp name text
  | placeItem id item w _ ih => exact ih.placeItem id item w
  | skip id _ ih => exact ih.skip id
  | declareItem d _ ih => exact ih.declareItem d

/-- The worlds are built that a compilation leaves, whether it succeeds or not. -/
theorem BuiltOn.built_of_compileRules {templates : Templates} {rounds : Nat} {c : Catalog}
    {r : Except RuleError Bool} (h : BuiltOn (.empty c) m)
    (hresult : Action.result (compileRules templates rounds) m = (r, m')) : m'.Built := by
  have hcompiled := (h.built (.empty c)).compileRules templates rounds
  rwa [hresult] at hcompiled

/-- Building registers no subrule. -/
theorem BuiltOn.sameSubrules (h : BuiltOn m m') : SameSubrules m m' := by
  induction h with
  | refl => exact .refl m
  | addWorld profile _ ih => exact ih.trans (.addWorld _ profile)
  | addRegion _ name provides _ ih => exact ih.trans (.addRegion _ _ name provides)
  | addExit _ name target text _ ih => exact ih.trans (.of_worlds rfl (.refl _))
  | addLocation _ name kind text _ ih => exact ih.trans (.pushLocation _ _)
  | addEvent _ name text _ ih => exact ih.trans (.addEvent _ _ name text)
  | placeItem id item w _ ih => exact ih.trans (.of_worlds rfl (.refl _))
  | skip id _ ih => exact ih.trans (.modifyWorld _ _ fun _ => ⟨rfl, rfl⟩)
  | declareItem d _ ih => exact ih.trans (.of_worlds rfl (Catalog.extends_declare _ d))

/-! ### What worlds list -/

/-- Only worlds that are in use list locations. -/
theorem index_lt_of_listed {w : WorldId} {id : LocationId} (h : id ∈ (m.world w).locations) :
    w.index < m.worlds.size := by
  apply Nat.lt_of_not_le
  intro hle
  rw [world, Array.getD_eq_getD_getElem?, Array.getElem?_eq_none hle] at h
  cases h

/-- A location that is not the default one is in use. -/
theorem index_lt_of_ne_default {id : LocationId} (h : m.location id ≠ default) :
    id.index < m.locations.size := by
  apply Nat.lt_of_not_le
  intro hle
  apply h
  rw [location, Array.getD_eq_getD_getElem?, Array.getElem?_eq_none hle]
  rfl

/-- A location that holds an item is in use. -/
theorem index_lt_of_item {id : LocationId} {item : PlacedItem}
    (h : (m.location id).item = some item) : id.index < m.locations.size := by
  refine index_lt_of_ne_default fun hdefault => ?_
  rw [hdefault] at h
  cases h

theorem worlds_pushLocation (m : Multiworld) (l : Location) :
    (m.pushLocation l).2.worlds.size = m.worlds.size :=
  Array.size_modify

theorem world_pushLocation (m : Multiworld) (l : Location) (w : WorldId) :
    (m.pushLocation l).2.world w =
      if l.world = w ∧ w.index < m.worlds.size then
        { m.world w with
          locationNames := (m.world w).locationNames.insert l.name ⟨m.locations.size⟩
          locations := (m.world w).locations ++ [⟨m.locations.size⟩] }
      else m.world w :=
  world_modifyWorld _ _ _ _

theorem listed_pushLocation {w : WorldId} {id : LocationId} (l : Location)
    (h : id ∈ (m.world w).locations) : id ∈ ((m.pushLocation l).2.world w).locations := by
  rw [world_pushLocation]
  split
  · exact List.mem_append_left _ h
  · exact h

/-- The world of a new location lists it. -/
theorem listed_pushLocation_self {l : Location} (h : l.world.index < m.worlds.size) :
    (⟨m.locations.size⟩ : LocationId) ∈ ((m.pushLocation l).2.world l.world).locations := by
  rw [world_pushLocation, if_pos ⟨rfl, h⟩]
  exact List.mem_append_right _ List.mem_cons_self

/-! ### What stays -/

/-- The internal locations are the same spots with the same rules, regions are found under the
names they have, and worlds go on listing their locations. -/
structure Undisturbed (m m' : Multiworld) : Prop where
  region : ∀ w name r, m.regionNamed? w name = some r → m'.regionNamed? w name = some r
  internal : ∀ id, (m'.location id).internal = (m.location id).internal
  spot : ∀ id, (m.location id).internal = true → SameSpot (m.location id) (m'.location id)
  guard : ∀ id, (m.location id).internal = true → (m'.location id).guard = (m.location id).guard
  worlds : m.worlds.size ≤ m'.worlds.size
  listed : ∀ w id, id ∈ (m.world w).locations → id ∈ (m'.world w).locations

namespace Undisturbed

theorem refl (m : Multiworld) : Undisturbed m m :=
  ⟨fun _ _ _ h => h, fun _ => rfl, fun _ _ => ⟨rfl, rfl, rfl⟩, fun _ _ => rfl, Nat.le_refl _,
    fun _ _ h => h⟩

theorem trans (h : Undisturbed m m') (h' : Undisturbed m' m'') : Undisturbed m m'' where
  region w name r hr := h'.region w name r (h.region w name r hr)
  internal id := (h'.internal id).trans (h.internal id)
  spot id hid := by
    have hfirst := h.spot id hid
    have hsecond := h'.spot id ((h.internal id).trans hid)
    exact ⟨hsecond.name.trans hfirst.name, hsecond.world.trans hfirst.world,
      hsecond.parent.trans hfirst.parent⟩
  guard id hid := (h'.guard id ((h.internal id).trans hid)).trans (h.guard id hid)
  worlds := Nat.le_trans h.worlds h'.worlds
  listed w id hid := h'.listed w id (h.listed w id hid)

/-- Places stay places. -/
theorem isPlaceOf (h : Undisturbed m m') {t : Task} {id : LocationId} (ht : m.IsPlaceOf t id) :
    m'.IsPlaceOf t id := by
  have hspot := h.spot id ht.internal
  constructor
  case internal => exact (h.internal id).trans ht.internal
  case world => exact hspot.world.trans ht.world
  case name => exact hspot.name.trans ht.name
  case region =>
    rw [hspot.parent]
    exact h.region _ _ _ ht.region

/-- What leaves the places alone may still change their rules, and what worlds list. -/
theorem of_samePlaces {replaced : List LocationId} (h : SamePlaces replaced m m')
    (hguard : ∀ id, (m.location id).internal = true →
      (m'.location id).guard = (m.location id).guard)
    (hworlds : m.worlds.size ≤ m'.worlds.size)
    (hlisted : ∀ w id, id ∈ (m.world w).locations → id ∈ (m'.world w).locations) :
    Undisturbed m m' :=
  ⟨h.region, h.internal, h.spot, hguard, hworlds, hlisted⟩

/-- The same locations, and worlds that list the same ones. -/
theorem of_parts (h : SamePlaces [] m m') (hl : m'.locations = m.locations)
    (hw : m'.worlds = m.worlds) : Undisturbed m m' := by
  refine of_samePlaces h (fun id _ => ?_) (Nat.le_of_eq (by rw [hw])) fun w id hid => ?_
  · rw [location, hl, location]
  · rwa [world, hw]

theorem modifyWorld (m : Multiworld) (w : WorldId) {f : World → World}
    (hf : ∀ x, (f x).regionNames = x.regionNames ∧ (f x).locations = x.locations) :
    Undisturbed m (m.modifyWorld w f) := by
  have hsame : SamePlaces [] m (m.modifyWorld w f) := .modifyWorld m w fun x => (hf x).1
  refine of_samePlaces hsame (fun _ _ => rfl) ?_ fun v id hid => ?_
  · exact Nat.le_of_eq Array.size_modify.symm
  · rw [world_modifyWorld]
    split
    · rwa [(hf _).2]
    · exact hid

theorem addWorld (m : Multiworld) (profile : Profile) :
    Undisturbed m (m.addWorld profile).2 := by
  have hsame : SamePlaces [] m (m.addWorld profile).2 := .addWorld m profile
  refine of_samePlaces hsame (fun _ _ => rfl) ?_ fun w id hid => ?_
  · simp [Multiworld.addWorld, Multiworld.pushRegion]
  · have hworld : (m.addWorld profile).2.world w = m.world w := by
      have hlt := index_lt_of_listed hid
      refine (getD_push m.worlds _ default w.index).trans (if_neg ?_)
      omega
    rwa [hworld]

theorem addRegion (m : Multiworld) (w : WorldId) (name : String) (provides : TimeOfDay) :
    Undisturbed m (m.addRegion w name provides).2 := by
  have hsame : SamePlaces [] m (m.addRegion w name provides).2 := .addRegion m w name provides
  unfold Multiworld.addRegion at hsame ⊢
  split at hsame
  · exact of_parts hsame rfl rfl
  · refine of_samePlaces hsame (fun _ _ => rfl) ?_ fun v id hid => ?_
    · exact Nat.le_of_eq Array.size_modify.symm
    · -- a name is no location
      have hworld := world_modifyWorld (m.pushRegion w name provides).2 w v
        fun x => { x with regionNames := x.regionNames.insert name ⟨m.regions.size⟩ }
      have hlocations := congrArg World.locations hworld
      rw [apply_ite World.locations, ite_self] at hlocations
      exact hlocations ▸ hid

theorem pushLocation (m : Multiworld) {l : Location} (hl : l.internal = false) :
    Undisturbed m (m.pushLocation l).2 := by
  have hsame : SamePlaces [] m (m.pushLocation l).2 := .pushLocation m hl
  refine of_samePlaces hsame (fun id hid => ?_) ?_ fun w id hid => ?_
  · rw [location_pushLocation, if_neg (index_ne_size_of_internal hid)]
  · exact Nat.le_of_eq (worlds_pushLocation m l).symm
  · exact listed_pushLocation l hid

theorem modifyLocation (m : Multiworld) (id : LocationId) {f : Location → Location}
    (hspot : ∀ l, SameSpot l (f l))
    (hf : ∀ l, (f l).internal = l.internal ∧ (f l).guard = l.guard) :
    Undisturbed m (m.modifyLocation id f) := by
  have hlocation := fun l => location_modifyLocation m id l f
  refine ⟨fun _ _ _ h => h, fun l => ?_, fun l _ => ?_, fun l _ => ?_, Nat.le_refl _,
    fun _ _ h => h⟩
  · rw [hlocation]
    split
    · exact (hf _).1
    · rfl
  · rw [hlocation]
    split
    · exact hspot _
    · exact ⟨rfl, rfl, rfl⟩
  · rw [hlocation]
    split
    · exact (hf _).2
    · rfl

theorem addEvent (m : Multiworld) (parent : RegionId) (name text : String) :
    Undisturbed m (m.addEvent parent name text).2 := by
  have hcatalog : Undisturbed m { m with catalog := (m.catalog.declareEvent name).2 } :=
    of_parts (.of_worlds rfl rfl) rfl rfl
  let l : Location := ⟨name, eventKind, (m.region parent).world, parent, .always, text, none,
    false, false, false, false⟩
  have hlocation := hcatalog.trans (pushLocation _ (l := l) rfl)
  change Undisturbed m ((Multiworld.modifyLocation _ _ _).modifyWorld _ _)
  refine hlocation.trans ((modifyLocation _ _ ?_ ?_).trans (modifyWorld _ _ fun _ => ⟨rfl, rfl⟩))
  · exact fun _ => ⟨rfl, rfl, rfl⟩
  · exact fun _ => ⟨rfl, rfl⟩

end Undisturbed

/-- Building leaves the internal locations alone. -/
theorem BuiltOn.undisturbed (h : BuiltOn m m') : Undisturbed m m' := by
  induction h with
  | refl => exact .refl m
  | addWorld profile _ ih => exact ih.trans (.addWorld _ profile)
  | addRegion _ name provides _ ih => exact ih.trans (.addRegion _ _ name provides)
  | addExit _ name target text _ ih =>
    exact ih.trans (.of_parts (.addExit _ _ name target text) rfl rfl)
  | addLocation _ name kind text _ ih => exact ih.trans (.pushLocation _ rfl)
  | addEvent _ name text _ ih => exact ih.trans (.addEvent _ _ name text)
  | placeItem id item w _ ih =>
    exact ih.trans (.modifyLocation _ id (fun _ => ⟨rfl, rfl, rfl⟩) fun _ => ⟨rfl, rfl⟩)
  | skip id _ ih => exact ih.trans (.modifyWorld _ _ fun _ => ⟨rfl, rfl⟩)
  | declareItem d _ ih => exact ih.trans (.of_parts (.of_worlds rfl rfl) rfl rfl)

end Multiworld

end Progression
