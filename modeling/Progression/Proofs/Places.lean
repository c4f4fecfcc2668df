import Progression.Proofs.Ledgers

/-!
# The places of subrules

A subrule gets an internal location in its region that holds its event.  Internal locations
are made for subrules only, and nothing that is built or compiled later moves them.  Their
items stay as well, unless another one is put in by hand.

## Main definitions

* `Task` — a subrule of a world.
* `Multiworld.IsPlaceOf` — a location is the place of a subrule.
* `Multiworld.HasPlace` — a subrule has one, and its event is there.
* `Multiworld.SamePlaces` — a change that leaves the internal locations as they are.

## Main results

* `Multiworld.samePlaces_compileLocation` and its like — compiling rules does so.
* `Multiworld.settle_cases` — what giving a place to a subrule can come to.
-/

namespace Progression

open Rule

/-- A subrule of a world, which is to get a place there. -/
structure Task where
  world : WorldId
  subrule : Subrule
  deriving DecidableEq

namespace Multiworld

variable {m m' m'' : Multiworld} {replaced : List LocationId}

/-- A location is the internal one that bears the name of a subrule in its region. -/
structure IsPlaceOf (m : Multiworld) (t : Task) (id : LocationId) : Prop where
  internal : (m.location id).internal = true
  world : (m.location id).world = t.world
  name : (m.location id).name = t.subrule.event
  region : m.regionNamed? t.world t.subrule.region = some (m.location id).parent

/-- A subrule has a place, which holds the item of its event unless the item of that
location was replaced. -/
def HasPlace (replaced : List LocationId) (m : Multiworld) (t : Task) : Prop :=
  ∃ id, m.IsPlaceOf t id ∧
    (id ∉ replaced → (m.location id).item = some ⟨t.subrule.item, t.world⟩)

/-! ### Changes that leave places alone -/

/-- Two locations are the same spot. -/
structure SameSpot (l l' : Location) : Prop where
  name : l'.name = l.name
  world : l'.world = l.world
  parent : l'.parent = l.parent

/-- The internal locations are the same, but for the items of those that were replaced, and
regions are found under the names they have. -/
structure SamePlaces (replaced : List LocationId) (m m' : Multiworld) : Prop where
  region : ∀ w name r, m.regionNamed? w name = some r → m'.regionNamed? w name = some r
  internal : ∀ id, (m'.location id).internal = (m.location id).internal
  spot : ∀ id, (m.location id).internal = true → SameSpot (m.location id) (m'.location id)
  item : ∀ id, (m.location id).internal = true → id ∉ replaced →
    (m'.location id).item = (m.location id).item

namespace SamePlaces

theorem refl (m : Multiworld) : SamePlaces replaced m m :=
  ⟨fun _ _ _ h => h, fun _ => rfl, fun _ _ => ⟨rfl, rfl, rfl⟩, fun _ _ _ => rfl⟩

theorem trans (h : SamePlaces replaced m m') (h' : SamePlaces replaced m' m'') :
    SamePlaces replaced m m'' where
  region w name r hr := h'.region w name r (h.region w name r hr)
  internal id := (h'.internal id).trans (h.internal id)
  spot id hid := by
    have hfirst := h.spot id hid
    have hsecond := h'.spot id ((h.internal id).trans hid)
    exact ⟨hsecond.name.trans hfirst.name, hsecond.world.trans hfirst.world,
      hsecond.parent.trans hfirst.parent⟩
  item id hid hr := (h'.item id ((h.internal id).trans hid) hr).trans (h.item id hid hr)

theorem isPlaceOf (h : SamePlaces replaced m m') {t : Task} {id : LocationId}
    (ht : m.IsPlaceOf t id) : m'.IsPlaceOf t id := by
  have hspot := h.spot id ht.internal
  constructor
  case internal => exact (h.internal id).trans ht.internal
  case world => exact hspot.world.trans ht.world
  case name => exact hspot.name.trans ht.name
  case region =>
    rw [hspot.parent]
    exact h.region _ _ _ ht.region

theorem hasPlace (h : SamePlaces replaced m m') {t : Task} (ht : m.HasPlace replaced t) :
    m'.HasPlace replaced t := by
  obtain ⟨id, hplace, hitem⟩ := ht
  refine ⟨id, h.isPlaceOf hplace, fun hid => ?_⟩
  rw [h.item id hplace.internal hid, hitem hid]

/-- Only locations and the names of regions matter. -/
theorem of_parts
    (hr : ∀ w name r, m.regionNamed? w name = some r → m'.regionNamed? w name = some r)
    (hl : m'.locations = m.locations) : SamePlaces replaced m m' := by
  have hlocation : ∀ id, m'.location id = m.location id := fun id => by
    rw [location, hl, location]
  refine ⟨hr, fun id => by rw [hlocation], fun id _ => ?_, fun id _ _ => by rw [hlocation]⟩
  rw [hlocation]
  exact ⟨rfl, rfl, rfl⟩

theorem of_worlds (hw : m'.worlds = m.worlds) (hl : m'.locations = m.locations) :
    SamePlaces replaced m m' :=
  of_parts (fun w _ _ h => by rwa [regionNamed?, world, hw]) hl

theorem modifyWorld (m : Multiworld) (id : WorldId) {f : World → World}
    (hf : ∀ x, (f x).regionNames = x.regionNames) : SamePlaces replaced m (m.modifyWorld id f) :=
  of_parts (fun w name _ h => (regionNamed_modifyWorld m id w name hf).trans h) rfl

theorem addWorld (m : Multiworld) (profile : Profile) :
    SamePlaces replaced m (m.addWorld profile).2 := by
  refine of_parts (fun w name r h => ?_) rfl
  rw [regionNamed_addWorld, if_neg, h]
  intro hw
  rw [regionNamed_of_size_le m (Nat.le_of_eq hw.symm)] at h
  cases h

/-- A new region gets a name that leads nowhere before. -/
theorem addRegion (m : Multiworld) (w : WorldId) (name : String) (provides : TimeOfDay) :
    SamePlaces replaced m (m.addRegion w name provides).2 := by
  unfold Multiworld.addRegion
  split
  · exact of_worlds rfl rfl
  · next hnone =>
    have hpush : SamePlaces replaced m (m.pushRegion w name provides).2 := of_worlds rfl rfl
    refine hpush.trans (of_parts (fun v other r h => ?_) rfl)
    rw [regionNamed_nameRegion, if_neg, h]
    rintro ⟨rfl, -, rfl⟩
    cases hnone.symm.trans h

theorem addExit (m : Multiworld) (parent : RegionId) (name target text : String) :
    SamePlaces replaced m (m.addExit parent name target text).2 :=
  of_worlds rfl rfl

/-- A location may change in what does not make it a place.  If it is internal, its item is
replaced or stays. -/
theorem modifyLocation (m : Multiworld) (id : LocationId) {f : Location → Location}
    (hf : (f (m.location id)).internal = (m.location id).internal)
    (hspot : (m.location id).internal = true → SameSpot (m.location id) (f (m.location id)))
    (hitem : (m.location id).internal = true → id ∉ replaced →
      (f (m.location id)).item = (m.location id).item) :
    SamePlaces replaced m (m.modifyLocation id f) := by
  refine ⟨fun _ _ _ h => h, fun l => ?_, fun l hl => ?_, fun l hl hr => ?_⟩
  · rw [location_modifyLocation]
    split
    · next h => rw [← h.1, hf]
    · rfl
  · rw [location_modifyLocation]
    split
    · next h =>
      rw [← h.1] at hl ⊢
      exact hspot hl
    · exact ⟨rfl, rfl, rfl⟩
  · rw [location_modifyLocation]
    split
    · next h =>
      rw [← h.1] at hl hr ⊢
      exact hitem hl hr
    · rfl

theorem placeItem (m : Multiworld) {id : LocationId} (hid : id ∈ replaced) (item : ItemId)
    (w : WorldId) : SamePlaces replaced m (m.placeItem id item w) :=
  modifyLocation m id rfl (fun _ => ⟨rfl, rfl, rfl⟩) fun _ hr => absurd hid hr

end SamePlaces

/-- More items may count as replaced. -/
theorem HasPlace.mono {replaced' : List LocationId} (hr : replaced ⊆ replaced') {t : Task}
    (h : m.HasPlace replaced t) : m.HasPlace replaced' t := by
  obtain ⟨id, hplace, hitem⟩ := h
  exact ⟨id, hplace, fun hid => hitem fun hmem => hid (hr hmem)⟩

/-! ### New locations -/

theorem location_pushLocation (m : Multiworld) (l : Location) (id : LocationId) :
    (m.pushLocation l).2.location id = if id.index = m.locations.size then l else m.location id :=
  getD_push m.locations l default id.index

/-- A number that is not in use is that of no internal location. -/
theorem internal_eq_false_of_size {id : LocationId} (h : id.index = m.locations.size) :
    (m.location id).internal = false := by
  rw [location, Array.getD_eq_getD_getElem?, Array.getElem?_eq_none (Nat.le_of_eq h.symm)]
  rfl

theorem index_ne_size_of_internal {id : LocationId} (h : (m.location id).internal = true) :
    id.index ≠ m.locations.size := by
  intro hid
  rw [internal_eq_false_of_size hid] at h
  cases h

/-- The places before a location is made are places after it. -/
theorem IsPlaceOf.pushLocation {t : Task} {id : LocationId} (h : m.IsPlaceOf t id)
    (l : Location) : (m.pushLocation l).2.IsPlaceOf t id := by
  have hlocation := location_pushLocation m l id
  rw [if_neg (index_ne_size_of_internal h.internal)] at hlocation
  constructor
  case internal => rw [hlocation, h.internal]
  case world => rw [hlocation, h.world]
  case name => rw [hlocation, h.name]
  case region => rw [hlocation, regionNamed_pushLocation, h.region]

theorem HasPlace.pushLocation {t : Task} (h : m.HasPlace replaced t) (l : Location) :
    (m.pushLocation l).2.HasPlace replaced t := by
  obtain ⟨id, hplace, hitem⟩ := h
  refine ⟨id, hplace.pushLocation l, fun hid => ?_⟩
  rw [location_pushLocation, if_neg (index_ne_size_of_internal hplace.internal)]
  exact hitem hid

/-- A new location that is not internal is the place of no subrule. -/
theorem SamePlaces.pushLocation (m : Multiworld) {l : Location} (hl : l.internal = false) :
    SamePlaces replaced m (m.pushLocation l).2 where
  region w name _ h := (regionNamed_pushLocation m l w name).trans h
  internal id := by
    rw [location_pushLocation]
    split
    · next h => rw [hl, internal_eq_false_of_size h]
    · rfl
  spot id hid := by
    rw [location_pushLocation, if_neg (index_ne_size_of_internal hid)]
    exact ⟨rfl, rfl, rfl⟩
  item id hid _ := by rw [location_pushLocation, if_neg (index_ne_size_of_internal hid)]

/-- A subrule has the location that is made for it. -/
theorem isPlaceOf_eventLocation {w : WorldId} {s : Subrule} {parent : RegionId} {guard : Guard}
    (h : m.regionNamed? w s.region = some parent) :
    (m.pushLocation (eventLocation w s parent guard)).2.IsPlaceOf ⟨w, s⟩
      ⟨m.locations.size⟩ := by
  have hlocation := location_pushLocation m (eventLocation w s parent guard) ⟨m.locations.size⟩
  rw [if_pos rfl] at hlocation
  constructor
  case internal => rw [hlocation]; rfl
  case world => rw [hlocation]; rfl
  case name => rw [hlocation]; rfl
  case region =>
    rw [hlocation, regionNamed_pushLocation]
    exact h

theorem hasPlace_eventLocation {w : WorldId} {s : Subrule} {parent : RegionId} {guard : Guard}
    (h : m.regionNamed? w s.region = some parent) :
    (m.pushLocation (eventLocation w s parent guard)).2.HasPlace replaced ⟨w, s⟩ := by
  refine ⟨_, isPlaceOf_eventLocation h, fun _ => ?_⟩
  rw [location_pushLocation, if_pos rfl]
  rfl

/-- The item of an event is put at the new location only. -/
theorem SamePlaces.addEvent (m : Multiworld) (parent : RegionId) (name text : String) :
    SamePlaces replaced m (m.addEvent parent name text).2 := by
  have hcatalog : SamePlaces replaced m { m with catalog := (m.catalog.declareEvent name).2 } :=
    of_worlds rfl rfl
  let l : Location := ⟨name, eventKind, (m.region parent).world, parent, .always, text, none,
    false, false, false, false⟩
  have hlocation := hcatalog.trans (pushLocation _ (l := l) rfl)
  generalize hm₁ : (Multiworld.pushLocation _ _).2 = m₁ at hlocation
  have hnew : (m₁.location ⟨m.locations.size⟩).internal = false := by
    rw [← hm₁, location_pushLocation, if_pos rfl]
  have hitem : SamePlaces replaced m₁ (m₁.modifyLocation ⟨m.locations.size⟩ fun l =>
      { l with
        item := some ⟨(m.catalog.declareEvent name).1, (m.region parent).world⟩
        locked := true }) := by
    refine modifyLocation m₁ _ rfl (fun h => ?_) fun h => ?_
    · rw [hnew] at h
      cases h
    · rw [hnew] at h
      cases h
  rw [← hm₁] at hlocation hitem
  exact (hlocation.trans hitem).trans (modifyWorld _ _ fun _ => rfl)

/-! ### Compiling -/

section Compiling

variable {templates : Templates}

theorem samePlaces_compileAt (templates : Templates) (w : WorldId) (anchor : Anchor)
    (action : Lexicon → Resolve Formula) (m : Multiworld) :
    SamePlaces replaced m (Action.result (compileAt templates w anchor action) m).2 := by
  rw [result_compileAt]
  dsimp only
  generalize Workshop.compile _ _ = p
  have hcatalog : SamePlaces replaced m
      { m with catalog := p.2.registry.catalog, book := p.2.book } := .of_worlds rfl rfl
  exact hcatalog.trans (.modifyWorld _ w fun _ => rfl)

theorem samePlaces_keeps_compileAt (w : WorldId) (anchor : Anchor)
    (action : Lexicon → Resolve Formula) (m : Multiworld) :
    Keeps (SamePlaces replaced m) (fun _ => True) (compileAt templates w anchor action) :=
  ⟨fun m' h => ⟨h.trans (samePlaces_compileAt templates w anchor action m'), fun _ _ => trivial⟩⟩

theorem samePlaces_connectExit (m : Multiworld) (id : ExitId) :
    SamePlaces replaced m (Action.result (connectExit id) m).2 := by
  have hkeeps : Keeps (SamePlaces replaced m) (fun _ => True) (connectExit id) := by
    refine .bind .get fun m' h => ?_
    dsimp only
    split
    · exact .throw _
    · next target _ =>
      have hexit : SamePlaces replaced m
          (m'.modifyExit id fun e => { e with connected := some target }) :=
        h.trans (.of_worlds rfl rfl)
      exact .set (hexit.trans (.of_worlds rfl rfl))
  exact (hkeeps.run m (.refl m)).1

theorem samePlaces_compileExit (m : Multiworld) (id : ExitId) :
    SamePlaces replaced m (Action.result (compileExit templates id) m).2 := by
  have hkeeps : Keeps (SamePlaces replaced m) (fun _ => True) (compileExit templates id) := by
    refine .bind .get fun m' h => ?_
    dsimp only
    refine .bind (samePlaces_keeps_compileAt _ _ _ m) fun guard _ => ?_
    exact .modifyGet fun m' h => ⟨h.trans (.of_worlds rfl rfl), trivial⟩
  exact (hkeeps.run m (.refl m)).1

theorem samePlaces_compileLocation (m : Multiworld) (id : LocationId) :
    SamePlaces replaced m (Action.result (compileLocation templates id) m).2 := by
  have hkeeps : Keeps (SamePlaces replaced m) (fun _ => True) (compileLocation templates id) := by
    refine .bind .get fun m' h => ?_
    dsimp only
    refine .bind (samePlaces_keeps_compileAt _ _ _ m) fun guard _ => ?_
    refine .modifyGet fun m' h => ⟨h.trans ?_, trivial⟩
    exact .modifyLocation m' id rfl (fun _ => ⟨rfl, rfl, rfl⟩) fun _ _ => rfl
  exact (hkeeps.run m (.refl m)).1

/-- What compiling the rule of a subrule comes to. -/
def subruleResult (templates : Templates) (t : Task) (m : Multiworld) :
    Except RuleError Guard × Multiworld :=
  Action.result (compileAt templates t.world
    ⟨t.subrule.event, t.subrule.region, some eventKind⟩ (resolve · t.subrule.body)) m

/-- Giving a place to a subrule fails, or finds that its rule never holds, or makes its
location. -/
theorem settle_cases (templates : Templates) (replaced : List LocationId) (t : Task)
    (m : Multiworld) :
    (∃ e m', Action.result (settle templates t.world t.subrule) m = (.error e, m') ∧
        SamePlaces replaced m m') ∨
      ∃ guard m₁ parent, subruleResult templates t m = (.ok guard, m₁) ∧
        SamePlaces replaced m m₁ ∧
        m₁.regionNamed? t.world t.subrule.region = some parent ∧
        Action.result (settle templates t.world t.subrule) m =
          (.ok ⟨⟩, if guard.isNever then m₁
            else (m₁.pushLocation (eventLocation t.world t.subrule parent guard)).2) := by
  cases hregion : m.regionNamed? t.world t.subrule.region with
  | none => exact .inl ⟨_, m, result_settle_of_none templates hregion, .refl m⟩
  | some parent =>
    have hsettle := result_settle_of_some templates hregion
    have hsame : SamePlaces replaced m (subruleResult templates t m).2 :=
      samePlaces_compileAt templates _ _ _ m
    rw [← subruleResult] at hsettle
    cases hcompile : subruleResult templates t m with
    | mk r m₁ =>
      rw [hcompile] at hsettle hsame
      cases r with
      | error e => exact .inl ⟨e, m₁, hsettle, hsame⟩
      | ok guard => exact .inr ⟨guard, m₁, parent, rfl, hsame, hsame.region _ _ _ hregion, hsettle⟩

end Compiling

end Multiworld

end Progression
