import Progression.Proofs.Interlinking

/-!
# Worlds that are built are interlinked

Worlds are made by calls on parts that are in use.  A call either makes one new part, or changes
something that no reference goes through, or it compiles rules.  A compilation connects the
exits one after the other and makes internal locations one after the other.  The references
agree after each of these, so they agree wherever an error ends the compilation, and it may be
repeated from there.

## Main definitions

* `BuildStep` — a call that builds or compiles.
* `BuildStep.Valid` — the parts that it is about are in use.
* `Multiworld.build` — what a sequence of calls makes.
* `Multiworld.Accepts` — each call of a sequence is valid when its turn comes.
* `Multiworld.CrossReferenced` — the references agree, and names lead to their bearers.

## Main results

* `Multiworld.Interlinked.apply` — a valid call keeps the worlds interlinked.
* `Multiworld.crossReferenced_build` — **whatever valid calls make is cross-referenced.**
-/

namespace Progression

open Rule

/-! ### Calls -/

/-- A call that builds worlds or compiles their rules. -/
inductive BuildStep where
  | addWorld (profile : Profile)
  | addRegion (w : WorldId) (name : String) (provides : TimeOfDay)
  | addExit (parent : RegionId) (name target text : String)
  | addLocation (parent : RegionId) (name kind text : String)
  | addEvent (parent : RegionId) (name text : String)
  | placeItem (id : LocationId) (item : ItemId) (w : WorldId)
  | skip (id : LocationId)
  | declareItem (d : ItemDef)
  | compileRules (templates : Templates) (rounds : Nat)
  | finishRules (templates : Templates) (rounds : Nat)

namespace BuildStep

/-- The parts that a call is about are in use. -/
def Valid (m : Multiworld) : BuildStep → Prop
  | .addWorld _ => True
  | .addRegion w _ _ => w.index < m.worlds.size
  | .addExit parent _ _ _ => parent.index < m.regions.size
  | .addLocation parent _ _ _ => parent.index < m.regions.size
  | .addEvent parent _ _ => parent.index < m.regions.size
  | .placeItem id _ _ => id.index < m.locations.size
  | .skip id => id.index < m.locations.size
  | .declareItem _ => True
  | .compileRules _ _ => True
  | .finishRules _ _ => True

instance decidableValid (m : Multiworld) : (s : BuildStep) → Decidable (s.Valid m)
  | .addWorld _ => inferInstanceAs (Decidable True)
  | .addRegion w _ _ => inferInstanceAs (Decidable (w.index < m.worlds.size))
  | .addExit parent _ _ _ => inferInstanceAs (Decidable (parent.index < m.regions.size))
  | .addLocation parent _ _ _ => inferInstanceAs (Decidable (parent.index < m.regions.size))
  | .addEvent parent _ _ => inferInstanceAs (Decidable (parent.index < m.regions.size))
  | .placeItem id _ _ => inferInstanceAs (Decidable (id.index < m.locations.size))
  | .skip id => inferInstanceAs (Decidable (id.index < m.locations.size))
  | .declareItem _ => inferInstanceAs (Decidable True)
  | .compileRules _ _ => inferInstanceAs (Decidable True)
  | .finishRules _ _ => inferInstanceAs (Decidable True)

/-- What a call makes of the worlds; a compilation may fail. -/
def apply (m : Multiworld) : BuildStep → Multiworld
  | .addWorld profile => (m.addWorld profile).2
  | .addRegion w name provides => (m.addRegion w name provides).2
  | .addExit parent name target text => (m.addExit parent name target text).2
  | .addLocation parent name kind text => (m.addLocation parent name kind text).2
  | .addEvent parent name text => (m.addEvent parent name text).2
  | .placeItem id item w => m.placeItem id item w
  | .skip id => m.skip id
  | .declareItem d => (m.declareItem d).2
  | .compileRules templates rounds =>
    (Action.result (Progression.compileRules templates rounds) m).2
  | .finishRules templates rounds =>
    (Action.result (Progression.finishRules templates rounds) m).2

end BuildStep

namespace Multiworld

/-- What a sequence of calls makes of the worlds. -/
def build (m : Multiworld) (steps : List BuildStep) : Multiworld := steps.foldl BuildStep.apply m

/-- Each call of a sequence is valid when its turn comes. -/
def Accepts (m : Multiworld) : List BuildStep → Prop
  | [] => True
  | s :: steps => s.Valid m ∧ (s.apply m).Accepts steps

instance decidableAccepts : (m : Multiworld) → (steps : List BuildStep) →
    Decidable (m.Accepts steps)
  | _, [] => inferInstanceAs (Decidable True)
  | m, s :: steps =>
    haveI := decidableAccepts (s.apply m) steps
    inferInstanceAs (Decidable (s.Valid m ∧ (s.apply m).Accepts steps))

/-- What holds of the parts of all worlds, and of finding them by name. -/
structure CrossReferenced (m : Multiworld) : Prop extends Interlinked m where
  /-- No two regions of a world bear the same name. -/
  unique : ∀ w name r r', m.IsRegionNamed r w name → m.IsRegionNamed r' w name → r = r'
  /-- A name leads to a location that bears it in the world. -/
  locationNamed : ∀ w name id, m.locationNamed? w name = some id → m.IsLocationNamed id w name
  /-- It leads nowhere only if there is none. -/
  locationNamed_none : ∀ w name, m.locationNamed? w name = none →
    ∀ id, ¬ m.IsLocationNamed id w name

namespace Interlinked

variable {m : Multiworld} {templates : Templates}

theorem crossReferenced (h : m.Interlinked) : m.CrossReferenced :=
  ⟨h, h.unique, fun _ _ _ => h.isLocationNamed, fun _ _ => h.not_isLocationNamed⟩

/-! ### Building -/

/-- The root region of a new world is its first one. -/
theorem addWorld (h : m.Interlinked) (profile : Profile) :
    (m.addWorld profile).2.Interlinked := by
  have hworld := h.of_sameReferences (.pushWorld m profile ⟨m.regions.size⟩ .empty)
  have hunused : regionNamed?
      { m with worlds := m.worlds.push ⟨profile, ⟨m.regions.size⟩, [], [], [], [], .empty⟩ }
      ⟨m.worlds.size⟩ "Root" = none := by
    rw [regionNamed?, world, getD_push, if_pos rfl]
    rfl
  rw [addWorld_eq]
  exact hworld.newRegion (by simp) hunused .none

/-- A region of a name that is taken is not made twice. -/
theorem addRegion (h : m.Interlinked) {w : WorldId} (hw : w.index < m.worlds.size)
    (name : String) (provides : TimeOfDay) : (m.addRegion w name provides).2.Interlinked := by
  unfold Multiworld.addRegion
  split
  · exact h.of_sameReferences (.modifyProvides m _ (·.union provides))
  · next hnone => exact h.newRegion hw hnone provides

/-- A new location is one of the world of its region. -/
theorem addLocation (h : m.Interlinked) {parent : RegionId} (hp : parent.index < m.regions.size)
    (name kind text : String) : (m.addLocation parent name kind text).2.Interlinked :=
  h.pushLocation hp (h.region_world parent hp)

theorem addEvent (h : m.Interlinked) {parent : RegionId} (hp : parent.index < m.regions.size)
    (name text : String) : (m.addEvent parent name text).2.Interlinked := by
  have hcatalog := h.of_sameReferences (.withCatalog m (m.catalog.declareEvent name).2 m.book)
  have hlocation := hcatalog.addLocation hp name eventKind text
  have hitem := hlocation.of_sameReferences (.modifyLocation _ ⟨m.locations.size⟩
    (f := fun l => { l with
      item := some ⟨(m.catalog.declareEvent name).1, (m.region parent).world⟩, locked := true })
    fun _ => ⟨rfl, rfl, rfl⟩)
  exact hitem.of_sameReferences (.modifyWorld _ (m.region parent).world
    (f := fun x => { x with ledger := x.ledger.noteEvent name }) fun _ => ⟨rfl, rfl, rfl, rfl⟩)

/-! ### Compiling -/

theorem connectExit (h : m.Interlinked) {id : ExitId} (hid : id.index < m.exits.size) :
    (Action.result (connectExit id) m).2.Interlinked := by
  rw [result_connectExit]
  cases hregion : m.regionNamed? (m.exit id).world (m.exit id).target with
  | none => exact h
  | some target => exact h.link hid ((h.regionNamed _ _ _).1 hregion)

/-- The exits are connected up to the first one that names no region. -/
theorem keeps_connectExits : Keeps Interlinked (fun _ => True) connectExits := by
  refine ⟨fun m hm => ⟨?_, fun _ _ => trivial⟩⟩
  -- the loop runs over the exits that are there when it starts, and makes no further ones
  have hloop : Keeps (fun t => t.Interlinked ∧ t.exits.size = m.exits.size) (fun _ => True)
      (m.exitIds.forM Progression.connectExit) := by
    refine .forM _ fun id hid => ⟨fun t ht => ⟨⟨?_, ?_⟩, fun _ _ => trivial⟩⟩
    · have hlt : id.index < t.exits.size := by
        rw [ht.2]
        exact mem_exitIds.1 hid
      exact ht.1.connectExit hlt
    · rw [result_connectExit, ← ht.2]
      cases t.regionNamed? (t.exit id).world (t.exit id).target with
      | none => rfl
      | some target => exact Array.size_modify
  exact (hloop.run m ⟨hm, rfl⟩).1.1

/-- Only a ledger changes until the rule is known. -/
theorem sameReferences_compileAt (templates : Templates) (w : WorldId) (anchor : Anchor)
    (action : Lexicon → Resolve Formula) (m : Multiworld) :
    SameReferences m (Action.result (compileAt templates w anchor action) m).2 := by
  rw [result_compileAt]
  dsimp only
  generalize Workshop.compile _ _ = p
  have hledger := SameReferences.modifyWorld
    { m with catalog := p.2.registry.catalog, book := p.2.book } w
    (f := fun x => { x with ledger := p.2.registry.ledger }) fun _ => ⟨rfl, rfl, rfl, rfl⟩
  exact { hledger with }

theorem keeps_compileAt (w : WorldId) (anchor : Anchor) (action : Lexicon → Resolve Formula) :
    Keeps Interlinked (fun _ => True) (compileAt templates w anchor action) :=
  ⟨fun m hm => ⟨hm.of_sameReferences (sameReferences_compileAt templates w anchor action m),
    fun _ _ => trivial⟩⟩

theorem keeps_compileExit (id : ExitId) :
    Keeps Interlinked (fun _ => True) (compileExit templates id) := by
  refine .bind .get fun m _ => ?_
  refine .bind (keeps_compileAt _ _ _) fun guard _ => ?_
  exact .modifyGet fun m hm => ⟨hm.of_sameReferences (.modifyGuard m id guard), trivial⟩

theorem keeps_compileLocation (id : LocationId) :
    Keeps Interlinked (fun _ => True) (compileLocation templates id) := by
  refine .bind .get fun m _ => ?_
  refine .bind (keeps_compileAt _ _ _) fun guard _ => ?_
  refine .modifyGet fun m hm => ⟨hm.of_sameReferences ?_, trivial⟩
  exact .modifyLocation m id fun _ => ⟨rfl, rfl, rfl⟩

theorem keeps_compileSpots : Keeps Interlinked (fun _ => True) (compileSpots templates) := by
  refine .bind keeps_connectExits fun _ _ => ?_
  refine .bind .get fun m _ => .forM _ fun w _ => ?_
  refine .bind .get fun m _ => ?_
  refine .bind (.forM _ fun id _ => keeps_compileExit id) fun _ _ => ?_
  exact .forM _ fun id _ => keeps_compileLocation id

/-- The place of a subrule is in the region of its name, in the world of the subrule. -/
theorem settle (h : m.Interlinked) (w : WorldId) (s : Subrule) :
    (Action.result (settle templates w s) m).2.Interlinked := by
  cases hregion : m.regionNamed? w s.region with
  | none =>
    rw [result_settle_of_none templates hregion]
    exact h
  | some parent =>
    obtain ⟨hlt, hworld, -⟩ := (h.regionNamed _ _ _).1 hregion
    have hw : w.index < m.worlds.size := hworld ▸ h.region_world parent hlt
    have hsame := sameReferences_compileAt templates w ⟨s.event, s.region, some eventKind⟩
      (resolve · s.body) m
    rw [result_settle_of_some templates hregion]
    generalize Action.result (compileAt _ _ _ _) m = p at hsame
    obtain ⟨_ | guard, m'⟩ := p
    · exact h.of_sameReferences hsame
    · have h' : m'.Interlinked := h.of_sameReferences hsame
      dsimp only
      split
      · exact h'
      · refine h'.pushLocation (l := eventLocation w s parent guard) ?_ ?_
        · show parent.index < m'.regions.size
          rwa [hsame.regions]
        · show w.index < m'.worlds.size
          exact Nat.lt_of_lt_of_le hw hsame.worlds

theorem keeps_takePending (w : WorldId) :
    Keeps Interlinked (fun _ => True) (takePending w) := by
  refine .bind .get fun m _ => ?_
  refine .bind (Q := fun _ => True) (.modifyGet fun m hm => ?_) fun _ _ => .pure trivial
  exact ⟨hm.of_sameReferences (.modifyWorld m w fun _ => ⟨rfl, rfl, rfl, rfl⟩), trivial⟩

theorem keptBySettling : KeptBySettling Interlinked where
  takePending := keeps_takePending
  settle _ w s := ⟨fun _ hm => ⟨hm.settle w s, fun _ _ => trivial⟩⟩

/-- The references agree wherever a compilation ends. -/
theorem compileRules (h : m.Interlinked) (templates : Templates) (rounds : Nat) :
    (Action.result (compileRules templates rounds) m).2.Interlinked := by
  have hkeeps : Keeps Interlinked (fun _ => True) (Progression.compileRules templates rounds) := by
    rw [compileRules_eq]
    exact .bind keeps_compileSpots fun _ _ => keptBySettling.finishRules rounds
  exact (hkeeps.run m h).1

theorem finishRules (h : m.Interlinked) (templates : Templates) (rounds : Nat) :
    (Action.result (finishRules templates rounds) m).2.Interlinked :=
  ((keptBySettling.finishRules rounds).run m h).1

/-! ### Sequences of calls -/

/-- **A valid call keeps the worlds interlinked.** -/
theorem apply (h : m.Interlinked) {s : BuildStep} (hs : s.Valid m) : (s.apply m).Interlinked := by
  cases s with
  | addWorld profile => exact h.addWorld profile
  | addRegion w name provides => exact h.addRegion hs name provides
  | addExit parent name target text => exact h.addExit hs name target text
  | addLocation parent name kind text => exact h.addLocation hs name kind text
  | addEvent parent name text => exact h.addEvent hs name text
  | placeItem id item w => exact h.of_sameReferences (.modifyLocation m id fun _ => ⟨rfl, rfl, rfl⟩)
  | skip id => exact h.skip hs
  | declareItem d => exact h.of_sameReferences (.withCatalog m _ m.book)
  | compileRules templates rounds => exact h.compileRules templates rounds
  | finishRules templates rounds => exact h.finishRules templates rounds

theorem build (h : m.Interlinked) {steps : List BuildStep} (hs : m.Accepts steps) :
    (m.build steps).Interlinked := by
  induction steps generalizing m with
  | nil => exact h
  | cons s steps ih => exact ih (h.apply hs.1) hs.2

end Interlinked

/-- **Whatever valid calls make is cross-referenced**, from any catalog and whether or not the
compilations among them succeed. -/
theorem crossReferenced_build {c : Catalog} {steps : List BuildStep}
    (h : (empty c).Accepts steps) : ((empty c).build steps).CrossReferenced :=
  ((Interlinked.empty c).build h).crossReferenced

/-- Calls that compile a world before its den is made, and again after that. -/
def denSteps : List BuildStep := [
  .addWorld .plain,
  .addRegion ⟨0⟩ "Cave" .none,
  .addExit ⟨0⟩ "Root -> Cave" "Cave" "True",
  .addExit ⟨1⟩ "Cave -> Den" "Den" "True",
  .compileRules .empty 1,
  .addRegion ⟨0⟩ "Den" .none,
  .addLocation ⟨2⟩ "Chest" "Chest" "True",
  .skip ⟨0⟩,
  .compileRules .empty 1]

/-- The first compilation connects one exit only, the second one both. -/
theorem crossReferenced_denSteps :
    (empty .empty).Accepts denSteps ∧ ((empty .empty).build denSteps).CrossReferenced ∧
      ((empty .empty).build (denSteps.take 5)).exits.map Exit.connected = #[some ⟨1⟩, none] ∧
      ((empty .empty).build denSteps).exits.map Exit.connected = #[some ⟨1⟩, some ⟨2⟩] := by
  have haccepts : (empty .empty).Accepts denSteps := by decide
  exact ⟨haccepts, crossReferenced_build haccepts, by decide +kernel, by decide +kernel⟩

end Multiworld

end Progression
