import Progression.Proofs.Ledgers

/-!
# The rules of spots

Exits and locations get their rules in one way: the text of the spot is resolved in the
registry of its world, and the spot gets the rule of the formula.  Nothing else about the spot
changes.  Connecting an exit likewise changes its connection and the entrances of the region
that it names, and does nothing if it is connected to that region already.

## Main definitions

* `Multiworld.spotsIn` — the exits and locations of a world whose rules are compiled.
* `Multiworld.reading` — how the text of a spot is resolved.
* `Multiworld.HasGuard`, `Multiworld.setGuard` — the rule of a spot.
* `Multiworld.Linked` — an exit is connected to the region that it names.

## Main results

* `Multiworld.result_compileSpot_eq_ok_iff` — **when a spot gets its rule, and all that changes.**
* `Multiworld.linked_connectExits` — once all exits are connected, each one is linked.
-/

namespace Progression

open Rule

/-- What the rule of a spot is compiled from. -/
structure Brief where
  world : WorldId
  anchor : Anchor
  text : String

/-- An exit with another rule. -/
def Exit.withGuard (e : Exit) (guard : Guard) : Exit := { e with guard }

/-- A location with another rule. -/
def Location.withGuard (l : Location) (guard : Guard) : Location :=
  { l with guard, always := guard.isAlways, never := guard.isNever }

namespace Multiworld

variable {m m' m'' : Multiworld} {templates : Templates} {w : WorldId} {x : Spot}

/-! ### Spots -/

/-- What the rule of a spot is compiled from. -/
def brief (m : Multiworld) : Spot → Brief
  | .exit id =>
    let e := m.exit id
    ⟨e.world, ⟨e.name, (m.region e.parent).name, none⟩, e.text⟩
  | .location id =>
    let l := m.location id
    ⟨l.world, ⟨l.name, (m.region l.parent).name, some l.kind⟩, l.text⟩

/-- The spots of a world whose rules are compiled, in that order. -/
def spotsIn (m : Multiworld) (w : WorldId) : List Spot :=
  (m.exitIds.filter fun id => (m.exit id).world == w).map .exit ++
    (m.locationIds.filter fun id =>
      (m.location id).world == w && !(m.location id).internal).map .location

/-- Give a spot a rule. -/
def setGuard (m : Multiworld) (x : Spot) (guard : Guard) : Multiworld :=
  match x with
  | .exit id => m.modifyExit id (·.withGuard guard)
  | .location id => m.modifyLocation id (·.withGuard guard)

/-- A spot has a rule. -/
def HasGuard (m : Multiworld) (x : Spot) (guard : Guard) : Prop :=
  match x with
  | .exit id => m.exit id = (m.exit id).withGuard guard
  | .location id => m.location id = (m.location id).withGuard guard

/-- What the names in the text of a spot are looked up in, but for the items. -/
def lexicon (m : Multiworld) (templates : Templates) (x : Spot) : Lexicon :=
  ⟨(m.world (m.brief x).world).profile, templates, some (m.brief x).anchor⟩

/-- Resolve the text of a spot. -/
def reading (m : Multiworld) (templates : Templates) (x : Spot) : Resolve Formula :=
  resolveText (m.lexicon templates x) (m.brief x).text

theorem exit_mem_spotsIn {id : ExitId} :
    .exit id ∈ m.spotsIn w ↔ id.index < m.exits.size ∧ (m.exit id).world = w := by
  simp [spotsIn, mem_exitIds]

theorem location_mem_spotsIn {id : LocationId} :
    .location id ∈ m.spotsIn w ↔ id.index < m.locations.size ∧
      (m.location id).world = w ∧ (m.location id).internal = false := by
  simp [spotsIn, mem_locationIds]

theorem world_brief (h : x ∈ m.spotsIn w) : (m.brief x).world = w := by
  cases x with
  | exit id => exact (exit_mem_spotsIn.1 h).2
  | location id => exact (location_mem_spotsIn.1 h).2.1

/-! ### Giving a rule -/

theorem exit_setGuard (m : Multiworld) (x : Spot) (guard : Guard) (id : ExitId) :
    (m.setGuard x guard).exit id =
      if x = .exit id ∧ id.index < m.exits.size then (m.exit id).withGuard guard
      else m.exit id := by
  cases x with
  | exit id' =>
    simp only [Spot.exit.injEq]
    exact exit_modifyExit m id' id (·.withGuard guard)
  | location id' =>
    rw [if_neg fun h => nomatch h.1]
    rfl

theorem location_setGuard (m : Multiworld) (x : Spot) (guard : Guard) (id : LocationId) :
    (m.setGuard x guard).location id =
      if x = .location id ∧ id.index < m.locations.size then (m.location id).withGuard guard
      else m.location id := by
  cases x with
  | exit id' =>
    rw [if_neg fun h => nomatch h.1]
    rfl
  | location id' =>
    simp only [Spot.location.injEq]
    exact location_modifyLocation m id' id (·.withGuard guard)

/-- A rule that was given is there, if the spot is. -/
theorem hasGuard_setGuard {guard : Guard} (h : x ∈ m.spotsIn w) :
    (m.setGuard x guard).HasGuard x guard := by
  cases x with
  | exit id =>
    have hexit := exit_setGuard m (.exit id) guard id
    rw [if_pos ⟨rfl, (exit_mem_spotsIn.1 h).1⟩] at hexit
    rw [HasGuard, hexit]
    rfl
  | location id =>
    have hlocation := location_setGuard m (.location id) guard id
    rw [if_pos ⟨rfl, (location_mem_spotsIn.1 h).1⟩] at hlocation
    rw [HasGuard, hlocation]
    rfl

/-- Other spots keep their rules. -/
theorem HasGuard.setGuard {y : Spot} {guard guard' : Guard} (h : m.HasGuard y guard')
    (hy : y ≠ x) : (m.setGuard x guard).HasGuard y guard' := by
  cases y with
  | exit id =>
    rwa [HasGuard, exit_setGuard, if_neg fun h => hy h.1.symm]
  | location id =>
    rwa [HasGuard, location_setGuard, if_neg fun h => hy h.1.symm]

/-- The rest of a spot stays as it is. -/
theorem brief_setGuard (m : Multiworld) (x : Spot) (guard : Guard) (y : Spot) :
    (m.setGuard x guard).brief y = m.brief y := by
  have hregion : ∀ r, (m.setGuard x guard).region r = m.region r := by
    intro r
    cases x <;> rfl
  cases y with
  | exit id =>
    simp only [brief, exit_setGuard, hregion]
    split <;> rfl
  | location id =>
    simp only [brief, location_setGuard, hregion]
    split <;> rfl

theorem spotsIn_setGuard (m : Multiworld) (x : Spot) (guard : Guard) (w : WorldId) :
    (m.setGuard x guard).spotsIn w = m.spotsIn w := by
  have hexits : (m.setGuard x guard).exitIds = m.exitIds := by
    cases x with
    | exit id => simp [exitIds, setGuard, modifyExit]
    | location id => rfl
  have hlocations : (m.setGuard x guard).locationIds = m.locationIds := by
    cases x with
    | exit id => rfl
    | location id => simp [locationIds, setGuard, modifyLocation]
  have hexit : ∀ id, ((m.setGuard x guard).exit id).world = (m.exit id).world := by
    intro id
    rw [exit_setGuard]
    split <;> rfl
  have hlocation : ∀ id, ((m.setGuard x guard).location id).world = (m.location id).world ∧
      ((m.setGuard x guard).location id).internal = (m.location id).internal := by
    intro id
    rw [location_setGuard]
    split <;> exact ⟨rfl, rfl⟩
  simp only [spotsIn, hexits, hlocations, hexit, hlocation]

/-! ### Compiling a spot -/

/-- Compile the rule of a spot. -/
def compileSpot (templates : Templates) (x : Spot) : Build Unit := do
  let b := (← get).brief x
  let guard ← compileAt templates b.world b.anchor (resolveText · b.text)
  modify fun m => m.setGuard x guard

theorem compileExit_eq (id : ExitId) :
    compileExit templates id = compileSpot templates (.exit id) :=
  rfl

theorem compileLocation_eq (id : LocationId) :
    compileLocation templates id = compileSpot templates (.location id) :=
  rfl

theorem compileWorld_eq (w : WorldId) :
    compileWorld templates w = (do ((← get).spotsIn w).forM (compileSpot templates)) := by
  unfold compileWorld spotsIn
  simp only [List.forM_eq_forM, List.forM_append, List.forM_map, ← compileExit_eq,
    ← compileLocation_eq]

/-- The worlds after a formula was resolved in one of them and its rule handed out. -/
def resolved (m : Multiworld) (w : WorldId) (f : Formula) (r : Registry) : Multiworld :=
  { m with catalog := r.catalog, book := (m.book.issue f).2 }.modifyWorld w
    fun x => { x with ledger := r.ledger }

theorem result_compileAt_eq_ok_iff {anchor : Anchor} {action : Lexicon → Resolve Formula}
    {guard : Guard} :
    Action.result (compileAt templates w anchor action) m = (.ok guard, m') ↔
      ∃ f r, Action.result (action ⟨(m.world w).profile, templates, some anchor⟩)
          (m.registry w) = (.ok f, r) ∧
        guard = ⟨f, some m.book.number⟩ ∧ m' = m.resolved w f r := by
  rw [result_compileAt]
  unfold Workshop.compile Workshop.resolving Action.result
  dsimp only
  generalize (action ⟨(m.world w).profile, templates, some anchor⟩).run.run (m.registry w) = p
  obtain ⟨_ | f, r⟩ := p
  · simp
  · simp only [Prod.mk.injEq, Except.ok.injEq]
    constructor
    · rintro ⟨rfl, rfl⟩
      exact ⟨f, r, ⟨rfl, rfl⟩, rfl, rfl⟩
    · rintro ⟨f', r', ⟨rfl, rfl⟩, rfl, rfl⟩
      exact ⟨rfl, rfl⟩

/-- **A spot gets its rule when its text resolves, and all that changes is this rule and what
was registered.** -/
theorem result_compileSpot_eq_ok_iff :
    Action.result (compileSpot templates x) m = (.ok ⟨⟩, m') ↔
      ∃ f r, Action.result (m.reading templates x) (m.registry (m.brief x).world) = (.ok f, r) ∧
        m' = (m.resolved (m.brief x).world f r).setGuard x ⟨f, some m.book.number⟩ := by
  unfold compileSpot
  rw [Action.result_bind, Action.result_get]
  dsimp only
  rw [Action.result_bind_eq_ok_iff]
  constructor
  · rintro ⟨guard, m₁, hguard, hset⟩
    obtain ⟨f, r, hf, rfl, rfl⟩ := result_compileAt_eq_ok_iff.1 hguard
    obtain ⟨-, rfl⟩ := Prod.mk.inj hset
    exact ⟨f, r, hf, rfl⟩
  · rintro ⟨f, r, hf, rfl⟩
    exact ⟨_, _, result_compileAt_eq_ok_iff.2 ⟨f, r, hf, rfl, rfl⟩, rfl⟩

/-! ### Connecting an exit -/

/-- An exit is connected to the region that it names. -/
def Linked (m : Multiworld) (id : ExitId) : Prop :=
  ∃ target, m.regionNamed? (m.exit id).world (m.exit id).target = some target ∧
    (m.exit id).connected = some target ∧
    (target.index < m.regions.size → id ∈ (m.region target).entrances)

/-- Connect an exit to a region. -/
def link (m : Multiworld) (id : ExitId) (target : RegionId) : Multiworld :=
  (m.modifyExit id fun e => { e with connected := some target }).modifyRegion target
    fun r => { r with entrances := appendNew r.entrances id }

theorem result_connectExit (id : ExitId) (m : Multiworld) :
    Action.result (connectExit id) m =
      match m.regionNamed? (m.exit id).world (m.exit id).target with
      | none => (.error (.unknownRegion (m.exit id).name (m.exit id).target), m)
      | some target => (.ok ⟨⟩, m.link id target) := by
  rw [connectExit, Action.result_bind, Action.result_get]
  dsimp only
  cases m.regionNamed? (m.exit id).world (m.exit id).target <;> rfl

theorem mem_appendNew {α : Type} [DecidableEq α] {xs : List α} {x y : α} :
    y ∈ appendNew xs x ↔ y ∈ xs ∨ y = x := by
  unfold appendNew
  split
  · next h =>
    refine ⟨.inl, ?_⟩
    rintro (hy | rfl)
    · exact hy
    · exact h
  · rw [List.mem_append, List.mem_singleton]

theorem mem_entrances_link {id id' : ExitId} {target r : RegionId}
    (h : id' ∈ (m.region r).entrances ∨ target = r ∧ r.index < m.regions.size ∧ id' = id) :
    id' ∈ ((m.link id target).region r).entrances := by
  have hregion : (m.link id target).region r =
      if target = r ∧ r.index < m.regions.size then
        { m.region r with entrances := appendNew (m.region r).entrances id }
      else m.region r :=
    region_modifyRegion _ target r _
  rw [hregion]
  rcases h with h | ⟨rfl, hlt, rfl⟩
  · split
    · exact mem_appendNew.2 (.inl h)
    · exact h
  · rw [if_pos ⟨rfl, hlt⟩]
    exact mem_appendNew.2 (.inr rfl)

/-- What an exit names does not change, and other exits keep their connections. -/
theorem exit_link (m : Multiworld) (id : ExitId) (target : RegionId) (id' : ExitId) :
    (m.link id target).exit id' =
      if id = id' ∧ id'.index < m.exits.size then { m.exit id' with connected := some target }
      else m.exit id' :=
  exit_modifyExit m id id' _

theorem size_link (m : Multiworld) (id : ExitId) (target : RegionId) :
    (m.link id target).regions.size = m.regions.size :=
  Array.size_modify

theorem regionNamed_link (m : Multiworld) (id : ExitId) (target : RegionId) (w : WorldId)
    (name : String) : (m.link id target).regionNamed? w name = m.regionNamed? w name :=
  rfl

/-- The exit is connected then. -/
theorem linked_link {id : ExitId} {target : RegionId} (hid : id ∈ m.exitIds)
    (h : m.regionNamed? (m.exit id).world (m.exit id).target = some target) :
    (m.link id target).Linked id := by
  have hexit := exit_link m id target id
  rw [if_pos ⟨rfl, mem_exitIds.1 hid⟩] at hexit
  refine ⟨target, ?_, ?_, fun hlt => ?_⟩
  · rw [hexit, regionNamed_link]
    exact h
  · rw [hexit]
  · exact mem_entrances_link (.inr ⟨rfl, size_link m id target ▸ hlt, rfl⟩)

theorem Linked.link {id id' : ExitId} {target : RegionId} (h : m.Linked id') (hid : id' ≠ id) :
    (m.link id target).Linked id' := by
  obtain ⟨target', hnamed, hconnected, hentrance⟩ := h
  have hexit := exit_link m id target id'
  rw [if_neg fun h => hid h.1.symm] at hexit
  refine ⟨target', ?_, ?_, fun hlt => ?_⟩
  · rw [hexit, regionNamed_link, hnamed]
  · rw [hexit, hconnected]
  · rw [size_link] at hlt
    exact mem_entrances_link (.inl (hentrance hlt))

/-- An exit that is connected need not be connected again. -/
theorem Linked.connectExit {id : ExitId} (h : m.Linked id) :
    Action.result (connectExit id) m = (.ok ⟨⟩, m) := by
  obtain ⟨target, hnamed, hconnected, hentrance⟩ := h
  rw [result_connectExit, hnamed]
  have hexit : { m.exit id with connected := some target } = m.exit id := by rw [← hconnected]
  have hregion : target.index < m.regions.size → { m.region target with
      entrances := appendNew (m.region target).entrances id } = m.region target := by
    intro hlt
    rw [appendNew, if_pos (hentrance hlt)]
  have hlink : m.link id target = m := by
    rw [Multiworld.link, modifyExit, modify_eq_self (d := default) fun _ => hexit, modifyRegion,
      modify_eq_self (d := default) hregion]
  dsimp only
  rw [hlink]

/-- **Once all exits are connected, each is connected to the region that it names.** -/
theorem linked_connectExits (h : Action.result connectExits m = (.ok ⟨⟩, m')) :
    (∀ id ∈ m'.exitIds, m'.Linked id) ∧ m'.catalog = m.catalog ∧ m'.worlds = m.worlds := by
  have hstep : ∀ id ∈ m.exitIds, ∀ s t,
      (s.exitIds = m.exitIds ∧ s.catalog = m.catalog ∧ s.worlds = m.worlds) →
      Action.result (Progression.connectExit id) s = (.ok ⟨⟩, t) →
      (t.exitIds = m.exitIds ∧ t.catalog = m.catalog ∧ t.worlds = m.worlds) ∧
        t.Linked id ∧ ∀ id', s.Linked id' → t.Linked id' := by
    rintro id hid s t ⟨hexits, hcatalog, hworlds⟩ hst
    rw [result_connectExit] at hst
    split at hst
    · cases hst
    · next target htarget =>
      obtain ⟨-, rfl⟩ := Prod.mk.inj hst
      have hlinked := linked_link (hexits ▸ hid) htarget
      refine ⟨⟨?_, hcatalog, hworlds⟩, hlinked, fun id' hid' => ?_⟩
      · rw [← hexits]
        simp [exitIds, link, modifyExit, modifyRegion]
      · by_cases heq : id' = id
        · rwa [heq]
        · exact hid'.link heq
  obtain ⟨⟨hexits, hcatalog, hworlds⟩, hlinked, -⟩ :=
    Action.done_of_forM hstep ⟨rfl, rfl, rfl⟩ h
  exact ⟨hexits ▸ hlinked, hcatalog, hworlds⟩

end Multiworld

end Progression
