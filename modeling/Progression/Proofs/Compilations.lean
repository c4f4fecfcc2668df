import Progression.Proofs.Additions
import Progression.Proofs.Rereading
import Progression.Proofs.Rounds
import Progression.Proofs.Spots

/-!
# What a compilation leaves behind

The steps of a compilation leave each other's work alone.  They only add to the registries and
to the rulebook, they change no rule but the one of the spot that they compile, and the
locations that they make are internal.  So after a compilation that succeeds, the rule of every
spot is that of the formula to which its text resolved at some time on the way.

## Main definitions

* `Multiworld.Furthers P` — what a step leaves alone, the rules of the spots in `P` among it.
* `Multiworld.Written` — the rule of a spot is that of what its text resolved to on the way.
* `Multiworld.Compiled` — all exits are connected, all rules written, all subrules settled.

## Main results

* `Multiworld.written_compileSpot` — compiling a spot writes its rule.
* `Multiworld.compiled_compileRules` — **a compilation that succeeds has connected every exit,
  written every rule, and settled every subrule.**
-/

namespace Progression

open Rule

namespace Multiworld

variable {m m' m'' : Multiworld} {templates : Templates} {w : WorldId} {x : Spot}

/-! ### Rulebooks -/

theorem number_issue (b : Rulebook) (f : Formula) : (b.issue f).2.number = b.number := by
  unfold Rulebook.issue
  dsimp only
  split <;> rfl

theorem mem_issue {b : Rulebook} {f g : Formula} :
    g ∈ (b.issue f).2.formulas ↔ g = f ∨ g ∈ b.formulas := by
  unfold Rulebook.issue
  dsimp only
  split
  · next h =>
    refine ⟨.inr, ?_⟩
    rintro (rfl | hg)
    · exact List.contains_iff_mem.1 h
    · exact hg
  · exact List.mem_cons

/-! ### What a step leaves alone -/

/-- A step of a compilation adds to the registries and the rulebook, may make internal
locations, and leaves the spots that it does not compile, those of `P`, their rules. -/
structure Furthers (P : Spot → Prop) (m m' : Multiworld) : Prop where
  registry : ∀ w, (m.registry w).Within (m'.registry w)
  worlds : m'.worlds.size = m.worlds.size
  profile : ∀ w, (m'.world w).profile = (m.world w).profile
  spots : ∀ w, m'.spotsIn w = m.spotsIn w
  brief : ∀ w, ∀ x ∈ m.spotsIn w, m'.brief x = m.brief x
  guard : ∀ w, ∀ x ∈ m.spotsIn w, P x → ∀ guard, m.HasGuard x guard → m'.HasGuard x guard
  exits : m'.exitIds = m.exitIds
  linked : ∀ id, m.Linked id → m'.Linked id
  number : m'.book.number = m.book.number
  formulas : ∀ f ∈ m.book.formulas, f ∈ m'.book.formulas

namespace Furthers

variable {P Q : Spot → Prop}

theorem refl (m : Multiworld) : Furthers P m m where
  registry _ := .refl _
  worlds := rfl
  profile _ := rfl
  spots _ := rfl
  brief _ _ _ := rfl
  guard _ _ _ _ _ h := h
  exits := rfl
  linked _ h := h
  number := rfl
  formulas _ h := h

theorem trans (h : Furthers P m m') (h' : Furthers P m' m'') : Furthers P m m'' where
  registry w := (h.registry w).trans (h'.registry w)
  worlds := h'.worlds.trans h.worlds
  profile w := (h'.profile w).trans (h.profile w)
  spots w := (h'.spots w).trans (h.spots w)
  brief w x hx := (h'.brief w x (h.spots w ▸ hx)).trans (h.brief w x hx)
  guard w x hx hP guard hguard :=
    h'.guard w x (h.spots w ▸ hx) hP guard (h.guard w x hx hP guard hguard)
  exits := h'.exits.trans h.exits
  linked id hid := h'.linked id (h.linked id hid)
  number := h'.number.trans h.number
  formulas f hf := h'.formulas f (h.formulas f hf)

theorem mono (h : Furthers P m m') (hPQ : ∀ x, Q x → P x) : Furthers Q m m' :=
  { h with guard := fun w x hx hQ => h.guard w x hx (hPQ x hQ) }

/-- The same spots, and registries and rulebooks that have grown. -/
theorem of_spots (hregions : m'.regions = m.regions) (hexits : m'.exits = m.exits)
    (hlocations : m'.locations = m.locations)
    (hregistry : ∀ w, (m.registry w).Within (m'.registry w))
    (hworlds : m'.worlds.size = m.worlds.size)
    (hworld : ∀ w, (m'.world w).profile = (m.world w).profile ∧
      (m'.world w).regionNames = (m.world w).regionNames)
    (hnumber : m'.book.number = m.book.number)
    (hformulas : ∀ f ∈ m.book.formulas, f ∈ m'.book.formulas) : Furthers P m m' := by
  have hexit : ∀ id, m'.exit id = m.exit id := fun id => by rw [exit, hexits, exit]
  have hlocation : ∀ id, m'.location id = m.location id := fun id => by
    rw [location, hlocations, location]
  have hregion : ∀ r, m'.region r = m.region r := fun r => by rw [region, hregions, region]
  have hexitIds : m'.exitIds = m.exitIds := by rw [exitIds, hexits, exitIds]
  constructor
  case registry => exact hregistry
  case worlds => exact hworlds
  case profile => exact fun w => (hworld w).1
  case spots =>
    intro w
    have hlocationIds : m'.locationIds = m.locationIds := by
      rw [locationIds, hlocations, locationIds]
    simp only [spotsIn, hexitIds, hlocationIds, hexit, hlocation]
  case brief =>
    intro w x _
    cases x <;> simp only [Multiworld.brief, hexit, hlocation, hregion]
  case guard =>
    intro w x _ _ guard h
    cases x with
    | exit id => rwa [HasGuard, hexit]
    | location id => rwa [HasGuard, hlocation]
  case exits => exact hexitIds
  case linked =>
    intro id h
    have hnamed : m'.regionNamed? = m.regionNamed? := by
      funext w name
      rw [regionNamed?, (hworld w).2, regionNamed?]
    rwa [Linked, hexit, hnamed, hregions, funext hregion]
  case number => exact hnumber
  case formulas => exact hformulas

/-- The registry of a world and the rulebook grow. -/
theorem grow {r : Registry} {book : Rulebook} (h : (m.registry w).Within r)
    (hnumber : book.number = m.book.number)
    (hformulas : ∀ f ∈ m.book.formulas, f ∈ book.formulas) :
    Furthers P m ({ m with catalog := r.catalog, book }.modifyWorld w
      fun x => { x with ledger := r.ledger }) := by
  have hworld := fun v => world_modifyWorld { m with catalog := r.catalog, book } w v
    fun x => { x with ledger := r.ledger }
  refine of_spots rfl rfl rfl (fun v => ?_) Array.size_modify (fun v => ?_) hnumber hformulas
  · change Registry.Within _ ⟨r.catalog, ((Multiworld.modifyWorld _ _ _).world v).ledger⟩
    rw [hworld]
    split
    · next hv =>
      rw [← hv.1]
      exact h
    · exact ⟨h.catalog, fun _ _ _ hs => hs⟩
  · rw [hworld]
    split <;> exact ⟨rfl, rfl⟩

theorem resolved {f : Formula} {r : Registry} (h : (m.registry w).Within r) :
    Furthers P m (m.resolved w f r) :=
  grow h (number_issue _ _) fun _ hg => mem_issue.2 (.inr hg)

theorem setGuard (m : Multiworld) (x : Spot) (guard : Guard) :
    Furthers (· ≠ x) m (m.setGuard x guard) := by
  have hexit : ∀ id, ∃ guard', (m.setGuard x guard).exit id = (m.exit id).withGuard guard' := by
    intro id
    rw [exit_setGuard]
    split
    · exact ⟨guard, rfl⟩
    · exact ⟨(m.exit id).guard, rfl⟩
  constructor
  case registry => cases x <;> exact fun _ => .refl _
  case worlds => cases x <;> rfl
  case profile => cases x <;> exact fun _ => rfl
  case spots => exact spotsIn_setGuard m x guard
  case brief => exact fun _ y _ => brief_setGuard m x guard y
  case guard => exact fun _ y _ hy guard' h => h.setGuard hy
  case exits => cases x <;> simp [exitIds, Multiworld.setGuard, modifyExit, modifyLocation]
  case linked =>
    rintro id ⟨target, hnamed, hconnected, hentrance⟩
    obtain ⟨guard', hguard⟩ := hexit id
    refine ⟨target, ?_, ?_, ?_⟩
    · rw [hguard]
      cases x <;> exact hnamed
    · rw [hguard]
      exact hconnected
    · cases x <;> exact hentrance
  case number => cases x <;> rfl
  case formulas => cases x <;> exact fun _ h => h

/-- The locations of subrules are no spots whose rules are compiled. -/
theorem spotsIn_pushLocation {l : Location} (hl : l.internal = true) (w : WorldId) :
    (m.pushLocation l).2.spotsIn w = m.spotsIn w := by
  have hids : (m.pushLocation l).2.locationIds = m.locationIds ++ [⟨m.locations.size⟩] := by
    simp [locationIds, Multiworld.pushLocation, modifyRegion, modifyWorld, List.range_succ]
  have hnew : (m.pushLocation l).2.location ⟨m.locations.size⟩ = l := by
    rw [location_pushLocation, if_pos rfl]
  have hold : (m.locationIds.filter fun id => ((m.pushLocation l).2.location id).world == w &&
        !((m.pushLocation l).2.location id).internal) =
      m.locationIds.filter fun id => (m.location id).world == w && !(m.location id).internal := by
    refine List.filter_congr fun id hid => ?_
    rw [location_pushLocation, if_neg (Nat.ne_of_lt (mem_locationIds.1 hid))]
  unfold spotsIn
  rw [hids, List.filter_append, hold, List.filter_cons_of_neg (by simp [hnew, hl]),
    List.filter_nil, List.append_nil]
  rfl

theorem pushLocation (m : Multiworld) {l : Location} (hl : l.internal = true) :
    Furthers P m (m.pushLocation l).2 := by
  have hworld := world_pushLocation m l
  have hregion := fun r => region_modifyRegion { m with locations := m.locations.push l }
    l.parent r fun r => { r with locations := r.locations ++ [⟨m.locations.size⟩] }
  have hlocation : ∀ id : LocationId, id.index < m.locations.size →
      (m.pushLocation l).2.location id = m.location id := by
    intro id hid
    rw [location_pushLocation, if_neg (Nat.ne_of_lt hid)]
  constructor
  case registry =>
    intro w
    have hledger : ((m.pushLocation l).2.world w).ledger = (m.world w).ledger := by
      rw [hworld]
      split <;> rfl
    rw [Multiworld.registry, Multiworld.registry, hledger]
    exact .refl _
  case worlds => exact Array.size_modify
  case profile =>
    intro w
    rw [hworld]
    split <;> rfl
  case spots => exact spotsIn_pushLocation hl
  case brief =>
    intro w x hx
    have hname : ∀ r, ((m.pushLocation l).2.region r).name = (m.region r).name := by
      intro r
      refine (congrArg Region.name (hregion r)).trans ?_
      split <;> rfl
    cases x with
    | exit id =>
      simp only [Multiworld.brief, hname]
      rfl
    | location id =>
      simp only [Multiworld.brief, hname, hlocation id (location_mem_spotsIn.1 hx).1]
  case guard =>
    intro w x hx _ guard h
    cases x with
    | exit id => exact h
    | location id => rwa [HasGuard, hlocation id (location_mem_spotsIn.1 hx).1]
  case exits => rfl
  case linked =>
    rintro id ⟨target, hnamed, hconnected, hentrance⟩
    refine ⟨target, ?_, hconnected, ?_⟩
    · rw [regionNamed_pushLocation]
      exact hnamed
    · -- the region lists the location, but no further entrance
      have hentrances : ((m.pushLocation l).2.region target).entrances =
          (m.region target).entrances := by
        refine (congrArg Region.entrances (hregion target)).trans ?_
        split <;> rfl
      have hsize : (m.pushLocation l).2.regions.size = m.regions.size := Array.size_modify
      rwa [hentrances, hsize]
  case number => rfl
  case formulas => exact fun _ h => h

/-- What is no longer pending is registered still. -/
theorem takePending (w : WorldId) (m : Multiworld) :
    Furthers P m (Action.result (takePending w) m).2 := by
  rw [result_takePending]
  have hregistry : (m.registry w).Within
      ⟨m.catalog, { (m.world w).ledger with pending := [] }⟩ :=
    ⟨.refl _, fun _ _ _ hs => hs⟩
  exact grow hregistry rfl fun _ hf => hf

theorem compileAt {anchor : Anchor} {action : Lexicon → Resolve Formula}
    (haction : ∀ lx (r : Registry), r.Within (Action.result (action lx) r).2) (m : Multiworld) :
    Furthers P m (Action.result (compileAt templates w anchor action) m).2 := by
  rw [result_compileAt]
  dsimp only
  generalize hw : Workshop.compile _ _ = p
  have hregistry : (m.registry w).Within p.2.registry := by
    rw [← hw, registry_compile]
    exact haction _ _
  have hbook : p.2.book.number = m.book.number ∧
      ∀ f ∈ m.book.formulas, f ∈ p.2.book.formulas := by
    unfold Workshop.compile at hw
    split at hw
    · next f _ hf =>
      rw [← hw, (Prod.mk.inj hf).2.symm]
      exact ⟨number_issue _ _, fun _ hg => mem_issue.2 (.inr hg)⟩
    · next hf =>
      rw [← hw, (Prod.mk.inj hf).2.symm]
      exact ⟨rfl, fun _ h => h⟩
  exact grow hregistry hbook.1 hbook.2

theorem keptBySettling (m : Multiworld) : KeptBySettling (Furthers P m) where
  takePending w := ⟨fun m' h => ⟨h.trans (takePending w m'), fun _ _ => trivial⟩⟩
  settle templates w s := by
    refine .bind .get fun m₁ _ => ?_
    split
    · exact .throw _
    · have hcompile : Keeps (Furthers P m) (fun _ => True)
          (Progression.compileAt templates w ⟨s.event, s.region, some eventKind⟩
            (resolve · s.body)) :=
        ⟨fun m' h => ⟨h.trans (compileAt (within_resolve · s.body) m'), fun _ _ => trivial⟩⟩
      refine .bind hcompile fun guard _ => ?_
      split
      · exact .pure trivial
      · exact .modifyGet fun m' h => ⟨h.trans (pushLocation m' rfl), trivial⟩

/-- The text of a spot is resolved as before. -/
theorem reading (h : Furthers P m m') (hx : x ∈ m.spotsIn w) :
    m'.reading templates x = m.reading templates x := by
  unfold Multiworld.reading lexicon
  rw [h.brief w x hx, h.profile]

end Furthers

/-! ### Written rules -/

/-- The rule of a spot is handed out for the formula that its text resolved to, in a registry
on the way from that of `m₀` to that of `m`. -/
def Written (templates : Templates) (m₀ m : Multiworld) (x : Spot) : Prop :=
  ∃ r f r₁, (m₀.registry (m.brief x).world).Within r ∧
    Action.result (m.reading templates x) r = (.ok f, r₁) ∧
    r₁.Within (m.registry (m.brief x).world) ∧
    m.HasGuard x ⟨f, some m.book.number⟩ ∧ f ∈ m.book.formulas

namespace Written

variable {P : Spot → Prop} {m₀ m₁ : Multiworld}

/-- The way may begin earlier. -/
theorem since (h : Written templates m₁ m x) (hm : ∀ w, (m₀.registry w).Within (m₁.registry w)) :
    Written templates m₀ m x := by
  obtain ⟨r, f, r₁, hr, hf⟩ := h
  exact ⟨r, f, r₁, (hm _).trans hr, hf⟩

/-- A written rule is left alone. -/
theorem further (h : Written templates m₀ m x) (hm : Furthers P m m') (hx : x ∈ m.spotsIn w)
    (hP : P x) : Written templates m₀ m' x := by
  obtain ⟨r, f, r₁, hr, hf, hr₁, hguard, hmem⟩ := h
  refine ⟨r, f, r₁, ?_, ?_, ?_, ?_, hm.formulas f hmem⟩
  · rwa [hm.brief w x hx]
  · rwa [hm.reading hx]
  · rw [hm.brief w x hx]
    exact hr₁.trans (hm.registry _)
  · rw [hm.number]
    exact hm.guard w x hx hP _ hguard

end Written

theorem repeats_reading (m : Multiworld) (templates : Templates) (x : Spot) (r₀ R : Registry) :
    Repeats r₀ R ((m.lexicon templates x).profile.Unshadowed r₀.catalog R.catalog)
      (m.reading templates x) :=
  repeats_resolveText _

theorem registry_resolved (m : Multiworld) {f : Formula} (r : Registry)
    (hw : w.index < m.worlds.size) : (m.resolved w f r).registry w = r := by
  have hworld := world_modifyWorld { m with catalog := r.catalog, book := (m.book.issue f).2 } w w
    fun x => { x with ledger := r.ledger }
  rw [if_pos ⟨rfl, hw⟩] at hworld
  rw [registry, resolved, hworld]
  rfl

/-- **Compiling a spot writes its rule and leaves the rules of the other spots alone.** -/
theorem written_compileSpot (hw : w.index < m.worlds.size) (hx : x ∈ m.spotsIn w)
    (h : Action.result (compileSpot templates x) m = (.ok ⟨⟩, m')) :
    Furthers (· ≠ x) m m' ∧ Written templates m m' x := by
  obtain ⟨f, r, hf, rfl⟩ := result_compileSpot_eq_ok_iff.1 h
  rw [world_brief hx] at hf ⊢
  have hwithin : (m.registry w).Within r :=
    (repeats_reading m templates x (m.registry w) r).within _ _ _ hf
  have hresolved : Furthers (· ≠ x) m (m.resolved w f r) := .resolved hwithin
  have hstep : Furthers (· ≠ x) m ((m.resolved w f r).setGuard x ⟨f, some m.book.number⟩) :=
    hresolved.trans (.setGuard _ x _)
  refine ⟨hstep, m.registry w, f, r, ?_, ?_, ?_, ?_, ?_⟩
  · rw [hstep.brief w x hx, world_brief hx]
    exact .refl _
  · rwa [hstep.reading hx]
  · rw [hstep.brief w x hx, world_brief hx]
    have hregistry := registry_resolved (f := f) m r hw
    cases x <;> exact hregistry.symm ▸ .refl r
  · rw [hstep.number]
    exact hasGuard_setGuard (hresolved.spots w ▸ hx)
  · cases x <;> exact mem_issue.2 (.inl rfl)

/-! ### Whole compilations -/

/-- What a compilation that succeeds leaves behind, if it began with `m₀`. -/
structure Compiled (templates : Templates) (m₀ m : Multiworld) : Prop where
  linked : ∀ id ∈ m.exitIds, m.Linked id
  written : ∀ w, w.index < m.worlds.size → ∀ x ∈ m.spotsIn w, Written templates m₀ m x
  pending : ∀ w, (m.world w).ledger.pending = []

/-- A spot is one of `m₀`, and its rule is written. -/
def WrittenSpot (templates : Templates) (m₀ : Multiworld) (x : Spot) (m : Multiworld) : Prop :=
  (∃ w, x ∈ m₀.spotsIn w) ∧ Written templates m₀ m x

section Worlds

variable {m₀ : Multiworld}

/-- The rules of a world are written, and those that were written stay so. -/
theorem written_compileWorld (hw : w.index < m₀.worlds.size)
    (hm : Furthers (fun _ => False) m₀ m)
    (h : Action.result (compileWorld templates w) m = (.ok ⟨⟩, m')) :
    Furthers (fun _ => False) m₀ m' ∧ (∀ x ∈ m.spotsIn w, WrittenSpot templates m₀ x m') ∧
      ∀ x, WrittenSpot templates m₀ x m → WrittenSpot templates m₀ x m' := by
  rw [compileWorld_eq, Action.result_bind, Action.result_get] at h
  refine Action.done_of_forM (fun x hx s t hs hst => ?_) hm h
  have hx₀ : x ∈ m₀.spotsIn w := by rwa [← hm.spots]
  obtain ⟨hstep, hwritten⟩ := written_compileSpot (hs.worlds ▸ hw) (hs.spots w ▸ hx₀) hst
  have hwritten₀ : WrittenSpot templates m₀ x t := ⟨⟨w, hx₀⟩, hwritten.since hs.registry⟩
  refine ⟨hs.trans (hstep.mono nofun), hwritten₀, fun y hy => ?_⟩
  -- the rule of `x` is the one that the step writes
  by_cases heq : y = x
  · rwa [heq]
  · obtain ⟨⟨v, hv⟩, hy⟩ := hy
    exact ⟨⟨v, hv⟩, hy.further hstep (hs.spots v ▸ hv) heq⟩

theorem written_compileWorlds
    (h : Action.result (m₀.worldIds.forM (compileWorld templates)) m₀ = (.ok ⟨⟩, m)) :
    Furthers (fun _ => False) m₀ m ∧
      ∀ w, w.index < m₀.worlds.size → ∀ x ∈ m₀.spotsIn w, Written templates m₀ m x := by
  have hstep : ∀ w ∈ m₀.worldIds, ∀ s t, Furthers (fun _ => False) m₀ s →
      Action.result (compileWorld templates w) s = (.ok ⟨⟩, t) →
      Furthers (fun _ => False) m₀ t ∧ (∀ x ∈ m₀.spotsIn w, WrittenSpot templates m₀ x t) ∧
        ∀ v, (∀ x ∈ m₀.spotsIn v, WrittenSpot templates m₀ x s) →
          ∀ x ∈ m₀.spotsIn v, WrittenSpot templates m₀ x t := by
    intro w hw s t hs hst
    obtain ⟨ht, hwritten, hkept⟩ := written_compileWorld (mem_worldIds.1 hw) hs hst
    rw [hs.spots] at hwritten
    exact ⟨ht, hwritten, fun v hv x hx => hkept x (hv x hx)⟩
  obtain ⟨hm, hwritten, -⟩ := Action.done_of_forM hstep (.refl m₀) h
  exact ⟨hm, fun w hw x hx => (hwritten w (mem_worldIds.2 hw) x hx).2⟩

end Worlds

/-- **A compilation that succeeds has connected every exit, written every rule, and settled
every subrule.** -/
theorem compiled_compileRules {rounds : Nat}
    (h : Action.result (compileRules templates rounds) m = (.ok true, m')) :
    Compiled templates m m' := by
  have hpending := pending_compileRules h
  rw [compileRules_eq] at h
  obtain ⟨_, m₂, hspots, hfinish⟩ := Action.result_bind_eq_ok_iff.1 h
  obtain ⟨_, m₁, hconnect, hworlds⟩ := Action.result_bind_eq_ok_iff.1 hspots
  obtain ⟨hlinked, hcatalog, hsame⟩ := linked_connectExits hconnect
  obtain ⟨hm₁, hwritten⟩ := written_compileWorlds hworlds
  have hm₂ : Furthers (fun _ => True) m₂ m' := by
    have hkept : Keeps (Furthers (fun _ => True) m₂) (fun _ => True)
        (finishRules templates rounds) :=
      (Furthers.keptBySettling m₂).finishRules rounds
    have hrun := (hkept.run m₂ (.refl m₂)).1
    rwa [hfinish] at hrun
  -- connecting exits registers nothing, so the way may begin before it
  have hregistry : ∀ w, (m.registry w).Within (m₁.registry w) := by
    intro w
    rw [registry, registry, world, world, hcatalog, hsame]
    exact .refl _
  constructor
  case linked =>
    intro id hid
    rw [hm₂.exits, hm₁.exits] at hid
    exact hm₂.linked id (hm₁.linked id (hlinked id hid))
  case written =>
    intro w hw x hx
    rw [hm₂.worlds, hm₁.worlds] at hw
    rw [hm₂.spots] at hx
    have hx₁ := hwritten w hw x (hm₁.spots w ▸ hx)
    exact (hx₁.further hm₂ hx trivial).since hregistry
  case pending => exact hpending

end Multiworld

end Progression
