import Progression.Proofs.Worlds
import Progression.Proofs.Subrules

/-!
# The ledgers of worlds

Whatever is resolved in a world, its ledger only grows: new subrules are registered, and
they are pending until they are taken out.  Building leaves the subrules of all worlds as
they are, and work on one world leaves those of the other worlds.

## Main definitions

* `Registry.Grows` — what resolving rules makes of a registry.
* `Multiworld.registry` — what resolving the rules of a world adds to.
* `Multiworld.SameSubrules` — a change that registers no subrule.
* `Multiworld.GrowsIn` — work on the rules of one world.
* `Multiworld.eventLocation` — the internal location of a subrule.

## Main results

* `grows_resolve` — **resolving a rule adds subrules, all of them pending.**
* `Multiworld.growsIn_compileAt` — compiling a rule of a world grows its registry only.
* `Multiworld.Built.sound` — **the registries of all worlds are sound, whatever is built and
  compiled.**
-/

namespace Progression

namespace Rule

/-! ### Growing registries -/

/-- Subrules are registered, which are pending, and names keep their items. -/
structure Registry.Grows (r r' : Registry) : Prop where
  /-- The latest subrule is registered first, and pending last. -/
  added : ∃ new : List Subrule, r'.ledger.registered = new.reverse ++ r.ledger.registered ∧
    r'.ledger.pending = r.ledger.pending ++ new
  catalog : r.catalog.Extends r'.catalog
  sound : r.Sound → r'.Sound

namespace Registry.Grows

theorem refl (r : Registry) : r.Grows r :=
  ⟨⟨[], rfl, (List.append_nil _).symm⟩, .refl _, fun h => h⟩

theorem trans {r r' r'' : Registry} (h : r.Grows r') (h' : r'.Grows r'') : r.Grows r'' := by
  obtain ⟨new, hreg, hpend⟩ := h.added
  obtain ⟨new', hreg', hpend'⟩ := h'.added
  refine ⟨⟨new ++ new', ?_, ?_⟩, h.catalog.trans h'.catalog, fun hs => h'.sound (h.sound hs)⟩
  · rw [hreg', hreg, List.reverse_append, List.append_assoc]
  · rw [hpend', hpend, List.append_assoc]

/-- Other worlds may add to the catalog. -/
theorem of_catalog {c c' : Catalog} (h : c.Extends c') (l : Ledger) : Grows ⟨c, l⟩ ⟨c', l⟩ :=
  ⟨⟨[], rfl, (List.append_nil _).symm⟩, h, fun hs => hs.extend rfl h⟩

theorem declareEvent (r : Registry) (name : String) : r.Grows (r.declareEvent name).2 :=
  ⟨⟨[], rfl, (List.append_nil _).symm⟩, Catalog.extends_declareEvent _ _,
    fun hs => hs.declareEvent name⟩

theorem registerSubrule (r : Registry) (region : String) (body : Term) :
    r.Grows (r.registerSubrule region body).2 := by
  refine ⟨?_, (stable_extends _).registerSubrule r region body (.refl _),
    fun hs => hs.registerSubrule region body⟩
  unfold Registry.registerSubrule
  split
  · exact ⟨[], rfl, (List.append_nil _).symm⟩
  · exact ⟨[_], rfl, rfl⟩

theorem stable (r : Registry) : Registry.Stable r.Grows where
  declareEvent r' name h := h.trans (declareEvent r' name)
  registerSubrule r' region body h := h.trans (registerSubrule r' region body)

/-- A rule that is new to a region becomes a subrule that is pending. -/
theorem registerSubrule_of_new {r : Registry} {region : String} {body : Term}
    (h : r.ledger.find? region body = none) :
    ∃ s : Subrule, s.region = region ∧ s.body = body ∧
      (r.registerSubrule region body).2.ledger.registered = s :: r.ledger.registered ∧
      (r.registerSubrule region body).2.ledger.pending = r.ledger.pending ++ [s] := by
  unfold Registry.registerSubrule
  rw [h]
  exact ⟨_, rfl, rfl, rfl, rfl⟩

/-- If nothing was pending before, what is pending has been registered. -/
theorem registered_lt {r r' : Registry} (h : r.Grows r') (hr : r.ledger.pending = [])
    (hr' : r'.ledger.pending ≠ []) :
    r.ledger.registered.length < r'.ledger.registered.length := by
  obtain ⟨new, hreg, hpend⟩ := h.added
  rw [hpend, hr, List.nil_append] at hr'
  have hpos : 0 < new.length := List.length_pos_iff.2 hr'
  rw [hreg, List.length_append, List.length_reverse]
  omega

end Registry.Grows

/-- An action on registries only makes them grow. -/
def Growing {α : Type} (act : Resolve α) : Prop := ∀ r, Registry.Grows r (Action.result act r).2

/-- **Resolving a rule adds subrules, all of them pending.** -/
theorem grows_resolve (lx : Lexicon) (term : Term) : Growing (resolve lx term) := fun r =>
  ((keeps_resolve (p := fun _ => true) (Registry.Grows.stable r) rfl rfl term).run r (.refl r)).1

theorem grows_resolveText (lx : Lexicon) (text : String) : Growing (resolveText lx text) := fun r =>
  ((keeps_resolveText (p := fun _ => true) (Registry.Grows.stable r) rfl rfl text).run r
    (.refl r)).1

/-- Compiling adds to the registry what resolving adds. -/
theorem registry_compile (w : Workshop) (act : Resolve Formula) :
    (w.compile act).2.registry = (Action.result act w.registry).2 := by
  unfold Workshop.compile Workshop.resolving Action.result
  generalize act.run.run w.registry = p
  obtain ⟨_ | f, r⟩ := p <;> rfl

/-- A resolution that succeeds gets the rule of its formula. -/
theorem Workshop.compile_of_ok {w : Workshop} {act : Resolve Formula} {f : Formula} {r : Registry}
    (h : Action.result act w.registry = (.ok f, r)) :
    w.compile act = (.ok ⟨f, some w.book.number⟩, ⟨r, (w.book.issue f).2⟩) := by
  unfold Action.result at h
  unfold Workshop.compile Workshop.resolving
  rw [h]
  rfl

/-- One that fails gets none, but keeps what it registered. -/
theorem Workshop.compile_of_error {w : Workshop} {act : Resolve Formula} {e : RuleError}
    {r : Registry} (h : Action.result act w.registry = (.error e, r)) :
    w.compile act = (.error e, ⟨r, w.book⟩) := by
  unfold Action.result at h
  unfold Workshop.compile Workshop.resolving
  rw [h]

end Rule

open Rule

namespace Multiworld

/-- What resolving the rules of a world adds to. -/
def registry (m : Multiworld) (w : WorldId) : Registry := ⟨m.catalog, (m.world w).ledger⟩

variable {m m' m'' : Multiworld} {w : WorldId}

/-! ### Changes without subrules -/

/-- The subrules of all worlds and the items of their events are the same. -/
structure SameSubrules (m m' : Multiworld) : Prop where
  catalog : m.catalog.Extends m'.catalog
  registered : ∀ w, (m'.world w).ledger.registered = (m.world w).ledger.registered
  pending : ∀ w, (m'.world w).ledger.pending = (m.world w).ledger.pending

namespace SameSubrules

theorem refl (m : Multiworld) : SameSubrules m m := ⟨.refl _, fun _ => rfl, fun _ => rfl⟩

theorem trans (h : SameSubrules m m') (h' : SameSubrules m' m'') : SameSubrules m m'' where
  catalog := h.catalog.trans h'.catalog
  registered w := (h'.registered w).trans (h.registered w)
  pending w := (h'.pending w).trans (h.pending w)

theorem of_worlds (hw : m'.worlds = m.worlds) (hc : m.catalog.Extends m'.catalog) :
    SameSubrules m m' := by
  have hworld : ∀ w, m'.world w = m.world w := fun w => by rw [world, hw, world]
  exact ⟨hc, fun w => by rw [hworld], fun w => by rw [hworld]⟩

theorem modifyWorld (m : Multiworld) (id : WorldId) {f : World → World}
    (hf : ∀ w, (f w).ledger.registered = w.ledger.registered ∧
      (f w).ledger.pending = w.ledger.pending) : SameSubrules m (m.modifyWorld id f) where
  catalog := .refl _
  registered w := by
    rw [world_modifyWorld]
    split
    · exact (hf _).1
    · rfl
  pending w := by
    rw [world_modifyWorld]
    split
    · exact (hf _).2
    · rfl

theorem addWorld (m : Multiworld) (profile : Profile) : SameSubrules m (m.addWorld profile).2 := by
  -- a number that is not in use has an empty ledger as well
  have hledger : ∀ w, ((m.addWorld profile).2.world w).ledger = (m.world w).ledger := by
    intro w
    refine (congrArg World.ledger (getD_push m.worlds _ default w.index)).trans ?_
    split
    · next hw =>
      rw [world, Array.getD_eq_getD_getElem?, Array.getElem?_eq_none (Nat.le_of_eq hw.symm)]
      rfl
    · rfl
  exact ⟨.refl _, fun w => by rw [hledger], fun w => by rw [hledger]⟩

theorem nameRegion (m : Multiworld) (w : WorldId) (name : String) (id : RegionId) :
    SameSubrules m (m.nameRegion w name id) :=
  modifyWorld m w fun _ => ⟨rfl, rfl⟩

theorem addRegion (m : Multiworld) (w : WorldId) (name : String) (provides : TimeOfDay) :
    SameSubrules m (m.addRegion w name provides).2 := by
  unfold Multiworld.addRegion
  split
  · exact of_worlds rfl (.refl _)
  · have hpush : SameSubrules m (m.pushRegion w name provides).2 := of_worlds rfl (.refl _)
    exact hpush.trans (nameRegion _ w name _)

theorem pushLocation (m : Multiworld) (l : Location) : SameSubrules m (m.pushLocation l).2 := by
  have hregion : SameSubrules m (Multiworld.modifyRegion { m with locations := m.locations.push l }
      l.parent fun r => { r with locations := r.locations ++ [⟨m.locations.size⟩] }) :=
    of_worlds rfl (.refl _)
  exact hregion.trans (modifyWorld _ l.world fun _ => ⟨rfl, rfl⟩)

theorem addEvent (m : Multiworld) (parent : RegionId) (name text : String) :
    SameSubrules m (m.addEvent parent name text).2 := by
  have hdeclare : SameSubrules m { m with catalog := (m.catalog.declareEvent name).2 } :=
    of_worlds rfl (Catalog.extends_declareEvent _ _)
  have hlocation := hdeclare.trans (pushLocation _ ⟨name, eventKind, (m.region parent).world,
    parent, .always, text, none, false, false, false, false⟩)
  change SameSubrules m ((Multiworld.modifyLocation _ _ _).modifyWorld _ _)
  refine SameSubrules.trans ?_ (modifyWorld _ _ fun _ => ⟨rfl, rfl⟩)
  exact hlocation.trans (of_worlds rfl (.refl _))

/-- To register nothing is to grow by nothing. -/
theorem registries (h : SameSubrules m m') (w : WorldId) :
    (m.registry w).Grows (m'.registry w) :=
  ⟨⟨[], h.registered w, by rw [List.append_nil]; exact h.pending w⟩, h.catalog,
    fun hs => hs.extend (h.registered w) h.catalog⟩

/-- The registries stay sound. -/
theorem sound (h : SameSubrules m m') (hm : ∀ w, (m.registry w).Sound) :
    ∀ w, (m'.registry w).Sound :=
  fun w => (h.registries w).sound (hm w)

end SameSubrules

/-! ### Work on one world -/

/-- The registry of a world has grown, and the other worlds have their ledgers. -/
structure GrowsIn (w : WorldId) (m m' : Multiworld) : Prop where
  size : m'.worlds.size = m.worlds.size
  ledger : ∀ v, v ≠ w → (m'.world v).ledger = (m.world v).ledger
  registry : (m.registry w).Grows (m'.registry w)

namespace GrowsIn

theorem refl (w : WorldId) (m : Multiworld) : GrowsIn w m m := ⟨rfl, fun _ _ => rfl, .refl _⟩

theorem trans (h : GrowsIn w m m') (h' : GrowsIn w m' m'') : GrowsIn w m m'' where
  size := h'.size.trans h.size
  ledger v hv := (h'.ledger v hv).trans (h.ledger v hv)
  registry := h.registry.trans h'.registry

theorem of_worlds (w : WorldId) (hw : m'.worlds = m.worlds) (hc : m'.catalog = m.catalog) :
    GrowsIn w m m' := by
  have hworld : ∀ v, m'.world v = m.world v := fun v => by rw [world, hw, world]
  refine ⟨by rw [hw], fun v _ => by rw [hworld], ?_⟩
  rw [Multiworld.registry, Multiworld.registry, hworld, hc]
  exact .refl _

theorem modifyWorld (w id : WorldId) (m : Multiworld) {f : World → World}
    (hf : ∀ x, (f x).ledger = x.ledger) : GrowsIn w m (m.modifyWorld id f) := by
  have hledger : ∀ v, ((m.modifyWorld id f).world v).ledger = (m.world v).ledger := by
    intro v
    rw [world_modifyWorld]
    split
    · exact hf _
    · rfl
  refine ⟨Array.size_modify, fun v _ => hledger v, ?_⟩
  rw [Multiworld.registry, Multiworld.registry, hledger]
  exact .refl _

theorem pushLocation (w : WorldId) (m : Multiworld) (l : Location) :
    GrowsIn w m (m.pushLocation l).2 := by
  have hregion : GrowsIn w m (Multiworld.modifyRegion { m with locations := m.locations.push l }
      l.parent fun r => { r with locations := r.locations ++ [⟨m.locations.size⟩] }) :=
    of_worlds w rfl rfl
  exact hregion.trans (modifyWorld w l.world _ fun _ => rfl)

/-- All registries grow. -/
theorem registries (h : GrowsIn w m m') (v : WorldId) : (m.registry v).Grows (m'.registry v) := by
  by_cases hv : v = w
  · rw [hv]
    exact h.registry
  · rw [Multiworld.registry, Multiworld.registry, h.ledger v hv]
    exact .of_catalog h.registry.catalog _

end GrowsIn

/-- The worlds after a rule is compiled, and the rule. -/
theorem result_compileAt (templates : Templates) (w : WorldId) (anchor : Anchor)
    (action : Lexicon → Resolve Formula) (m : Multiworld) :
    Action.result (compileAt templates w anchor action) m =
      let p := Workshop.compile ⟨m.registry w, m.book⟩
        (action ⟨(m.world w).profile, templates, some anchor⟩)
      (p.1, { m with catalog := p.2.registry.catalog, book := p.2.book }.modifyWorld w
        fun x => { x with ledger := p.2.registry.ledger }) := rfl

theorem result_compileAt_of_ok {templates : Templates} {w : WorldId} {anchor : Anchor}
    (action : Lexicon → Resolve Formula) {m : Multiworld} {f : Formula} {r : Registry}
    (h : Action.result (action ⟨(m.world w).profile, templates, some anchor⟩) (m.registry w) =
      (.ok f, r)) :
    ∃ guard book, guard.formula = f ∧
      Action.result (compileAt templates w anchor action) m =
        (.ok guard, { m with catalog := r.catalog, book }.modifyWorld w
          fun x => { x with ledger := r.ledger }) := by
  refine ⟨⟨f, some m.book.number⟩, (m.book.issue f).2, rfl, ?_⟩
  rw [result_compileAt, Workshop.compile_of_ok (w := ⟨m.registry w, m.book⟩) h]

/-- **Compiling a rule of a world grows its registry only.** -/
theorem growsIn_compileAt {templates : Templates} {anchor : Anchor}
    {action : Lexicon → Resolve Formula} (haction : ∀ lx, Growing (action lx)) (m : Multiworld) :
    GrowsIn w m (Action.result (compileAt templates w anchor action) m).2 := by
  rw [result_compileAt]
  dsimp only
  generalize hW : Workshop.compile _ _ = p
  have hgrows : (m.registry w).Grows p.2.registry := by
    rw [← hW, registry_compile]
    exact haction _ _
  have hworld := fun v => world_modifyWorld
    { m with catalog := p.2.registry.catalog, book := p.2.book } w v
    fun x => { x with ledger := p.2.registry.ledger }
  refine ⟨Array.size_modify, fun v hv => ?_, ?_⟩
  · rw [hworld, if_neg fun h => hv h.1.symm]
    rfl
  · rw [Multiworld.registry, Multiworld.registry, hworld]
    split
    · exact hgrows
    · exact .of_catalog hgrows.catalog _

section Steps

variable {templates : Templates}

theorem growsIn_keeps_compileAt {anchor : Anchor} {action : Lexicon → Resolve Formula}
    (haction : ∀ lx, Growing (action lx)) (m : Multiworld) :
    Keeps (GrowsIn w m) (fun _ => True) (compileAt templates w anchor action) :=
  ⟨fun m' h => ⟨h.trans (growsIn_compileAt haction m'), fun _ _ => trivial⟩⟩

theorem growsIn_keeps_settle (m : Multiworld) (s : Subrule) :
    Keeps (GrowsIn w m) (fun _ => True) (settle templates w s) := by
  refine .bind .get fun _ _ => ?_
  split
  · exact .throw _
  · refine .bind (growsIn_keeps_compileAt (fun lx => grows_resolve lx _) m) fun guard _ => ?_
    split
    · exact .pure trivial
    · exact .modifyGet fun m' h => ⟨h.trans (.pushLocation w m' _), trivial⟩

/-- The internal location that is made for a subrule. -/
def eventLocation (w : WorldId) (s : Subrule) (parent : RegionId) (guard : Guard) : Location where
  name := s.event
  kind := eventKind
  world := w
  parent
  guard
  text := s.body.text
  item := some ⟨s.item, w⟩
  internal := true
  locked := true
  always := guard.isAlways
  never := false

theorem result_settle_of_none (templates : Templates) {s : Subrule}
    (h : m.regionNamed? w s.region = none) :
    Action.result (settle templates w s) m = (.error (.unknownRegion s.event s.region), m) := by
  rw [settle, Action.result_bind, Action.result_get]
  dsimp only
  rw [h]
  rfl

/-- The rule of a subrule is compiled, and the location made unless the rule never holds. -/
theorem result_settle_of_some (templates : Templates) {s : Subrule} {parent : RegionId}
    (h : m.regionNamed? w s.region = some parent) :
    Action.result (settle templates w s) m =
      match Action.result (compileAt templates w ⟨s.event, s.region, some eventKind⟩
        (resolve · s.body)) m with
      | (.ok guard, m') =>
        (.ok ⟨⟩, if guard.isNever then m'
          else (m'.pushLocation (eventLocation w s parent guard)).2)
      | (.error e, m') => (.error e, m') := by
  rw [settle, Action.result_bind, Action.result_get]
  dsimp only
  rw [h]
  dsimp only
  rw [Action.result_bind]
  generalize Action.result (compileAt _ _ _ _) m = p
  obtain ⟨_ | guard, m'⟩ := p
  · rfl
  · dsimp only
    cases guard.isNever <;> rfl

/-- Giving a place to a subrule grows the registry of its world only. -/
theorem growsIn_settle (templates : Templates) (w : WorldId) (m : Multiworld) (s : Subrule) :
    GrowsIn w m (Action.result (settle templates w s) m).2 :=
  ((growsIn_keeps_settle m s).run m (.refl w m)).1

theorem growsIn_connectExit (w : WorldId) (m : Multiworld) (id : ExitId) :
    GrowsIn w m (Action.result (connectExit id) m).2 := by
  have hkeeps : Keeps (GrowsIn w m) (fun _ => True) (connectExit id) := by
    refine .bind .get fun m' h => ?_
    dsimp only
    split
    · exact .throw _
    · exact .set (h.trans (.of_worlds w rfl rfl))
  exact (hkeeps.run m (.refl w m)).1

theorem growsIn_compileExit (m : Multiworld) (id : ExitId) :
    GrowsIn (m.exit id).world m (Action.result (compileExit templates id) m).2 := by
  unfold compileExit
  rw [Action.result_bind, Action.result_get]
  have hkeeps : Keeps (GrowsIn (m.exit id).world m) (fun _ => True)
      (do
        let e := m.exit id
        let anchor : Anchor := ⟨e.name, (m.region e.parent).name, none⟩
        let guard ← compileAt templates e.world anchor (resolveText · e.text)
        modify fun m => m.modifyExit id fun e => { e with guard } : Build Unit) := by
    refine .bind (growsIn_keeps_compileAt (fun lx => grows_resolveText lx _) m) fun guard _ => ?_
    exact .modifyGet fun m' h => ⟨h.trans (.of_worlds _ rfl rfl), trivial⟩
  exact (hkeeps.run m (.refl _ m)).1

theorem growsIn_compileLocation (m : Multiworld) (id : LocationId) :
    GrowsIn (m.location id).world m
      (Action.result (compileLocation templates id) m).2 := by
  unfold compileLocation
  rw [Action.result_bind, Action.result_get]
  have hkeeps : Keeps (GrowsIn (m.location id).world m) (fun _ => True)
      (do
        let l := m.location id
        let anchor : Anchor := ⟨l.name, (m.region l.parent).name, some l.kind⟩
        let guard ← compileAt templates l.world anchor (resolveText · l.text)
        modify fun m => m.modifyLocation id fun l =>
          { l with guard, always := guard.isAlways, never := guard.isNever } : Build Unit) := by
    refine .bind (growsIn_keeps_compileAt (fun lx => grows_resolveText lx _) m) fun guard _ => ?_
    exact .modifyGet fun m' h => ⟨h.trans (.of_worlds _ rfl rfl), trivial⟩
  exact (hkeeps.run m (.refl _ m)).1

/-- The worlds after the pending subrules of a world are taken out. -/
theorem result_takePending (w : WorldId) (m : Multiworld) :
    Action.result (takePending w) m = (.ok (m.world w).ledger.pending,
      m.modifyWorld w fun x => { x with ledger := { (m.world w).ledger with pending := [] } }) :=
  rfl

end Steps

/-! ### Sound registries -/

/-- What only grows registries keeps them sound. -/
theorem keeps_sound {α : Type} {act : Build α}
    (h : ∀ m, ∃ w, GrowsIn w m (Action.result act m).2) :
    Keeps (fun m => ∀ w, (m.registry w).Sound) (fun _ => True) act := by
  refine ⟨fun m hm => ⟨fun w => ?_, fun _ _ => trivial⟩⟩
  obtain ⟨v, hv⟩ := h m
  exact (hv.registries w).sound (hm w)

theorem sound_takePending (w : WorldId) (hm : ∀ v, (m.registry v).Sound) :
    ∀ v, ((Action.result (takePending w) m).2.registry v).Sound := by
  intro v
  rw [result_takePending]
  refine (hm v).extend ?_ (.refl _)
  change ((Multiworld.modifyWorld _ _ _).world v).ledger.registered = _
  rw [world_modifyWorld]
  split
  · next h => rw [h.1]; rfl
  · rfl

theorem sound_keptByCompiling : KeptByCompiling fun m => ∀ w, (m.registry w).Sound where
  connectExit id := keeps_sound fun m => ⟨default, growsIn_connectExit _ m id⟩
  compileExit _ id := keeps_sound fun m => ⟨_, growsIn_compileExit m id⟩
  compileLocation _ id := keeps_sound fun m => ⟨_, growsIn_compileLocation m id⟩

theorem sound_keptBySettling : KeptBySettling fun m => ∀ w, (m.registry w).Sound where
  takePending w := ⟨fun _ hm => ⟨sound_takePending w hm, fun _ _ => trivial⟩⟩
  settle _ w s := keeps_sound fun m => ⟨w, growsIn_settle _ w m s⟩

/-- **The registries of all worlds are sound, whatever is built and compiled.** -/
theorem Built.sound (h : m.Built) : ∀ w, (m.registry w).Sound := by
  induction h with
  | empty c => exact fun _ => .fresh c
  | @addWorld m profile _ ih => exact (SameSubrules.addWorld m profile).sound ih
  | @addRegion m w _ name provides _ ih => exact (SameSubrules.addRegion m w name provides).sound ih
  | @addExit m parent _ name target text _ ih =>
    exact (SameSubrules.of_worlds rfl (.refl _)).sound ih
  | @addLocation m parent _ name kind text _ ih => exact (SameSubrules.pushLocation m _).sound ih
  | @addEvent m parent _ name text _ ih => exact (SameSubrules.addEvent m parent name text).sound ih
  | @placeItem m id item w _ ih => exact (SameSubrules.of_worlds rfl (.refl _)).sound ih
  | @skip m id _ ih =>
    have hsame : SameSubrules m (m.skip id) := .modifyWorld m _ fun _ => ⟨rfl, rfl⟩
    exact hsame.sound ih
  | @declareItem m d _ ih =>
    have hsame : SameSubrules m (m.declareItem d).2 := .of_worlds rfl (Catalog.extends_declare _ d)
    exact hsame.sound ih
  | compileRules templates rounds _ ih =>
    exact ((keeps_compileRules sound_keptByCompiling sound_keptBySettling rounds).run _ ih).1
  | finishRules templates rounds _ ih =>
    exact ((sound_keptBySettling.finishRules rounds).run _ ih).1

end Multiworld

end Progression
