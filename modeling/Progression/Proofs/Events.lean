import Progression.Proofs.Collecting
import Progression.Proofs.Lowering

/-!
# Events are collected when their rules hold

The event of a subrule is collected once, at its place, at whatever moment of an exploration
the place is found, and with the items that there are by then.  If further items keep all
rules true, the rule holds in the end as well.  On the other hand an exploration ends only
when no candidate is accessible that is not visited, and as the event can open rules, its
place is a candidate.  So the event is there in the end just when the rule holds in the end
in a region that is reached.

## Main definitions

* `Multiworld.CountsAs` — a location holds what counts as an item in a world.

## Main results

* `Search.has_collected_iff` — an item is collected just when one of the locations that have
  it is accessible in the end.
* `Search.event_collected_iff` — **the event of a subrule is collected just when its rule
  holds.**
-/

namespace Progression

open Rule

/-! ### What is gathered -/

namespace Multiworld

variable {g : Multiworld} {invs : Array Inventory} {w : WorldId} {e item : ItemId}
  {id : LocationId} {ids : List LocationId} {entry : ItemEntry}

/-- A location counts as an item in a world if it holds one there that counts as it. -/
def CountsAs (g : Multiworld) (w : WorldId) (e : ItemId) (id : LocationId) : Prop :=
  ∃ item entry, (g.location id).item = some ⟨item, w⟩ ∧ g.catalog.get? item = some entry ∧
    (Inventory.worth entry).1 = e

/-- A first copy of an item comes from a location that counts as it. -/
theorem countsAs_of_has_gather (h : (inventoryOf (g.gather id invs) w).has e 1 = true)
    (hnone : (inventoryOf invs w).has e 1 = false) : g.CountsAs w e id := by
  have absent : (inventoryOf invs w).has e 1 ≠ true := by rw [hnone]; exact Bool.false_ne_true
  unfold gather at h
  split at h
  · next item hitem =>
    split at h
    · next entry hentry =>
      rw [inventoryOf_modify] at h
      split at h
      · next hw =>
        obtain ⟨item, world⟩ := item
        obtain rfl : world = w := congrArg WorldId.mk hw.1
        exact ⟨item, entry, hitem, hentry, (Inventory.has_of_gain h).resolve_left absent⟩
      · exact absurd h absent
    · exact absurd h absent
  · exact absurd h absent

theorem exists_of_has_gathered
    (h : (inventoryOf (ids.foldr g.gather invs) w).has e 1 = true)
    (hnone : (inventoryOf invs w).has e 1 = false) : ∃ id ∈ ids, g.CountsAs w e id := by
  induction ids with
  | nil =>
    rw [List.foldr_nil, hnone] at h
    cases h
  | cons id ids ih =>
    cases hrest : (inventoryOf (ids.foldr g.gather invs) w).has e 1 with
    | true =>
      obtain ⟨id', hid', hcounts⟩ := ih hrest
      exact ⟨id', List.mem_cons_of_mem _ hid', hcounts⟩
    | false => exact ⟨id, List.mem_cons_self, countsAs_of_has_gather h hrest⟩

/-- A location gives a copy of an item that counts as itself. -/
theorem has_gather (hitem : (g.location id).item = some ⟨item, w⟩)
    (hentry : g.catalog.get? item = some entry) (hadvancement : entry.advancement = true)
    (hworth : Inventory.worth entry = (item, 1)) (hw : w.index < invs.size) :
    (inventoryOf (g.gather id invs) w).has item 1 = true := by
  unfold gather
  rw [hitem]
  dsimp only
  rw [hentry]
  dsimp only
  rw [inventoryOf_modify, if_pos ⟨rfl, hw⟩]
  exact Inventory.has_gain hadvancement hworth

theorem has_gathered (hitem : (g.location id).item = some ⟨item, w⟩)
    (hentry : g.catalog.get? item = some entry) (hadvancement : entry.advancement = true)
    (hworth : Inventory.worth entry = (item, 1)) (hw : w.index < invs.size) (hid : id ∈ ids) :
    (inventoryOf (ids.foldr g.gather invs) w).has item 1 = true := by
  obtain ⟨before, after, rfl⟩ := List.append_of_mem hid
  rw [List.foldr_append, List.foldr_cons]
  refine (g.stockAtMost_gathered before _ w).has ?_
  exact has_gather hitem hentry hadvancement hworth (by rwa [size_gathered])

theorem has_initial (g : Multiworld) (w : WorldId) (e : ItemId) :
    (inventoryOf g.initialInventories.toArray w).has e 1 = false := by
  have hzero : (inventoryOf g.initialInventories.toArray w).count e = 0 := by
    rw [inventoryOf, Array.getD_eq_getD_getElem?, List.getElem?_toArray]
    cases hinv : g.initialInventories[w.index]? with
    | none => exact Inventory.count_empty default 0 e
    | some inv =>
      obtain ⟨w', -, rfl⟩ := List.mem_map.1 (List.mem_of_getElem? hinv)
      exact Inventory.count_empty _ _ _
  rw [Inventory.has, hzero]
  rfl

end Multiworld

namespace Search

variable {g : Multiworld} {ids taken : List LocationId} {s t : Search}

/-! ### What is collected in the end -/

section Start

variable {e : ItemId} {w : WorldId} {entry : ItemEntry}

/-- A location that a world lists is a candidate if it holds what can open a rule. -/
theorem mem_progressionLocations {world : WorldId} {id : LocationId}
    (hlisted : id ∈ (g.world world).locations) (hitem : (g.location id).item = some ⟨e, w⟩)
    (hentry : g.catalog.get? e = some entry) (hadvancement : entry.advancement = true) :
    id ∈ progressionLocations g := by
  have hworld : g.world world ∈ g.worlds.toList := by
    have hlt := Multiworld.index_lt_of_listed hlisted
    have hget : g.world world = g.worlds[world.index] := by
      simp [Multiworld.world, Array.getD, hlt]
    rw [hget]
    exact Array.getElem_mem_toList hlt
  refine List.mem_filter.2 ⟨List.mem_flatMap.2 ⟨_, hworld, hlisted⟩, ?_⟩
  rw [hitem]
  change (g.catalog.get? e).any _ = true
  rw [hentry]
  exact hadvancement

/-- **An item is collected just when it can be.**  If no other item counts as it, a search that
collects all that can open a rule ends with the item if and only if one of the locations that
have it is accessible in the end. -/
theorem has_collected_iff (hg : g.WellFormed) (hrules : g.Growing)
    (hs : start g g.initialInventories = .ok s)
    (hk : ∀ w : WorldId, w.index < g.worlds.size → (g.bearings w).keyRings = [])
    (hfit : StockFits (s.collectLocations g []).inventories) (hw : w.index < g.worlds.size)
    (hentry : g.catalog.get? e = some entry) (hadvancement : entry.advancement = true)
    (hworth : Inventory.worth entry = (e, 1))
    (hcounts : ∀ id x, g.catalog.get? id = some x → (Inventory.worth x).1 = e → id = e) :
    ((s.collectLocations g []).inventory w).has e 1 = true ↔
      ∃ id ∈ progressionLocations g, (g.location id).item = some ⟨e, w⟩ ∧
        ∃ age, (g.location id).parent ∈ (s.collectLocations g []).regions age ∧
          (g.location id).passesAt (s.collectLocations g []).inventories age = true := by
  have hsound := sound_start hg hs
  have hvisited := visited_start hs
  have hkeyless := keyless_start hs (keyRings_initial hk)
  have hforages : Forages g (progressionLocations g) s _ (s.collectLocations g []) :=
    forages_collectLocations hvisited
  have hend : Exhausted g (progressionLocations g) (s.collectLocations g []) :=
    exhausted_explore hg hrules hsound .collect _
  have hheld := hforages.inventories_eq hg hsound hkeyless
  rw [inventories_start hs] at hheld
  constructor
  · intro hhas
    rw [inventory, hheld] at hhas
    obtain ⟨id, hid, item, x, hitem, hx, hsame⟩ :=
      Multiworld.exists_of_has_gathered hhas (Multiworld.has_initial g w e)
    obtain rfl := hcounts item x hx hsame
    exact ⟨id, hforages.visited_subset hvisited hid, hitem,
      hforages.accessible hg hrules hsound hkeyless hvisited hfit hid⟩
  · rintro ⟨id, hid, hitem, age, hr, hp⟩
    rw [inventory, hheld]
    refine Multiworld.has_gathered hitem hentry hadvancement hworth ?_
      (hend.locations id hid age hr hp)
    simpa [Multiworld.initialInventories, Multiworld.worldIds] using hw

end Start

/-- At its place, the rule of a subrule is judged where the subrule is. -/
theorem evaluate_of_isPlaceOf (hrules : g.Growing) {t : Task} {guard : Guard}
    (hruled : g.RuledBy t guard) {region : RegionId}
    (hregion : g.regionNamed? t.world t.subrule.region = some region) {id : LocationId}
    (hid : g.IsPlaceOf t id) (u : Search) (age : Age) :
    (g.location id).parent = region ∧
      (u.evaluate g age .none ⟨guard.formula, t.world, region⟩).1 =
        (g.location id).passesAt u.inventories age := by
  have hparent : (g.location id).parent = region := by
    have hsame := hid.region
    rw [hregion] at hsame
    exact (Option.some.inj hsame).symm
  have hpost : (⟨guard.formula, t.world, region⟩ : Post) = (g.location id).post := by
    rw [Location.post, hruled.rule id hid, hid.world, hparent]
  rw [hpost]
  exact ⟨hparent, evaluate_eq_holdsAt (hrules.location_timeless id) _⟩

/-- **The event of a subrule is collected just when its rule holds.**  If one compilation of
the worlds succeeded, further items keep all rules true, no boss key comes with a key ring and
no total gets too great, then consider a subrule that was registered with an event that is new,
and is not declared again.  If no other item counts as its item, its place keeps the item and
no other location has it, then a search that collects all that can open a rule ends with the
item if and only if the region of the subrule is reached as some age and the rule that its
body was lowered to holds there in the end. -/
theorem event_collected_iff {templates : Templates} {rounds : Nat} {c : Catalog}
    {m m₁ : Multiworld} (hm : Multiworld.BuiltOn (.empty c) m)
    (hok : Action.result (compileRules templates rounds) m = (.ok true, m₁))
    (hg : Multiworld.BuiltOn m₁ g) (hrules : g.Growing)
    (hk : ∀ w : WorldId, w.index < g.worlds.size → (g.bearings w).keyRings = [])
    {w : WorldId} {sub : Subrule} (hsub : sub ∈ (m₁.world w).ledger.registered)
    (hnew : m.catalog.size ≤ sub.item.index)
    (hkept : g.catalog.get? sub.item = m₁.catalog.get? sub.item)
    (hcounts : ∀ id e, g.catalog.get? id = some e → (Inventory.worth e).1 = sub.item →
      id = sub.item)
    (hheld : ∀ id, g.IsPlaceOf ⟨w, sub⟩ id → (g.location id).item = (m₁.location id).item)
    (hplaced : ∀ id, (g.location id).item = some ⟨sub.item, w⟩ → g.IsPlaceOf ⟨w, sub⟩ id) :
    ∃ guard region s, Multiworld.LowersTo templates rounds m ⟨w, sub⟩ guard ∧
      g.regionNamed? w sub.region = some region ∧ start g g.initialInventories = .ok s ∧
      let u := s.collectLocations g []
      (StockFits u.inventories →
        ((u.inventory w).has sub.item 1 = true ↔
          ∃ age, region ∈ u.regions age ∧
            (u.evaluate g age .none ⟨guard.formula, w, region⟩).1 = true)) := by
  have hwell := (hg.built (hm.built_of_compileRules hok)).wellFormed
  obtain ⟨guard, hlowers, hruled, hplace⟩ := Multiworld.ruledBy_of_compileRules hm hok hg hsub
  obtain ⟨entry, hentry, hadvancement, hworth⟩ :=
    Multiworld.event_of_compileRules (hm.built (.empty c)) hok hsub hnew
  rw [← hkept] at hentry
  obtain ⟨region, hregion⟩ := hruled.region
  obtain ⟨s, hs⟩ := exists_start_initial g
  refine ⟨guard, region, s, hlowers, hregion, hs, ?_⟩
  dsimp only
  intro hfit
  have hw : w.index < g.worlds.size := by
    obtain ⟨hlt, hworld, -⟩ := hwell.named _ _ _ hregion
    have hin := hwell.region_world region hlt
    rwa [hworld] at hin
  rw [has_collected_iff hwell hrules hs hk hfit hw hentry hadvancement hworth hcounts]
  constructor
  · rintro ⟨id, -, hitem, age, hr, hp⟩
    obtain ⟨hparent, heval⟩ := evaluate_of_isPlaceOf hrules hruled hregion (hplaced id hitem)
      (s.collectLocations g []) age
    refine ⟨age, hparent ▸ hr, ?_⟩
    rw [heval]
    exact hp
  · rintro ⟨age, hr, hp⟩
    have hnever : guard.isNever = false := by
      rw [Guard.isNever, beq_eq_false_iff_ne]
      intro hformula
      rw [hformula] at hp
      cases hp
    obtain ⟨id, hid, hitem⟩ := hplace hnever
    rw [← hheld id hid] at hitem
    obtain ⟨hparent, heval⟩ := evaluate_of_isPlaceOf hrules hruled hregion hid
      (s.collectLocations g []) age
    rw [heval] at hp
    exact ⟨id, mem_progressionLocations (hruled.listed id hid) hitem hentry hadvancement, hitem,
      age, hparent ▸ hr, hp⟩

/-! ### A bow for the den -/

/-- Worlds without key rings and without items that are totalled. -/
structure PlainWorlds (g : Multiworld) : Prop where
  keyRings : ∀ i < g.worlds.size, (g.bearings ⟨i⟩).keyRings = []
  totalled : (g.initialInventories.toArray.all fun inv =>
    inv.bearings.groups.totalled.all List.isEmpty) = true
  nonempty : 0 < g.worlds.size

namespace PlainWorlds

theorem placeItem (h : PlainWorlds g) (id : LocationId) (item : ItemId) (w : WorldId) :
    PlainWorlds (g.placeItem id item w) :=
  ⟨h.keyRings, h.totalled, h.nonempty⟩

theorem stockFits (h : PlainWorlds g) (hg : g.Built) (hs : start g g.initialInventories = .ok s) :
    StockFits (s.collectLocations g []).inventories := by
  have hkeyless := keyRings_initial fun w hw => h.keyRings w.index hw
  refine stockFits_of_groups (stockAtMost_collect hg.wellFormed hs hkeyless _).1 ?_
  rw [inventories_start hs]
  exact h.totalled

end PlainWorlds

/-- A den and two chests, one of which asks for the bow in the den. -/
def denWorld : Multiworld :=
  let start := (Multiworld.empty .empty).addWorld .plain
  let w := start.1
  let root := start.2.root w
  let m := (start.2.declareItem (.advancing "Bow")).2
  let m := (m.addRegion w "Den" .none).2
  let m := (m.addExit root "Root -> Den" "Den" "True").2
  let m := (m.addLocation root "Chest" "Chest" "True").2
  (m.addLocation root "Gift" "Chest" "at('Den', Bow)").2

/-- The worlds after their compilation. -/
def compiledDen : Multiworld := (Action.result (compileRules .empty 2) denWorld).2

/-- The compiled worlds, with the bow in the chest. -/
def denWithBow : Multiworld := compiledDen.placeItem ⟨0⟩ ⟨0⟩ ⟨0⟩

/-- The subrule of the den. -/
def denSubrule : Subrule := ⟨"Den", .name "Bow", "Den Subrule 1", ⟨1⟩⟩

theorem builtOn_denWorld : Multiworld.BuiltOn (.empty .empty) denWorld :=
  .addLocation (by decide) _ _ _ <| .addLocation (by decide) _ _ _ <|
    .addExit (by decide) _ _ _ <| .addRegion (by decide) _ _ <|
    .declareItem (.advancing "Bow") <| .addWorld .plain .refl

theorem built_denWithBow : denWithBow.Built :=
  .placeItem _ _ _ <| .compileRules .empty 2 <| builtOn_denWorld.built (.empty .empty)

/-- Worlds in which the place of the den keeps its event, which no other location has. -/
structure EventfulDen (g : Multiworld) : Prop where
  itself : g.catalog.get? denSubrule.item = compiledDen.catalog.get? denSubrule.item ∧
    ∀ i < g.catalog.size, ∀ e ∈ g.catalog.get? ⟨i⟩,
      (Inventory.worth e).1 = denSubrule.item → (⟨i⟩ : ItemId) = denSubrule.item
  place : g.IsPlaceOf ⟨⟨0⟩, denSubrule⟩ ⟨2⟩
  event : (∀ i < g.locations.size, (g.location ⟨i⟩).internal = true →
      (g.location ⟨i⟩).item = (compiledDen.location ⟨i⟩).item) ∧
    ∀ i < g.locations.size, (g.location ⟨i⟩).item = some ⟨denSubrule.item, ⟨0⟩⟩ → i = 2

/-- The den is compiled, and the event of its subrule is new. -/
theorem compiles_denWorld :
    (Action.result (compileRules .empty 2) denWorld).1 = .ok true ∧
      denSubrule ∈ (compiledDen.world ⟨0⟩).ledger.registered ∧
      denWorld.catalog.size ≤ denSubrule.item.index ∧
      ∀ p ∈ Multiworld.compileGuards .empty 2 denWorld, p.2.formula = .item ⟨0⟩ := by
  decide +kernel

theorem plain_denWithBow : PlainWorlds denWithBow :=
  ⟨by decide +kernel, by decide +kernel, by decide +kernel⟩

theorem eventfulDen_denWithBow : EventfulDen denWithBow where
  itself := by decide +kernel
  place := ⟨by decide +kernel, by decide +kernel, by decide +kernel, by decide +kernel⟩
  event := by decide +kernel

theorem growing_denWithBow : denWithBow.Growing where
  exits := exit_of_all (p := fun e => e.guard.formula.growing) rfl (by decide +kernel)
  locations := location_of_all (p := fun l => l.guard.formula.growing) rfl (by decide +kernel)

/-- In the den the event is collected just when the den is reached and there is a bow. -/
theorem event_collected_denWithBow : ∃ guard region s,
    Multiworld.LowersTo .empty 2 denWorld ⟨⟨0⟩, denSubrule⟩ guard ∧
      denWithBow.regionNamed? ⟨0⟩ "Den" = some region ∧
      start denWithBow denWithBow.initialInventories = .ok s ∧
      let u := s.collectLocations denWithBow []
      ((u.inventory ⟨0⟩).has denSubrule.item 1 = true ↔
        ∃ age, region ∈ u.regions age ∧
          (u.evaluate denWithBow age .none ⟨guard.formula, ⟨0⟩, region⟩).1 = true) := by
  obtain ⟨hok, hsub, hnew, -⟩ := compiles_denWorld
  obtain ⟨⟨hkept, hcounts⟩, hplace, hinternal, honly⟩ := eventfulDen_denWithBow
  have hheld : ∀ id, denWithBow.IsPlaceOf ⟨⟨0⟩, denSubrule⟩ id →
      (denWithBow.location id).item = (compiledDen.location id).item := by
    intro id hid
    refine hinternal id.index (Multiworld.index_lt_of_ne_default fun hdefault => ?_) hid.internal
    have habsurd := hid.internal
    rw [hdefault] at habsurd
    cases habsurd
  have hplaced : ∀ id, (denWithBow.location id).item = some ⟨denSubrule.item, ⟨0⟩⟩ →
      denWithBow.IsPlaceOf ⟨⟨0⟩, denSubrule⟩ id := by
    intro id hid
    have honly := honly id.index (Multiworld.index_lt_of_item hid) hid
    obtain rfl : id = ⟨2⟩ := congrArg LocationId.mk honly
    exact hplace
  obtain ⟨guard, region, s, hlowers, hregion, hs, hiff⟩ :=
    event_collected_iff builtOn_denWorld (Prod.ext hok rfl) (.placeItem ⟨0⟩ ⟨0⟩ ⟨0⟩ .refl)
      growing_denWithBow (fun w hw => plain_denWithBow.keyRings w.index hw) hsub hnew hkept
      (fun id e he => hcounts id.index (Array.getElem?_eq_some_iff.1 he).1 e he) hheld hplaced
  have hfit := plain_denWithBow.stockFits built_denWithBow hs
  exact ⟨guard, region, s, hlowers, hregion, hs, hiff hfit⟩

/-- Worlds with an open den and a bow in the open, but without the event of the den. -/
structure OpenDen (g : Multiworld) : Prop where
  itself : ∀ i < g.catalog.size, ∀ e ∈ g.catalog.get? ⟨i⟩, (Inventory.worth e).1 = ⟨i⟩
  den : g.regionNamed? ⟨0⟩ "Den" = some ⟨1⟩ ∧ ⟨0⟩ ∈ (g.region (g.root ⟨0⟩)).exits ∧
    (g.exit ⟨0⟩).connected = some ⟨1⟩ ∧ (g.exit ⟨0⟩).post.formula = .const true
  chest : ⟨0⟩ ∈ progressionLocations g ∧ (g.location ⟨0⟩).item = some ⟨⟨0⟩, ⟨0⟩⟩ ∧
    (g.location ⟨0⟩).parent = g.root ⟨0⟩ ∧ (g.location ⟨0⟩).post.formula = .const true
  bow : (g.catalog.get? ⟨0⟩).any (fun bow =>
    bow.advancement && Inventory.worth bow == (⟨0⟩, 1)) = true
  event : g.catalog.get? denSubrule.item = compiledDen.catalog.get? denSubrule.item ∧
    ∀ i < g.locations.size, (g.location ⟨i⟩).item ≠ some ⟨denSubrule.item, ⟨0⟩⟩

/-- The same worlds after a second bow was put in the place of the event. -/
def denOverwritten : Multiworld := denWithBow.placeItem ⟨2⟩ ⟨0⟩ ⟨0⟩

theorem built_denOverwritten : denOverwritten.Built := built_denWithBow.placeItem ⟨2⟩ ⟨0⟩ ⟨0⟩

theorem growing_denOverwritten : denOverwritten.Growing :=
  growing_denWithBow.placeItem ⟨2⟩ ⟨0⟩ ⟨0⟩

theorem plain_denOverwritten : PlainWorlds denOverwritten :=
  plain_denWithBow.placeItem ⟨2⟩ ⟨0⟩ ⟨0⟩

theorem openDen_denOverwritten : OpenDen denOverwritten where
  itself := by decide +kernel
  den := by decide +kernel
  chest := by decide +kernel
  bow := by decide +kernel
  event := by decide +kernel

section Overwritten

variable {s : Search} (hs : start denOverwritten denOverwritten.initialInventories = .ok s)

include hs

theorem has_collected_denOverwritten {e : ItemId} {entry : ItemEntry}
    (hentry : denOverwritten.catalog.get? e = some entry)
    (hadvancement : entry.advancement = true) (hworth : Inventory.worth entry = (e, 1)) :
    ((s.collectLocations denOverwritten []).inventory ⟨0⟩).has e 1 = true ↔
      ∃ id ∈ progressionLocations denOverwritten,
        (denOverwritten.location id).item = some ⟨e, ⟨0⟩⟩ ∧
        ∃ age, (denOverwritten.location id).parent ∈
            (s.collectLocations denOverwritten []).regions age ∧
          (denOverwritten.location id).passesAt
            (s.collectLocations denOverwritten []).inventories age = true := by
  have hplain := plain_denOverwritten
  refine has_collected_iff built_denOverwritten.wellFormed growing_denOverwritten hs
    (fun w hw => hplain.keyRings w.index hw) (hplain.stockFits built_denOverwritten hs)
    hplain.nonempty hentry hadvancement hworth fun id x hx hsame => ?_
  have hlt : id.index < denOverwritten.catalog.size := (Array.getElem?_eq_some_iff.1 hx).1
  exact (openDen_denOverwritten.itself id.index hlt x hx).symm.trans hsame

theorem root_reached_denOverwritten :
    denOverwritten.root ⟨0⟩ ∈ (s.collectLocations denOverwritten []).regions .adult := by
  have hleast := isLeast_start built_denOverwritten.wellFormed
    growing_denOverwritten.exit_timeless hs .adult
  have hforages : Forages denOverwritten (progressionLocations denOverwritten) s _
      (s.collectLocations denOverwritten []) :=
    forages_collectLocations (visited_start hs)
  have hroot := hleast.1.1 ⟨0⟩ plain_denOverwritten.nonempty
  exact (hforages.run.grows.reached .adult).contains _ hroot

theorem den_reached_denOverwritten :
    ⟨1⟩ ∈ (s.collectLocations denOverwritten []).regions .adult := by
  obtain ⟨-, hexit, hconnected, hopen⟩ := openDen_denOverwritten.den
  have hwell := built_denOverwritten.wellFormed
  have hend : Exhausted denOverwritten (progressionLocations denOverwritten)
      (s.collectLocations denOverwritten []) :=
    exhausted_explore hwell growing_denOverwritten (sound_start hwell hs) .collect _
  refine hend.regions .adult _ (root_reached_denOverwritten hs) ⟨0⟩ hexit ⟨1⟩ hconnected ?_
  rw [Exit.passesAt, hopen]
  rfl

theorem bow_collected_denOverwritten :
    ((s.collectLocations denOverwritten []).inventory ⟨0⟩).has ⟨0⟩ 1 = true := by
  obtain ⟨hlisted, hitem, hparent, hopen⟩ := openDen_denOverwritten.chest
  obtain ⟨bow, hbow, hadvances⟩ := (Option.any_eq_true _ _).1 openDen_denOverwritten.bow
  rw [Bool.and_eq_true, beq_iff_eq] at hadvances
  refine (has_collected_denOverwritten hs hbow hadvances.1 hadvances.2).2
    ⟨⟨0⟩, hlisted, hitem, .adult, ?_, ?_⟩
  · rw [hparent]
    exact root_reached_denOverwritten hs
  · rw [Location.passesAt, hopen]
    rfl

end Overwritten

/-- It matters that the place keeps the event.  Where it was replaced, the den is reached and
there is a bow, but nobody collects the event. -/
theorem event_not_collected_denOverwritten :
    (Action.result (compileRules .empty 2) denWorld).1 = .ok true ∧
      Multiworld.BuiltOn compiledDen denOverwritten ∧ denOverwritten.Growing ∧
      (∀ i < denOverwritten.worlds.size, (denOverwritten.bearings ⟨i⟩).keyRings = []) ∧
      denSubrule ∈ (compiledDen.world ⟨0⟩).ledger.registered ∧
      denWorld.catalog.size ≤ denSubrule.item.index ∧
      denOverwritten.catalog.get? denSubrule.item = compiledDen.catalog.get? denSubrule.item ∧
      (∀ i < denOverwritten.catalog.size, ∀ e ∈ denOverwritten.catalog.get? ⟨i⟩,
        (Inventory.worth e).1 = denSubrule.item → i = denSubrule.item.index) ∧
      (∀ i < denOverwritten.locations.size,
        (denOverwritten.location ⟨i⟩).item ≠ some ⟨denSubrule.item, ⟨0⟩⟩) ∧
      ∃ guard s, Multiworld.LowersTo .empty 2 denWorld ⟨⟨0⟩, denSubrule⟩ guard ∧
        denOverwritten.regionNamed? ⟨0⟩ "Den" = some ⟨1⟩ ∧
        start denOverwritten denOverwritten.initialInventories = .ok s ∧
        let u := s.collectLocations denOverwritten []
        StockFits u.inventories ∧ (u.inventory ⟨0⟩).has denSubrule.item 1 = false ∧
          ⟨1⟩ ∈ u.regions .adult ∧
          (u.evaluate denOverwritten .adult .none ⟨guard.formula, ⟨0⟩, ⟨1⟩⟩).1 = true := by
  obtain ⟨hok, hsub, hnew, hformula⟩ := compiles_denWorld
  obtain ⟨hkept, habsent⟩ := openDen_denOverwritten.event
  have hon : Multiworld.BuiltOn compiledDen denOverwritten :=
    .placeItem ⟨2⟩ ⟨0⟩ ⟨0⟩ (.placeItem ⟨0⟩ ⟨0⟩ ⟨0⟩ .refl)
  obtain ⟨guard, hlowers, -⟩ :=
    Multiworld.ruledBy_of_compileRules builtOn_denWorld (Prod.ext hok rfl) hon hsub
  obtain ⟨s, hs⟩ := exists_start_initial denOverwritten
  have hfit := plain_denOverwritten.stockFits built_denOverwritten hs
  refine ⟨hok, hon, growing_denOverwritten, plain_denOverwritten.keyRings, hsub, hnew, hkept, ?_,
    habsent, guard, s, hlowers, openDen_denOverwritten.den.1, hs, hfit, ?_,
    den_reached_denOverwritten hs, ?_⟩
  · intro i hi e he hworth
    have hitself := openDen_denOverwritten.itself i hi e he
    exact congrArg ItemId.index (hitself.symm.trans hworth)
  · -- no location holds the event, so it cannot come from one
    obtain ⟨entry, hentry, hadvancement, hworth⟩ :=
      Multiworld.event_of_compileRules (builtOn_denWorld.built (.empty .empty))
        (Prod.ext hok rfl) hsub hnew
    rw [← Bool.not_eq_true,
      has_collected_denOverwritten hs (hkept.trans hentry) hadvancement hworth]
    rintro ⟨id, -, hitem, -⟩
    exact habsent id.index (Multiworld.index_lt_of_item hitem) hitem
  · -- the rule of the event asks for the bow, which lies in the open at the root
    rw [hformula _ ((hlowers guard).2 rfl)]
    exact bow_collected_denOverwritten hs

end Search

end Progression
