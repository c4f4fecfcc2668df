import Progression.Proofs.Foraging

/-!
# Collecting in spheres and collecting at once

An exploration that collects each item as soon as it is found forages, and so does one that
collects a whole sphere at a time.  Each ends when a sweep finds nothing.  So if further
items keep all rules true, the two end with the same visits and the same items, whatever the
candidates and their order.  In particular they agree on whether the worlds are won.  For the
same reason two explorations end alike that collect at once at the same candidates, if these
come in another order or some of them again.

## Main definitions

* `Search.ExplorationInvariant` — what the steps of an exploration keep.

## Main results

* `Search.forages_collectLocations`, `Search.forages_spheresOf` — both ways of collecting are
  foraging.
* `Search.collectSpheres_agrees` — **collecting in spheres ends as collecting at once does.**
* `Search.collectLocations_congr` — **neither the order of the candidates nor their repetition
  matters.**
-/

namespace Progression

namespace Search

variable {g : Multiworld} {manner : Manner} {ids ids' : List LocationId} {s t : Search}

/-! ### Explorations -/

/-- A sweep puts what it finds before the earlier visits. -/
theorem visited_sweep (g : Multiworld) (manner : Manner) (ids : List LocationId)
    (limit : Option Nat) (s : Search) :
    (s.sweep g manner ids limit).2.progress.visited =
      (s.sweep g manner ids limit).1.reverse ++ s.progress.visited := by
  induction ids generalizing limit s with
  | nil => rfl
  | cons id ids ih =>
    have htry := visited_tryVisit g id s
    unfold sweep
    split
    · rfl
    · split
      · next t ht =>
        rw [ht] at htry
        rw [ih, htry]
        rfl
      · next t ht =>
        rw [ht] at htry
        dsimp only
        rw [ih, progress_treat, htry, List.reverse_cons, List.append_assoc]
        rfl

theorem visited_explore (g : Multiworld) (manner : Manner) (ids : List LocationId)
    (limit : Option Nat) (s : Search) :
    (s.explore g manner ids limit).2.progress.visited =
      (s.explore g manner ids limit).1.reverse ++ s.progress.visited := by
  fun_induction explore g manner ids limit s with
  | case1 => rfl
  | case2 limit s _ t ht =>
    have hsweep := visited_sweep g manner ids limit (s.nextSphere g)
    rwa [ht, visited_nextSphere] at hsweep
  | case3 limit s _ id found t ht more t' hmore ih =>
    have hsweep := visited_sweep g manner ids limit (s.nextSphere g)
    rw [ht, visited_nextSphere] at hsweep
    rw [hmore] at ih
    rw [ih, hsweep, ← List.cons_append, List.reverse_append, List.append_assoc]

/-- What expanding, and trying and treating the candidates keep. -/
structure ExplorationInvariant (g : Multiworld) (manner : Manner) (ids : List LocationId)
    (P : Search → Prop) : Prop where
  expand : ∀ {t}, P t → P (t.nextSphere g)
  fail : ∀ {t t' id}, id ∈ ids → P t → t.tryVisit g id = (false, t') → P t'
  find : ∀ {t t' id}, id ∈ ids → P t → t.tryVisit g id = (true, t') → P (t'.treat g id manner)

namespace ExplorationInvariant

variable {P : Search → Prop}

theorem sweep (hP : ExplorationInvariant g manner ids P) (limit : Option Nat) (h : P s) :
    P (s.sweep g manner ids limit).2 := by
  induction ids generalizing limit s with
  | nil => exact h
  | cons id ids ih =>
    have hrest : ExplorationInvariant g manner ids P :=
      ⟨hP.expand, fun hid => hP.fail (List.mem_cons_of_mem _ hid),
        fun hid => hP.find (List.mem_cons_of_mem _ hid)⟩
    unfold Search.sweep
    split
    · exact h
    · split
      · next ht => exact ih hrest limit (hP.fail List.mem_cons_self h ht)
      · next ht => exact ih hrest _ (hP.find List.mem_cons_self h ht)

/-- **What its steps keep, an exploration keeps.** -/
theorem explore (hP : ExplorationInvariant g manner ids P) (limit : Option Nat) (h : P s) :
    P (s.explore g manner ids limit).2 := by
  fun_induction Search.explore g manner ids limit s with
  | case1 => exact h
  | case2 limit s _ t ht =>
    have hsweep := hP.sweep limit (hP.expand h)
    rwa [ht] at hsweep
  | case3 limit s _ id found t ht more t' hmore ih =>
    have hsweep := hP.sweep limit (hP.expand h)
    rw [ht] at hsweep
    have hrest := ih hsweep
    rwa [hmore] at hrest

end ExplorationInvariant

/-! ### Both ways forage -/

/-- Looking at candidates is foraging without collecting. -/
theorem look_invariant (hids : ids' ⊆ ids) (taken : List LocationId) :
    ExplorationInvariant g .look ids' (Forages g ids s taken) where
  expand h := h.nextSphere
  fail {t t' id} hid h ht := by
    have htry := h.tryVisit (hids hid)
    rwa [ht] at htry
  find {t t' id} hid h ht := by
    have htry := h.tryVisit (hids hid)
    rwa [ht] at htry

/-- A search that collects at once has collected wherever it has visited. -/
theorem collect_invariant : ExplorationInvariant g .collect ids fun t =>
    Forages g ids s t.progress.visited t where
  expand {t} h := by
    rw [visited_nextSphere]
    exact h.nextSphere
  fail {t t' id} hid h ht := by
    have htry := h.tryVisit hid
    rw [ht] at htry
    rwa [visited_of_tryVisit_false ht]
  find {t t' id} hid h ht := by
    have htry := h.tryVisit hid
    have hvisited := visited_tryVisit g id t
    rw [ht] at htry hvisited
    have hnew := (visited_of_tryVisit_true ht).1
    change Forages g ids s (t'.collectAt g id).progress.visited (t'.collectAt g id)
    rw [progress_collectAt, hvisited]
    exact htry.collectAt (by rw [hvisited]; exact List.mem_cons_self) hnew

theorem forages_collectLocations (hs : s.progress.visited = []) :
    Forages g ids s (s.explore g .collect ids none).2.progress.visited
      (s.explore g .collect ids none).2 := by
  refine collect_invariant.explore none ?_
  rw [hs]
  exact .start

/-- The items of a sphere may be collected after it is complete. -/
theorem Forages.collectAllAt {taken found : List LocationId} (h : Forages g ids s taken t)
    (hfound : found ⊆ t.progress.visited) (hnodup : (found.reverse ++ taken).Nodup) :
    Forages g ids s (found.reverse ++ taken) (t.collectAllAt g found) := by
  induction found generalizing taken t with
  | nil => exact h
  | cons id found ih =>
    rw [List.reverse_cons, List.append_assoc, List.singleton_append] at hnodup ⊢
    obtain ⟨hid, hfound⟩ := List.cons_subset.1 hfound
    have hnew : id ∉ taken := (List.nodup_cons.1 (List.nodup_append.1 hnodup).2.1).1
    have hcollect := h.collectAt hid hnew
    exact ih hcollect (by rwa [progress_collectAt]) hnodup

@[simp] theorem progress_collectAllAt (s : Search) (g : Multiworld) (ids : List LocationId) :
    (s.collectAllAt g ids).progress = s.progress := by
  unfold collectAllAt
  induction ids generalizing s with
  | nil => rfl
  | cons id ids ih => rw [List.foldl_cons, ih, progress_collectAt]

theorem outside_subset (sphere ids : List LocationId) : outside sphere ids ⊆ ids :=
  fun _ h => (List.mem_filter.1 h).1

/-- Between spheres a search has collected wherever it has visited. -/
theorem forages_spheresOf (hs : s.progress.visited.Nodup) (hids : ids' ⊆ ids)
    (h : Forages g ids s t.progress.visited t) :
    Forages g ids s (t.spheresOf g ids').2.progress.visited (t.spheresOf g ids').2 := by
  fun_induction spheresOf g ids' t with
  | case1 ids' t t' ht =>
    have hexplore := (look_invariant hids t.progress.visited).explore none h
    have hvisited := visited_explore g .look ids' none t
    rw [ht] at hexplore hvisited
    rw [hvisited]
    exact hexplore
  | case2 ids' t id found t' ht u sphere spheres u' hu ih =>
    have hexplore := (look_invariant hids t.progress.visited).explore none h
    have hvisited := visited_explore g .look ids' none t
    rw [ht] at hexplore hvisited
    have hnodup := hexplore.run.visited_nodup hs
    rw [hvisited] at hnodup
    have hsphere : id :: found ⊆ t'.progress.visited := by
      intro l hl
      rw [hvisited]
      exact List.mem_append_left _ (List.mem_reverse.2 hl)
    have hcollect := hexplore.collectAllAt hsphere hnodup
    rw [← hvisited] at hcollect
    have hprogress : u.progress = t'.progress := progress_collectAllAt t' g (id :: found)
    have hrest := ih (List.Subset.trans (outside_subset _ _) hids) (by rwa [hprogress])
    rwa [hu] at hrest

/-- After the last sphere everything is exhausted. -/
theorem exhausted_spheresOf (hg : g.WellFormed) (hrules : g.Growing)
    (hs : s.progress.Sound g) (ids : List LocationId) :
    Exhausted g ids (s.spheresOf g ids).2 := by
  fun_induction spheresOf g ids s with
  | case1 ids s t ht =>
    have hend := exhausted_explore hg hrules hs .look ids
    rwa [ht] at hend
  | case2 ids s id found t ht u sphere spheres u' hu ih =>
    have hrun : Run g s t := by
      have hexplore := (Run.refl (g := g) (s := s)).explore .look ids none
      rwa [ht] at hexplore
    have hvisited := visited_explore g .look ids none s
    rw [ht] at hvisited
    have hend := ih ((hrun.collectAllAt (id :: found)).sound hg hs)
    have hlater : u.progress.visited ⊆ u'.progress.visited := by
      have hspheres := (Run.refl (g := g) (s := u)).collectSpheres (outside (id :: found) ids)
      change Run g u (u.spheresOf g (outside (id :: found) ids)).2 at hspheres
      rw [hu] at hspheres
      exact hspheres.visited_suffix.subset
    rw [hu] at hend
    refine ⟨hend.regions, fun l hl age hr hp => ?_⟩
    by_cases hsphere : l ∈ id :: found
    · refine hlater ?_
      have hprogress : u.progress = t.progress := progress_collectAllAt t g (id :: found)
      rw [hprogress, hvisited]
      exact List.mem_append_left _ (List.mem_reverse.2 hsphere)
    · refine hend.locations l (List.mem_filter.2 ⟨hl, ?_⟩) age hr hp
      simpa using hsphere

/-! ### Both ways end alike -/

/-- All worlds that are won stay won with further items. -/
theorem allWorlds_won_of_atMost (h : StockAtMost s.inventories t.inventories)
    (hsize : t.inventories.size = s.inventories.size) (hs : s.allWorlds Inventory.won = true) :
    t.allWorlds Inventory.won = true := by
  unfold allWorlds at *
  rw [Array.all_eq_true] at hs ⊢
  intro i hi
  have hi' : i < s.inventories.size := hsize ▸ hi
  have hatmost := h ⟨i⟩
  simp only [inventoryOf, Array.getD, hi, hi', dif_pos] at hatmost
  exact hatmost.won (hs i hi')

section Start

variable {invs : List Inventory}

theorem keyless_start (hs : start g invs = .ok s)
    (hk : ∀ inv ∈ invs, inv.bearings.keyRings = []) : Keyless s.inventories := by
  intro w
  rw [inventories_start hs, inventoryOf, Array.getD_eq_getD_getElem?, List.getElem?_toArray]
  cases hinv : invs[w.index]? with
  | none => rfl
  | some inv => exact hk inv (List.mem_of_getElem? hinv)

theorem keyRings_initial
    (hk : ∀ w : WorldId, w.index < g.worlds.size → (g.bearings w).keyRings = []) :
    ∀ inv ∈ g.initialInventories, inv.bearings.keyRings = [] := by
  intro inv hinv
  obtain ⟨w, hw, rfl⟩ := List.mem_map.1 hinv
  exact hk w (Multiworld.mem_worldIds.1 hw)

/-- Collecting at once gives at least what there was at the start. -/
theorem stockAtMost_collect (hg : g.WellFormed) (hs : start g invs = .ok s)
    (hk : ∀ inv ∈ invs, inv.bearings.keyRings = []) (ids : List LocationId) :
    StockAtMost s.inventories (s.explore g .collect ids none).2.inventories ∧
      (s.explore g .collect ids none).2.inventories.size = s.inventories.size := by
  have hforages : Forages g ids s _ (s.explore g .collect ids none).2 :=
    forages_collectLocations (visited_start hs)
  rw [hforages.inventories_eq hg (sound_start hg hs) (keyless_start hs hk)]
  exact ⟨g.stockAtMost_gathered _ _, g.size_gathered _ _⟩

/-- The spheres of some candidates end as collecting at once does. -/
theorem spheresOf_agrees (hg : g.WellFormed) (hrules : g.Growing) (hs : start g invs = .ok s)
    (hk : ∀ inv ∈ invs, inv.bearings.keyRings = []) {ids : List LocationId}
    (hfit : StockFits (s.explore g .collect ids none).2.inventories) :
    (∀ l, l ∈ (s.spheresOf g ids).2.progress.visited ↔
        l ∈ (s.explore g .collect ids none).2.progress.visited) ∧
      (s.spheresOf g ids).2.inventories = (s.explore g .collect ids none).2.inventories := by
  have hsound := sound_start hg hs
  have hvisited := visited_start hs
  have hnodup : s.progress.visited.Nodup := hvisited ▸ .nil
  have hstart : Forages g ids s s.progress.visited s := hvisited ▸ .start
  obtain ⟨hsame, -, hinventories⟩ := Forages.agree hg hrules hsound hnodup (keyless_start hs hk)
    (forages_collectLocations hvisited) (exhausted_explore hg hrules hsound .collect ids) hfit
    (forages_spheresOf hnodup (List.Subset.refl ids) hstart)
    (exhausted_spheresOf hg hrules hsound ids)
  exact ⟨hsame, hinventories⟩

end Start

/-- **Collecting in spheres ends as collecting at once does.**  If further items keep all
rules true, no boss key comes with a key ring and no total gets too great, then for all
candidates the two visit the same locations and end with the same inventories, and the
spheres tell whether the worlds are won.  So the playthrough of the worlds tells whether they
can be won. -/
theorem collectSpheres_agrees (hg : g.Built) (hrules : g.Growing) :
    (∀ {invs : List Inventory} {s : Search}, start g invs = .ok s →
      (∀ inv ∈ invs, inv.bearings.keyRings = []) → ∀ {ids : List LocationId}, ids ≠ [] →
      StockFits (s.collectLocations g ids).inventories →
        (∀ l, (s.collectSpheres g ids).2.visited l = (s.collectLocations g ids).visited l) ∧
        (s.collectSpheres g ids).2.inventories = (s.collectLocations g ids).inventories ∧
        (s.collectSpheres g ids).1.beatable =
          (s.collectLocations g ids).canBeatGameWith g false Inventory.won) ∧
    ((∀ w : WorldId, w.index < g.worlds.size → (g.bearings w).keyRings = []) →
      ∃ s, start g g.initialInventories = .ok s ∧
        (StockFits (s.collectLocations g []).inventories →
          g.playthrough.map Playthrough.beatable = .ok (s.canBeatGame g true))) := by
  have hwell := hg.wellFormed
  constructor
  · intro invs s hs hk ids hids hfit
    have hcandidates : candidatesOf g ids = ids := by
      rw [candidatesOf, if_neg (by simpa using hids)]
    have honce : s.collectLocations g ids = (s.explore g .collect ids none).2 := by
      rw [collectLocations, hcandidates]
    rw [honce] at hfit ⊢
    obtain ⟨hvisited, hinventories⟩ := spheresOf_agrees hwell hrules hs hk hfit
    refine ⟨fun l => decide_eq_decide.2 (hvisited l), hinventories, ?_⟩
    change (s.spheresOf g ids).2.canBeatGameWith g false Inventory.won = _
    rw [canBeatGameWith, canBeatGameWith, allWorlds, allWorlds, hinventories]
    rfl
  · intro hk
    obtain ⟨s, hs⟩ := exists_start_initial g
    refine ⟨s, hs, fun hfit => ?_⟩
    have hkeys := keyRings_initial hk
    have honce : s.collectLocations g [] =
        (s.explore g .collect (progressionLocations g) none).2 := rfl
    rw [honce] at hfit
    obtain ⟨-, hinventories⟩ := spheresOf_agrees hwell hrules hs hkeys hfit
    obtain ⟨hatmost, hsize⟩ := stockAtMost_collect hwell hs hkeys (progressionLocations g)
    have hspheres : g.playthrough.map Playthrough.beatable =
        .ok ((s.spheresOf g (progressionLocations g)).2.canBeatGame g false) := by
      rw [Multiworld.playthrough, hs]
      rfl
    rw [hspheres, canBeatGame, canBeatGame, canBeatGameWith, canBeatGameWith, honce, allWorlds,
      allWorlds, allWorlds, hinventories, Bool.false_and, Bool.or_false, Bool.true_and]
    -- what is won at the start is won in the end
    refine congrArg Except.ok ?_
    cases hwon : s.inventories.all Inventory.won with
    | false => rfl
    | true => exact allWorlds_won_of_atMost hatmost hsize hwon

/-- A world with a chest that has the bow, and another one with the Triforce in a tower that
is open to those with a bow. -/
def towerWorld : Multiworld :=
  let start := (Multiworld.empty .empty).addWorld .plain
  let w := start.1
  let root := start.2.root w
  let bow := start.2.declareItem (.advancing "Bow")
  let triforce := bow.2.declareItem (.advancing "Triforce")
  let tower := triforce.2.addRegion w "Tower" .none
  let m := (tower.2.addExit root "Root -> Tower" "Tower" "Bow").2
  let chest := m.addLocation root "Chest" "Chest" "True"
  let top := chest.2.addLocation tower.1 "Tower Chest" "Chest" "item_count(Bow) >= 1"
  let m := (top.2.placeItem chest.1 bow.1 w).placeItem top.1 triforce.1 w
  (Action.result (compileRules .empty 1) m).2

theorem built_towerWorld : towerWorld.Built :=
  .compileRules .empty 1 <| .placeItem _ _ _ <| .placeItem _ _ _ <|
    .addLocation (by decide) _ _ _ <| .addLocation (by decide) _ _ _ <|
    .addExit (by decide) _ _ _ <| .addRegion (by decide) _ _ <|
    .declareItem (.advancing "Triforce") <| .declareItem (.advancing "Bow") <|
    .addWorld .plain (.empty .empty)

theorem growing_towerWorld : towerWorld.Growing where
  exits := exit_of_all (p := fun e => e.guard.formula.growing) rfl (by decide +kernel)
  locations := location_of_all (p := fun l => l.guard.formula.growing) rfl (by decide +kernel)

theorem keyless_towerWorld : ∀ w : WorldId, w.index < towerWorld.worlds.size →
    (towerWorld.bearings w).keyRings = [] := by
  have hkeys : ∀ i < towerWorld.worlds.size, (towerWorld.bearings ⟨i⟩).keyRings = [] := by
    decide +kernel
  exact fun w hw => hkeys w.index hw

/-- Where no group of items has members, all totals fit. -/
theorem stockFits_of_groups {invs invs' : Array Inventory} (h : StockAtMost invs invs')
    (hgroups : (invs.all fun inv => inv.bearings.groups.totalled.all List.isEmpty) = true) :
    StockFits invs' := by
  intro w ids hids
  have hempty := getD_of_all
    (p := fun inv : Inventory => inv.bearings.groups.totalled.all List.isEmpty)
    (d := default) rfl hgroups w.index
  rw [← (h w).bearings] at hids
  have hnil : ids = [] := List.isEmpty_iff.1 (List.all_eq_true.1 hempty ids hids)
  rw [hnil]
  exact Nat.zero_le _

/-- The tower is found in spheres, with the chests in either order. -/
theorem collectSpheres_towerWorld :
    towerWorld.Growing ∧
      (towerWorld.location ⟨1⟩).guard.formula =
        .compare .ge (.itemCount ⟨0⟩) (.literal (.int 1)) ∧
      ∃ s, start towerWorld towerWorld.initialInventories = .ok s ∧
        (∀ l, (s.collectSpheres towerWorld [⟨1⟩, ⟨0⟩]).2.visited l =
          (s.collectLocations towerWorld [⟨1⟩, ⟨0⟩]).visited l) ∧
        (s.collectSpheres towerWorld [⟨1⟩, ⟨0⟩]).2.inventories =
          (s.collectLocations towerWorld [⟨1⟩, ⟨0⟩]).inventories ∧
        (s.collectSpheres towerWorld [⟨1⟩, ⟨0⟩]).1.beatable =
          (s.collectLocations towerWorld [⟨1⟩, ⟨0⟩]).canBeatGameWith towerWorld false
            Inventory.won ∧
        towerWorld.playthrough.map Playthrough.beatable = .ok (s.canBeatGame towerWorld true) := by
  obtain ⟨hspheres, hplaythrough⟩ := collectSpheres_agrees built_towerWorld growing_towerWorld
  obtain ⟨s, hs, hplay⟩ := hplaythrough keyless_towerWorld
  have hkeys := keyRings_initial keyless_towerWorld
  have hfit : ∀ ids, StockFits (s.explore towerWorld .collect ids none).2.inventories := by
    intro ids
    refine stockFits_of_groups (stockAtMost_collect built_towerWorld.wellFormed hs hkeys ids).1 ?_
    rw [inventories_start hs]
    decide +kernel
  obtain ⟨hvisited, hinventories, hbeatable⟩ :=
    hspheres hs hkeys (List.cons_ne_nil ⟨1⟩ [⟨0⟩]) (hfit _)
  exact ⟨growing_towerWorld, by decide +kernel, s, hs, hvisited, hinventories, hbeatable,
    hplay (hfit _)⟩

/-! ### Candidates in any order -/

theorem mem_candidatesOf_congr (hsame : ∀ l, l ∈ ids ↔ l ∈ ids') (l : LocationId) :
    l ∈ candidatesOf g ids ↔ l ∈ candidatesOf g ids' := by
  have hempty : ids.isEmpty = ids'.isEmpty := by
    rw [Bool.eq_iff_iff, List.isEmpty_iff, List.isEmpty_iff, List.eq_nil_iff_forall_not_mem,
      List.eq_nil_iff_forall_not_mem]
    exact forall_congr' fun l => not_congr (hsame l)
  unfold candidatesOf
  rw [hempty]
  split
  · rfl
  · exact hsame l

/-- **Neither the order of the candidates nor their repetition matters.**  If further items
keep all rules true, no boss key comes with a key ring and no total gets too great, then two
searches that collect at once at the same candidates visit the same locations, reach the same
regions as each age and end with the same inventories, although each candidate is tried with
whatever was collected before it. -/
theorem collectLocations_congr (hg : g.Built) (hrules : g.Growing) {invs : List Inventory}
    (hs : start g invs = .ok s) (hk : ∀ inv ∈ invs, inv.bearings.keyRings = [])
    (hsame : ∀ l, l ∈ ids ↔ l ∈ ids')
    (hfit : StockFits (s.collectLocations g ids).inventories) :
    (∀ l, (s.collectLocations g ids').visited l = (s.collectLocations g ids).visited l) ∧
      (∀ age, (s.collectLocations g ids').regions age =
        (s.collectLocations g ids).regions age) ∧
      (s.collectLocations g ids').inventories = (s.collectLocations g ids).inventories := by
  have hwell := hg.wellFormed
  have hsound := sound_start hwell hs
  have hvisited := visited_start hs
  have hnodup : s.progress.visited.Nodup := hvisited ▸ .nil
  have hmem := mem_candidatesOf_congr (g := g) hsame
  have hsub : candidatesOf g ids' ⊆ candidatesOf g ids := fun l hl => (hmem l).2 hl
  have hsub' : candidatesOf g ids ⊆ candidatesOf g ids' := fun l hl => (hmem l).1 hl
  obtain ⟨hvisits, hregions, hinventories⟩ := Forages.agree hwell hrules hsound hnodup
    (keyless_start hs hk) (forages_collectLocations hvisited)
    (exhausted_explore hwell hrules hsound .collect _) hfit
    ((forages_collectLocations hvisited).mono hsub)
    ((exhausted_explore hwell hrules hsound .collect _).of_subset hsub')
  exact ⟨fun l => decide_eq_decide.2 (hvisits l), hregions, hinventories⟩

/-- In the tower, the chests may come in either order, and again. -/
theorem collectLocations_towerWorld : ∃ s,
    start towerWorld towerWorld.initialInventories = .ok s ∧
      (∀ l, (s.collectLocations towerWorld [⟨0⟩, ⟨1⟩, ⟨0⟩]).visited l =
        (s.collectLocations towerWorld [⟨1⟩, ⟨0⟩]).visited l) ∧
      (∀ age, (s.collectLocations towerWorld [⟨0⟩, ⟨1⟩, ⟨0⟩]).regions age =
        (s.collectLocations towerWorld [⟨1⟩, ⟨0⟩]).regions age) ∧
      (s.collectLocations towerWorld [⟨0⟩, ⟨1⟩, ⟨0⟩]).inventories =
        (s.collectLocations towerWorld [⟨1⟩, ⟨0⟩]).inventories := by
  obtain ⟨s, hs⟩ := exists_start_initial towerWorld
  have hkeys := keyRings_initial keyless_towerWorld
  have hsame : ∀ l : LocationId, l ∈ [⟨1⟩, ⟨0⟩] ↔ l ∈ [⟨0⟩, ⟨1⟩, (⟨0⟩ : LocationId)] := by
    intro l
    simp only [List.mem_cons, List.not_mem_nil, or_false]
    tauto
  refine ⟨s, hs, collectLocations_congr built_towerWorld growing_towerWorld hs hkeys hsame ?_⟩
  refine stockFits_of_groups (stockAtMost_collect built_towerWorld.wellFormed hs hkeys _).1 ?_
  rw [inventories_start hs]
  decide +kernel

end Search

end Progression
