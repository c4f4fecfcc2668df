import Progression.Proofs.LeastReach

/-!
# Worlds that are explored side by side

All worlds share one queue, but a region is found only by means of its own world: by its
exits, its inventory and its times of day.  So what another world holds does not change what
there is to be found in a world.  It may still change when it is found.  A pass tries the
exits that failed again when some world gets a new time of day at its root, and a pass that
ends without trying them again leaves exits that would open.  With other items in another
world the same pass tries them once more and goes on.

## Main definitions

* `Search.RestsIn` — no queued exit of a world opens.
* `Search.knownIn`, `Search.timesIn` — what is known of a world, and all there is elsewhere.

## Main results

* `Search.closed_of_restsIn` — what a search at rest knows of a world is closed, for all
  inventories that agree there.
* `Search.discoveries_alike_iff` — **of two searches with the same items in a world, one of
  them at rest in it, the other one has found the same regions of the world just when it is
  at rest there as well.**
-/

namespace Progression

open Rule

/-! ### What rules depend on -/

section Depends

variable {invs invs' : Array Inventory} {age : Age}

/-- Rules are evaluated with the inventory of their world alone. -/
theorem Post.situation_congr {p : Post} (h : inventoryOf invs p.world = inventoryOf invs' p.world)
    (times : TimeOfDay) : p.situation invs age times = p.situation invs' age times := by
  rw [Post.situation, h, Post.situation]

/-- Whether an exit opens depends on the times at the region that it leaves. -/
theorem Exit.opensGiven_congr {e : Exit} {at? at?' : TimeOfDay → RegionId → Bool}
    (h : inventoryOf invs e.world = inventoryOf invs' e.world)
    (hat : ∀ t, at? t e.parent = at?' t e.parent) :
    e.opensGiven invs age at? = e.opensGiven invs' age at?' := by
  have hsituation : e.post.situation invs age .none = e.post.situation invs' age .none :=
    Post.situation_congr h .none
  rw [Exit.opensGiven, Exit.opensGiven, hsituation]
  refine Formula.holdsGiven_congr_of_givenAt (fun times => ?_) _
  exact hat times

theorem Exit.passesAt_congr {e : Exit} (h : inventoryOf invs e.world = inventoryOf invs' e.world)
    (times : TimeOfDay) : e.passesAt invs age times = e.passesAt invs' age times := by
  rw [Exit.passesAt, Post.situation_congr (p := e.post) h, Exit.passesAt]

end Depends

namespace Search

variable {g : Multiworld} {s : Search} {w : WorldId}

/-! ### At rest in a world -/

/-- The exits of a world that are queued do not lead anywhere new. -/
def RestsIn (g : Multiworld) (w : WorldId) (s : Search) : Prop :=
  ∀ age, ∀ id ∈ (s.progress.frontier age).queue, (g.exit id).world = w →
    Blocked g s.inventories age (s.progress.reached age) id

/-- A search that is stalled is at rest everywhere. -/
theorem Stalled.restsIn (hg : g.WellFormed) (hs : s.progress.Sound g) (h : s.Stalled g) :
    s.RestsIn g w :=
  fun age id hid _ => (stalled_iff hg hs).1 h age id hid

/-- After an expansion a search is at rest in a world where no rule tests the time of day. -/
theorem restsIn_nextSphere
    (h : ∀ id, (g.exit id).world = w → (g.exit id).post.formula.timeless = true) (s : Search) :
    (s.nextSphere g).RestsIn g w := by
  intro age id hid hw target _ _
  rw [frontier_nextSphere] at hid
  exact evaluate_of_mem_expandFrom _ [] _ (List.forall_mem_nil _) id hid (h id hw) _

/-! ### What is known of a world -/

/-- The regions that a search has found in a world, and all regions of other worlds. -/
def knownIn (g : Multiworld) (w : WorldId) (s : Search) (age : Age) (r : RegionId) : Bool :=
  (s.progress.reached age).contains r || decide ((g.region r).world ≠ w)

/-- The times at which the regions of a world are reachable, and all times elsewhere. -/
def timesIn (g : Multiworld) (w : WorldId) (s : Search) (age : Age) (t : TimeOfDay)
    (r : RegionId) : Bool :=
  (s.reachableAt g age r t).1 || decide ((g.region r).world ≠ w)

section Known

variable {age : Age} {t : TimeOfDay} {r : RegionId}

theorem knownIn_of_world (h : (g.region r).world = w) :
    s.knownIn g w age r = (s.progress.reached age).contains r := by
  rw [knownIn, decide_eq_false (not_not_intro h), Bool.or_false]

theorem knownIn_of_ne (h : (g.region r).world ≠ w) : s.knownIn g w age r = true := by
  rw [knownIn, decide_eq_true h, Bool.or_true]

theorem timesIn_of_world (h : (g.region r).world = w) :
    s.timesIn g w age t r = (s.reachableAt g age r t).1 := by
  rw [timesIn, decide_eq_false (not_not_intro h), Bool.or_false]

theorem timesIn_of_ne (h : (g.region r).world ≠ w) : s.timesIn g w age t r = true := by
  rw [timesIn, decide_eq_true h, Bool.or_true]

end Known

/-- Only regions that are in use give any time of day. -/
theorem index_lt_of_provides {r : RegionId} {t : TimeOfDay}
    (h : (g.region r).provides.meets t = true) : r.index < g.regions.size := by
  by_contra hlt
  have hdefault : g.region r = default := by
    rw [Multiworld.region, Array.getD_eq_getD_getElem?, Array.getElem?_eq_none (Nat.not_lt.1 hlt)]
    rfl
  rw [hdefault] at h
  exact Bool.false_ne_true ((TimeOfDay.meets_none t).symm.trans h)

/-- **What a search at rest knows of a world is closed**, for all inventories with the same
items in that world. -/
theorem closed_of_restsIn (hg : g.WellFormed) (hs : s.progress.Sound g) (h : s.RestsIn g w)
    {invs : Array Inventory} (hw : inventoryOf invs w = inventoryOf s.inventories w) (age : Age) :
    Closed g invs age (s.knownIn g w age) (s.timesIn g w age) := by
  have hx : Explored g (s.progress.frontier age).queue (s.progress.reached age) := hs age
  have arrives : ∀ {t r}, t.isSingle = true → ((s.reachableAt g age r t).1 = true ↔
      Arrives g s.inventories age t (s.progress.reached age) r) :=
    fun ht => (reachableAt_spec hg ht hx.distinct _).1
  -- an exit into the world leaves a region of the world, and its rule is evaluated there
  have source : ∀ {r id target}, id ∈ (g.region r).exits → (g.exit id).connected = some target →
      (g.region target).world = w →
      (g.region r).world = w ∧ (g.exit id).parent = r ∧ (g.exit id).world = w := by
    intro r id target hid hc hworld
    have hexit : (g.exit id).world = w := by rw [← (hg.connected id target hc).2, hworld]
    have hlisted := hg.exit_listed r id hid
    exact ⟨by rw [← hlisted.2.2, hexit], hlisted.2.1, hexit⟩
  constructor
  case root =>
    intro v hv
    by_cases hworld : (g.region (g.root v)).world = w
    · rw [knownIn_of_world hworld]
      exact hx.roots v hv
    · exact knownIn_of_ne hworld
  case exit =>
    intro r hr id hid target hc hopens
    by_cases hworld : (g.region target).world = w
    · obtain ⟨hrw, hparent, hexit⟩ := source hid hc hworld
      rw [knownIn_of_world hrw] at hr
      rw [knownIn_of_world hworld]
      -- else the exit is queued, and it would open
      cases hn : (s.progress.reached age).contains target with
      | true => rfl
      | false =>
        have hblocked := h age id (hx.queued r hr id hid target hc hn) hexit target hc hn
        rw [(evaluate_spec hg hx.distinct (exit_post_times hg id) .none).1] at hblocked
        have hsame : (g.exit id).opensGiven invs age (s.timesIn g w age) =
            (g.exit id).opensGiven s.inventories age fun t r => (s.reachableAt g age r t).1 :=
          Exit.opensGiven_congr (hexit ▸ hw) fun t => timesIn_of_world (hparent ▸ hrw)
        rw [hsame] at hopens
        exact hblocked.symm.trans hopens
    · exact knownIn_of_ne hworld
  case provided =>
    intro r hr hnr t ht hp
    by_cases hworld : (g.region r).world = w
    · rw [knownIn_of_world hworld] at hr
      rw [timesIn_of_world hworld]
      exact (arrives ht).2 (.known (hx.provided r hr hnr t hp))
    · exact timesIn_of_ne hworld
  case rootProvided =>
    intro r hr hnr t ht hp
    have hroot : (g.region (g.root (g.region r).world)).world = (g.region r).world :=
      hg.root_world _ (hg.region_world r (index_lt_of_provides hp))
    by_cases hworld : (g.region r).world = w
    · rw [knownIn_of_world hworld] at hr
      rw [timesIn_of_world (hroot.trans hworld)]
      exact (arrives ht).2 (.known (hx.rootProvided r hr hnr t hp))
    · exact timesIn_of_ne fun h => hworld (hroot.symm.trans h)
  case spread =>
    intro t r ht hr id hid target hc htarget hp
    by_cases hworld : (g.region target).world = w
    · obtain ⟨hrw, -, hexit⟩ := source hid hc hworld
      rw [timesIn_of_world hrw] at hr
      rw [knownIn_of_world hworld] at htarget
      rw [timesIn_of_world hworld]
      have hinv : inventoryOf invs (g.exit id).world =
          inventoryOf s.inventories (g.exit id).world := hexit ▸ hw
      rw [Exit.passesAt_congr hinv] at hp
      exact (arrives ht).2 (.through ((arrives ht).1 hr) hid hc htarget hp)
    · exact timesIn_of_ne hworld

/-! ### Two searches -/

section Pair

variable {invs invs' : List Inventory} {s' : Search}

theorem positiveBeyond_knownIn (hg : g.WellFormed)
    (hpos : ∀ id, (g.exit id).world = w → (g.exit id).guard.formula.positive = true) (age : Age) :
    PositiveBeyond g (s.knownIn g w age) := by
  intro id target hc hn
  by_cases hworld : (g.region target).world = w
  · exact hpos id ((hg.connected id target hc).2.symm.trans hworld)
  · rw [knownIn_of_ne hworld] at hn
    cases hn

/-- **A search at rest in a world has found all that a search with the same items in that
world can find there.** -/
theorem within_of_restsIn (hg : g.WellFormed)
    (hpos : ∀ id, (g.exit id).world = w → (g.exit id).guard.formula.positive = true)
    (hs : start g invs = .ok s) (hs' : s'.progress.Sound g) (hrests : s'.RestsIn g w)
    (hw : inventoryOf invs.toArray w = inventoryOf s'.inventories w) (n : Nat) (age : Age) :
    Within (((nextSphere · g)^[n] s).progress.reached age).contains
      (((nextSphere · g)^[n] s).progress.reached age).hasTime (s'.knownIn g w age)
        (s'.timesIn g w age) :=
  within_spheres_of_positiveBeyond hg (positiveBeyond_knownIn hg hpos age)
    (closed_of_restsIn hg hs' hrests hw age) hs n

/-- A search that has found all regions of a world that another one at rest knows is at
rest in it as well. -/
theorem restsIn_of_contains (hg : g.WellFormed)
    (hpos : ∀ id, (g.exit id).world = w → (g.exit id).guard.formula.positive = true)
    (hs : start g invs = .ok s) (hs' : s'.progress.Sound g) (hrests : s'.RestsIn g w)
    (hw : inventoryOf invs.toArray w = inventoryOf s'.inventories w) {n : Nat}
    (hall : ∀ age r, (g.region r).world = w → (s'.progress.reached age).contains r = true →
      (((nextSphere · g)^[n] s).progress.reached age).contains r = true) :
    ((nextSphere · g)^[n] s).RestsIn g w := by
  intro age id hid hexit target hc hn
  have hinvs : ((nextSphere · g)^[n] s).inventories = invs.toArray := by
    rw [inventories_spheres, inventories_start hs]
  have hx := sound_spheres hg (sound_start hg hs) n age
  have hclosed := closed_of_restsIn hg hs' hrests hw age
  have hwithin := within_of_restsIn hg hpos hs hs' hrests hw n age
  have hworld : (g.region target).world = w := (hg.connected id target hc).2.trans hexit
  -- an exit that opens leads to what the other search knows
  refine Bool.eq_false_iff.2 fun hopen => ?_
  rw [hinvs] at hopen
  obtain ⟨r, hr, hlisted⟩ := hx.listed id hid
  have htarget : s'.knownIn g w age target = true :=
    hclosed.exit r (hwithin.reached r hr) id hlisted target hc
      (hclosed.opensGiven hg hx.distinct hwithin (hpos id hexit) hopen)
  rw [knownIn_of_world hworld] at htarget
  rw [hall age target hworld htarget] at hn
  cases hn

/-- **Another world's items do not change what there is to be found in a world, but how soon
it is found.**  Two searches start with the same items in a world, whose rules have no negated
tests of the time of day.  Once one of them is at rest in the world, the other one has found
the same regions of it just when it is at rest there as well.  Both come to rest, at once if
no rule of the world tests the time of day. -/
theorem discoveries_alike_iff (hg : g.Built) {invs invs' : List Inventory}
    (hs : start g invs = .ok s) (hs' : start g invs' = .ok s')
    (hw : inventoryOf invs.toArray w = inventoryOf invs'.toArray w)
    (hpos : ∀ id, (g.exit id).world = w → (g.exit id).guard.formula.positive = true) :
    (∀ n, ((nextSphere · g)^[n] s').RestsIn g w →
      ((∀ age r, (g.region r).world = w →
          (((nextSphere · g)^[n] s).progress.reached age).contains r =
            (((nextSphere · g)^[n] s').progress.reached age).contains r) ↔
        ((nextSphere · g)^[n] s).RestsIn g w)) ∧
      (∃ m, ∀ n, m ≤ n → ((nextSphere · g)^[n] s).RestsIn g w ∧
        ((nextSphere · g)^[n] s').RestsIn g w) ∧
      ((∀ id, (g.exit id).world = w → (g.exit id).guard.formula.timeless = true) →
        ∀ n, ((nextSphere · g)^[n] s).RestsIn g w ∧ ((nextSphere · g)^[n] s').RestsIn g w) := by
  have hg := hg.wellFormed
  have sound : ∀ {invs s}, start g invs = .ok s → ∀ n, ((nextSphere · g)^[n] s).progress.Sound g :=
    fun hs => sound_spheres hg (sound_start hg hs)
  have inventories : ∀ {invs s}, start g invs = .ok s → ∀ n,
      ((nextSphere · g)^[n] s).inventories = invs.toArray := by
    intro invs s hs n
    rw [inventories_spheres, inventories_start hs]
  refine ⟨fun n hrests' => ⟨fun hsame => ?_, fun hrests age r hworld => ?_⟩, ?_, ?_⟩
  · refine restsIn_of_contains hg hpos hs (sound hs' n) hrests' (inventories hs' n ▸ hw) ?_
    intro age r hworld hr
    rwa [hsame age r hworld]
  · have hforth := (within_of_restsIn hg hpos hs (sound hs' n) hrests'
      (inventories hs' n ▸ hw) n age).reached r
    have hback := (within_of_restsIn hg hpos hs' (sound hs n) hrests
      (inventories hs n ▸ hw.symm) n age).reached r
    rw [knownIn_of_world hworld] at hforth hback
    exact Bool.eq_iff_iff.2 ⟨hforth, hback⟩
  · -- both stall, and stay stalled
    have eventually : ∀ {invs s}, start g invs = .ok s →
        ∃ m, ∀ n, m ≤ n → ((nextSphere · g)^[n] s).RestsIn g w := by
      intro invs s hs
      obtain ⟨m, hm⟩ := exists_stalled g s
      refine ⟨m, fun n hmn => ?_⟩
      obtain ⟨k, rfl⟩ := Nat.exists_eq_add_of_le' hmn
      refine Stalled.restsIn hg (sound hs _) ?_
      rw [Function.iterate_add_apply]
      exact hm.spheres hg (sound hs m) k
    obtain ⟨m, hm⟩ := eventually hs
    obtain ⟨m', hm'⟩ := eventually hs'
    exact ⟨max m m', fun n hn => ⟨hm n (by omega), hm' n (by omega)⟩⟩
  · intro htimeless n
    have atOnce : ∀ {invs s}, start g invs = .ok s → ((nextSphere · g)^[n] s).RestsIn g w := by
      intro invs s hs
      rw [spheres_of_start hs, Function.iterate_succ_apply']
      exact restsIn_nextSphere htimeless _
    exact ⟨atOnce hs, atOnce hs'⟩

end Pair

/-- Two worlds.  The crypt of the first one opens at night, once the gate is found and the
night has spread to it by way of the yard.  The roof of the second one, where it is day, is
open to those with a bow. -/
def cryptAndRoof : Multiworld :=
  let profile := { Profile.plain with timeMatters := true }
  let first := (Multiworld.empty .empty).addWorld profile
  let second := first.2.addWorld profile
  let v := first.1
  let w := second.1
  let root := second.2.root v
  let m := (second.2.addRegion v "Dawn" .atDay).2
  let m := (m.addRegion v "Dusk" .atNight).2
  let gate := m.addRegion v "Gate" .none
  let path := gate.2.addRegion v "Path" .none
  let yard := path.2.addRegion v "Yard" .none
  let m := (yard.2.addRegion v "Crypt" .none).2
  let hall := m.addRegion w "Hall" .none
  let m := (hall.2.addRegion w "Roof" .atDay).2
  let m := (m.addExit root "Root -> Dawn" "Dawn" "True").2
  let m := (m.addExit root "Root -> Dusk" "Dusk" "True").2
  let m := (m.addExit root "Root -> Gate" "Gate" "at_day").2
  let m := (m.addExit root "Root -> Path" "Path" "True").2
  let m := (m.addExit path.1 "Path -> Yard" "Yard" "True").2
  let m := (m.addExit yard.1 "Yard -> Gate" "Gate" "True").2
  let m := (m.addExit gate.1 "Gate -> Crypt" "Crypt" "at_dampe_time").2
  let m := (m.addExit (second.2.root w) "Root -> Hall" "Hall" "True").2
  let m := (m.addExit hall.1 "Hall -> Roof" "Roof" "Bow").2
  (Action.result (compileRules .empty 1) m).2

theorem built_cryptAndRoof : cryptAndRoof.Built :=
  .compileRules .empty 1 <|
    .addExit (by decide) _ _ _ <| .addExit (by decide) _ _ _ <|
    .addExit (by decide) _ _ _ <| .addExit (by decide) _ _ _ <|
    .addExit (by decide) _ _ _ <| .addExit (by decide) _ _ _ <|
    .addExit (by decide) _ _ _ <| .addExit (by decide) _ _ _ <|
    .addExit (by decide) _ _ _ <|
    .addRegion (by decide) _ _ <| .addRegion (by decide) _ _ <|
    .addRegion (by decide) _ _ <| .addRegion (by decide) _ _ <|
    .addRegion (by decide) _ _ <| .addRegion (by decide) _ _ <|
    .addRegion (by decide) _ _ <| .addRegion (by decide) _ _ <|
    .addWorld _ <| .addWorld _ (.empty _)

/-- The second world starts with a bow. -/
def withBow : List Inventory :=
  match cryptAndRoof.catalog.get? ⟨0⟩ with
  | some bow => cryptAndRoof.initialInventories.modify 1 fun inv => inv.collect bow
  | none => cryptAndRoof.initialInventories

/-- The first world starts with what it has otherwise. -/
theorem inventoryOf_withBow : inventoryOf cryptAndRoof.initialInventories.toArray ⟨0⟩ =
    inventoryOf withBow.toArray ⟨0⟩ := by
  unfold inventoryOf withBow
  split
  · simp [Array.getD_eq_getD_getElem?]
  · rfl

/-- In the end the same is found in the first world, whether or not the second one has a
bow. -/
theorem discoveries_cryptAndRoof :
    withBow.map (fun inv => inv.has ⟨0⟩ 1) = [false, true] ∧
      ∃ s s', start cryptAndRoof cryptAndRoof.initialInventories = .ok s ∧
        start cryptAndRoof withBow = .ok s' ∧
          ∃ m, ∀ n, m ≤ n → ∀ age r, (cryptAndRoof.region r).world = ⟨0⟩ →
            (((nextSphere · cryptAndRoof)^[n] s).progress.reached age).contains r =
              (((nextSphere · cryptAndRoof)^[n] s').progress.reached age).contains r := by
  obtain ⟨s, hs⟩ : ∃ s, start cryptAndRoof cryptAndRoof.initialInventories = .ok s :=
    exists_start (by decide +kernel)
  obtain ⟨s', hs'⟩ : ∃ s', start cryptAndRoof withBow = .ok s' := exists_start (by decide +kernel)
  obtain ⟨hiff, ⟨m, hm⟩, -⟩ := discoveries_alike_iff built_cryptAndRoof hs hs' inventoryOf_withBow
    fun id _ => positive_of_all (by decide +kernel) id
  refine ⟨by decide +kernel, s, s', hs, hs', m, fun n hn age r hr => ?_⟩
  obtain ⟨hrests, hrests'⟩ := hm n hn
  exact (hiff n hrests').2 hrests age r hr

end Search

end Progression
