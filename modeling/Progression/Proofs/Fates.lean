import Mathlib.Data.List.Count
import Mathlib.Data.List.Nodup
import Progression.Proofs.Places
import Progression.Proofs.Rounds

/-!
# What becomes of the subrules

A round takes all pending subrules of a world out of its ledger before it gives places to
them one by one.  An error ends the round: the subrule that it comes from and those behind
it have been taken out, and they stay registered, so no later rule makes them pending
again.  They are lost, whatever is compiled afterwards.  No other subrule is: once a
compilation succeeds, each of them has its place, or its rule was found never to hold.

## Main definitions

* `Fate` — what can become of a subrule that is taken out.
* `Multiworld.compileFates` — the fates that a compilation brings.
* `Multiworld.History` — what building and compiling can make, with the fates on the way.
* `Multiworld.Accounted` — every registered subrule is pending, or at hand, or has its fate.

## Main results

* `Multiworld.Built.exists_history` — whatever is built has a history.
* `Multiworld.History.accounted` — the subrules are accounted for, whatever is built and
  compiled.
* `Multiworld.settled_iff_not_lost` — **after a compilation that succeeds, a registered
  subrule has its place or was dropped just when no error before has lost it.**
-/

namespace Progression

open Rule

/-- What becomes of a subrule that is taken out of the pending ones. -/
inductive Fate where
  /-- It gets its place. -/
  | placed
  /-- Its rule can never hold, so it gets none. -/
  | dropped
  /-- An error ends the work on it, or comes before it. -/
  | lost
  deriving DecidableEq

namespace Multiworld

/-! ### The fates of a compilation

They follow the work that brings them, the latest first. -/

/-- What becomes of a subrule that is to get a place. -/
def fateOf (templates : Templates) (t : Task) (m : Multiworld) : Fate :=
  match (subruleResult templates t m).1 with
  | .ok guard => if guard.isNever then .dropped else .placed
  | .error _ => .lost

/-- What becomes of the subrules of a world that are to get places one after another. -/
def settlingFates (templates : Templates) (w : WorldId) :
    List Subrule → Multiworld → List (Task × Fate)
  | [], _ => []
  | s :: ss, m =>
    match Action.result (settle templates w s) m with
    | (.ok _, m') => settlingFates templates w ss m' ++ [(⟨w, s⟩, fateOf templates ⟨w, s⟩ m)]
    | (.error _, _) => (s :: ss).map fun s => (⟨w, s⟩, .lost)

/-- The fates that a number of rounds in a world bring. -/
def roundsFates (templates : Templates) (w : WorldId) : Nat → Multiworld → List (Task × Fate)
  | 0, _ => []
  | rounds + 1, m =>
    let pending := (m.world w).ledger.pending
    if pending.isEmpty then []
    else
      let fates := settlingFates templates w pending (m.emptied w)
      match Action.result (pending.forM (settle templates w)) (m.emptied w) with
      | (.ok _, m') => roundsFates templates w rounds m' ++ fates
      | (.error _, _) => fates

/-- The fates that such rounds bring in several worlds. -/
def worldsFates (templates : Templates) (rounds : Nat) :
    List WorldId → Multiworld → List (Task × Fate)
  | [], _ => []
  | w :: ws, m =>
    let fates := roundsFates templates w rounds m
    match Action.result (settleRounds templates w rounds) m with
    | (.ok true, m') => worldsFates templates rounds ws m' ++ fates
    | (_, _) => fates

/-- The fates that giving places to all pending subrules brings. -/
def finishFates (templates : Templates) (rounds : Nat) (m : Multiworld) : List (Task × Fate) :=
  worldsFates templates rounds m.worldIds m

/-- The fates that a compilation brings. -/
def compileFates (templates : Templates) (rounds : Nat) (m : Multiworld) : List (Task × Fate) :=
  match Action.result (compileSpots templates) m with
  | (.ok _, m') => finishFates templates rounds m'
  | (.error _, _) => []

/-! ### Accounts of all subrules -/

section Accounts

variable {templates : Templates} {m m' : Multiworld} {w : WorldId} {rounds : Nat}
  {hand : List Task} {fates : List (Task × Fate)} {replaced : List LocationId}

/-- The registered subrules of all worlds are pending, or at hand, or have met one fate
each, and the internal locations are the places of those that got one. -/
structure Accounted (m : Multiworld) (hand : List Task) (fates : List (Task × Fate))
    (replaced : List LocationId) : Prop where
  count : ∀ t : Task, (m.world t.world).ledger.registered.count t.subrule =
    (m.world t.world).ledger.pending.count t.subrule + hand.count t +
      (fates.map Prod.fst).count t
  placed : ∀ t, (t, Fate.placed) ∈ fates → m.HasPlace replaced t
  place : ∀ id, (m.location id).internal = true →
    ∃ t, (t, Fate.placed) ∈ fates ∧ m.IsPlaceOf t id

namespace Accounted

/-- New subrules are pending. -/
theorem of_grows (h : Accounted m hand fates replaced)
    (hr : ∀ v, (m.registry v).Grows (m'.registry v)) (hp : SamePlaces replaced m m') :
    Accounted m' hand fates replaced where
  count t := by
    obtain ⟨new, hreg, hpend⟩ := (hr t.world).added
    have hcount := h.count t
    dsimp only [registry] at hreg hpend
    rw [hreg, hpend, List.count_append, List.count_append, List.count_reverse]
    omega
  placed t ht := hp.hasPlace (h.placed t ht)
  place id hid := by
    obtain ⟨t, ht, hplace⟩ := h.place id ((hp.internal id).symm.trans hid)
    exact ⟨t, ht, hp.isPlaceOf hplace⟩

theorem of_sameSubrules (h : Accounted m hand fates replaced) (hs : SameSubrules m m')
    (hp : SamePlaces replaced m m') : Accounted m' hand fates replaced :=
  h.of_grows hs.registries hp

theorem of_growsIn (h : Accounted m hand fates replaced) (hg : GrowsIn w m m')
    (hp : SamePlaces replaced m m') : Accounted m' hand fates replaced :=
  h.of_grows hg.registries hp

theorem replace (h : Accounted m hand fates replaced) (id : LocationId) :
    Accounted m hand fates (id :: replaced) where
  count := h.count
  placed t ht := (h.placed t ht).mono (List.subset_cons_self id replaced)
  place := h.place

/-- The pending subrules of a world are taken into the hand. -/
theorem emptied (h : Accounted m [] fates replaced) (w : WorldId) :
    Accounted (m.emptied w) ((m.world w).ledger.pending.map (Task.mk w)) fates replaced := by
  have hsame : SamePlaces replaced m (m.emptied w) := .modifyWorld m w fun _ => rfl
  constructor
  case count =>
    rintro ⟨v, s⟩
    have hcount := h.count ⟨v, s⟩
    rw [List.count_nil] at hcount
    dsimp only at hcount ⊢
    rw [ledger_emptied]
    by_cases hv : v = w
    · have hhand := List.count_map_of_injective (m.world v).ledger.pending (Task.mk v)
        (fun a b hab => (Task.mk.inj hab).2) s
      rw [if_pos hv, ← hv, hhand, List.count_nil]
      dsimp only
      omega
    · have hhand : ((m.world w).ledger.pending.map (Task.mk w)).count ⟨v, s⟩ = 0 := by
        rw [List.count_eq_zero]
        intro hmem
        obtain ⟨s', -, heq⟩ := List.mem_map.1 hmem
        exact hv (Task.mk.inj heq).1.symm
      rw [if_neg hv, hhand]
      exact hcount
  case placed => exact fun t ht => hsame.hasPlace (h.placed t ht)
  case place =>
    intro id hid
    obtain ⟨t, ht, hplace⟩ := h.place id hid
    exact ⟨t, ht, hsame.isPlaceOf hplace⟩

/-- The subrules at hand are lost. -/
theorem lose (h : Accounted m hand fates replaced) :
    Accounted m [] (hand.map (fun t => (t, Fate.lost)) ++ fates) replaced where
  count t := by
    have hlost : (hand.map fun t => (t, Fate.lost)).map Prod.fst = hand := by
      rw [List.map_map]
      exact List.map_id hand
    have hcount := h.count t
    rw [List.map_append, List.count_append, hlost, List.count_nil]
    omega
  placed t ht := by
    rcases List.mem_append.1 ht with ht | ht
    · obtain ⟨_, -, heq⟩ := List.mem_map.1 ht
      cases heq
    · exact h.placed t ht
  place id hid := by
    obtain ⟨t, ht, hplace⟩ := h.place id hid
    exact ⟨t, List.mem_append_right _ ht, hplace⟩

/-- A subrule at hand is dropped. -/
theorem drop {t : Task} (h : Accounted m (t :: hand) fates replaced) :
    Accounted m hand ((t, .dropped) :: fates) replaced where
  count u := by
    have hcount := h.count u
    rw [List.count_cons] at hcount
    rw [List.map_cons, List.count_cons]
    dsimp only
    omega
  placed u hu := by
    rcases List.mem_cons.1 hu with heq | hu
    · cases heq
    · exact h.placed u hu
  place id hid := by
    obtain ⟨u, hu, hplace⟩ := h.place id hid
    exact ⟨u, List.mem_cons_of_mem _ hu, hplace⟩

/-- A subrule at hand gets its place. -/
theorem place_eventLocation {s : Subrule} {parent : RegionId} {guard : Guard}
    (h : Accounted m (⟨w, s⟩ :: hand) fates replaced)
    (hregion : m.regionNamed? w s.region = some parent) :
    Accounted (m.pushLocation (eventLocation w s parent guard)).2 hand
      ((⟨w, s⟩, .placed) :: fates) replaced := by
  have hsame := SameSubrules.pushLocation m (eventLocation w s parent guard)
  constructor
  case count =>
    intro u
    have hcount := h.count u
    rw [List.count_cons] at hcount
    rw [hsame.registered, hsame.pending, List.map_cons, List.count_cons]
    dsimp only
    omega
  case placed =>
    intro u hu
    rcases List.mem_cons.1 hu with heq | hu
    · cases heq
      exact hasPlace_eventLocation hregion
    · exact (h.placed u hu).pushLocation _
  case place =>
    intro id hid
    rw [location_pushLocation] at hid
    split at hid
    · next hnew =>
      -- the new location is the place of the subrule
      have hself : id = ⟨m.locations.size⟩ := congrArg LocationId.mk hnew
      rw [hself]
      exact ⟨⟨w, s⟩, List.mem_cons_self, isPlaceOf_eventLocation hregion⟩
    · obtain ⟨u, hu, hplace⟩ := h.place id hid
      exact ⟨u, List.mem_cons_of_mem _ hu, hplace.pushLocation _⟩

/-- **Every subrule that is settled meets its fate.** -/
theorem settle {s : Subrule} {u : Unit} (h : Accounted m (⟨w, s⟩ :: hand) fates replaced)
    (hs : Action.result (Progression.settle templates w s) m = (.ok u, m')) :
    Accounted m' hand ((⟨w, s⟩, fateOf templates ⟨w, s⟩ m) :: fates) replaced := by
  rcases settle_cases templates replaced ⟨w, s⟩ m with ⟨e, m₁, he, -⟩ |
    ⟨guard, m₁, parent, hcompile, hsame, hregion, hresult⟩
  · rw [he] at hs
    cases hs
  · rw [hresult] at hs
    obtain ⟨-, rfl⟩ := Prod.mk.inj hs
    have hgrows : GrowsIn w m (subruleResult templates ⟨w, s⟩ m).2 :=
      growsIn_compileAt (fun lx => grows_resolve lx _) m
    rw [hcompile] at hgrows
    have h₁ := h.of_growsIn hgrows hsame
    rw [fateOf, hcompile]
    dsimp only
    cases guard.isNever with
    | true => exact h₁.drop
    | false => exact h₁.place_eventLocation hregion

/-! ### Whole rounds -/

theorem settleAll (templates : Templates) {ss : List Subrule}
    (h : Accounted m (ss.map (Task.mk w)) fates replaced) :
    Accounted (Action.result (ss.forM (Progression.settle templates w)) m).2 []
      (settlingFates templates w ss m ++ fates) replaced := by
  induction ss generalizing m fates with
  | nil => exact h
  | cons s ss ih =>
    change Accounted (Action.result (Progression.settle templates w s >>= fun _ =>
      ss.forM (Progression.settle templates w)) m).2 _ _ _
    rw [Action.result_bind, settlingFates]
    cases hs : Action.result (Progression.settle templates w s) m with
    | mk r m₁ =>
      cases r with
      | ok u =>
        have hrest := ih (h.settle hs)
        dsimp only
        rw [List.append_assoc]
        exact hrest
      | error e =>
        -- the subrules behind are lost with this one
        have hgrows := growsIn_settle templates w m s
        rw [hs] at hgrows
        have hsame : SamePlaces replaced m m₁ := by
          rcases settle_cases templates replaced ⟨w, s⟩ m with ⟨e', m', he, hsame⟩ |
            ⟨guard, m', parent, -, -, -, hok⟩
          · rw [hs] at he
            obtain ⟨-, rfl⟩ := Prod.mk.inj he
            exact hsame
          · rw [hs] at hok
            cases hok
        have hlost := (h.of_growsIn hgrows hsame).lose
        rw [List.map_map] at hlost
        exact hlost

theorem settleRounds (templates : Templates) (w : WorldId) (rounds : Nat)
    (h : Accounted m [] fates replaced) :
    Accounted (Action.result (Progression.settleRounds templates w rounds) m).2 []
      (roundsFates templates w rounds m ++ fates) replaced := by
  induction rounds generalizing m fates with
  | zero => exact h
  | succ rounds ih =>
    have hall := (h.emptied w).settleAll templates
    rw [result_settleRounds_succ, roundsFates]
    dsimp only
    split
    · next hnil =>
      rw [emptied_of_nil (List.isEmpty_iff.1 hnil)]
      exact h
    · cases hround : Action.result ((m.world w).ledger.pending.forM
          (Progression.settle templates w)) (m.emptied w) with
      | mk r m₁ =>
        rw [hround] at hall
        cases r with
        | ok u =>
          dsimp only
          rw [List.append_assoc]
          exact ih hall
        | error e => exact hall

theorem settleWorlds {ws : List WorldId} (h : Accounted m [] fates replaced) :
    Accounted (Action.result (Progression.settleWorlds templates rounds ws) m).2 []
      (worldsFates templates rounds ws m ++ fates) replaced := by
  induction ws generalizing m fates with
  | nil => exact h
  | cons w ws ih =>
    have hrounds := h.settleRounds templates w rounds
    rw [Progression.settleWorlds, Action.result_bind, worldsFates]
    cases hw : Action.result (Progression.settleRounds templates w rounds) m with
    | mk r m₁ =>
      rw [hw] at hrounds
      cases r with
      | error e => exact hrounds
      | ok done =>
        cases done with
        | false => exact hrounds
        | true =>
          dsimp only
          rw [List.append_assoc]
          exact ih hrounds

theorem finishRules (h : Accounted m [] fates replaced) :
    Accounted (Action.result (Progression.finishRules templates rounds) m).2 []
      (finishFates templates rounds m ++ fates) replaced := by
  rw [result_finishRules, finishFates]
  exact h.settleWorlds

theorem keptByCompiling (fates : List (Task × Fate)) (replaced : List LocationId) :
    KeptByCompiling fun m => Accounted m [] fates replaced where
  connectExit id := ⟨fun m h =>
    ⟨h.of_growsIn (growsIn_connectExit default m id) (samePlaces_connectExit m id),
      fun _ _ => trivial⟩⟩
  compileExit _ id := ⟨fun m h =>
    ⟨h.of_growsIn (growsIn_compileExit m id) (samePlaces_compileExit m id),
      fun _ _ => trivial⟩⟩
  compileLocation _ id := ⟨fun m h =>
    ⟨h.of_growsIn (growsIn_compileLocation m id) (samePlaces_compileLocation m id),
      fun _ _ => trivial⟩⟩

theorem compileSpots (templates : Templates) (h : Accounted m [] fates replaced) :
    Accounted (Action.result (Multiworld.compileSpots templates) m).2 [] fates replaced :=
  ((keptByCompiling fates replaced).compileSpots.run m h).1

theorem compileRules (h : Accounted m [] fates replaced) :
    Accounted (Action.result (Progression.compileRules templates rounds) m).2 []
      (compileFates templates rounds m ++ fates) replaced := by
  have hspots := h.compileSpots templates
  rw [result_compileRules, compileFates]
  cases hcompile : Action.result (Multiworld.compileSpots templates) m with
  | mk r m₁ =>
    rw [hcompile] at hspots
    cases r with
    | error e => exact hspots
    | ok u => exact hspots.finishRules

end Accounted

end Accounts

/-! ### Whatever is built -/

/-- What building and compiling can make, with the fates of the subrules so far and the
locations whose items were put in by hand. -/
inductive History : Multiworld → List (Task × Fate) → List LocationId → Prop where
  | empty (c : Catalog) : History (.empty c) [] []
  | addWorld {m fates replaced} (profile : Profile) (h : History m fates replaced) :
    History (m.addWorld profile).2 fates replaced
  | addRegion {m fates replaced} {w : WorldId} (hw : w.index < m.worlds.size) (name : String)
    (provides : TimeOfDay) (h : History m fates replaced) :
    History (m.addRegion w name provides).2 fates replaced
  | addExit {m fates replaced} {parent : RegionId} (hp : parent.index < m.regions.size)
    (name target text : String) (h : History m fates replaced) :
    History (m.addExit parent name target text).2 fates replaced
  | addLocation {m fates replaced} {parent : RegionId} (hp : parent.index < m.regions.size)
    (name kind text : String) (h : History m fates replaced) :
    History (m.addLocation parent name kind text).2 fates replaced
  | addEvent {m fates replaced} {parent : RegionId} (hp : parent.index < m.regions.size)
    (name text : String) (h : History m fates replaced) :
    History (m.addEvent parent name text).2 fates replaced
  | placeItem {m fates replaced} (id : LocationId) (item : ItemId) (w : WorldId)
    (h : History m fates replaced) : History (m.placeItem id item w) fates (id :: replaced)
  | skip {m fates replaced} (id : LocationId) (h : History m fates replaced) :
    History (m.skip id) fates replaced
  | declareItem {m fates replaced} (d : ItemDef) (h : History m fates replaced) :
    History (m.declareItem d).2 fates replaced
  | compileRules {m fates replaced} (templates : Templates) (rounds : Nat)
    (h : History m fates replaced) :
    History (Action.result (Progression.compileRules templates rounds) m).2
      (compileFates templates rounds m ++ fates) replaced
  | finishRules {m fates replaced} (templates : Templates) (rounds : Nat)
    (h : History m fates replaced) :
    History (Action.result (Progression.finishRules templates rounds) m).2
      (finishFates templates rounds m ++ fates) replaced

section Histories

variable {templates : Templates} {m m' : Multiworld} {w : WorldId} {rounds : Nat}
  {fates : List (Task × Fate)} {replaced : List LocationId}

theorem History.built (h : History m fates replaced) : m.Built := by
  induction h with
  | empty c => exact .empty c
  | addWorld profile _ ih => exact ih.addWorld profile
  | addRegion hw name provides _ ih => exact ih.addRegion hw name provides
  | addExit hp name target text _ ih => exact ih.addExit hp name target text
  | addLocation hp name kind text _ ih => exact ih.addLocation hp name kind text
  | addEvent hp name text _ ih => exact ih.addEvent hp name text
  | placeItem id item w _ ih => exact ih.placeItem id item w
  | skip id _ ih => exact ih.skip id
  | declareItem d _ ih => exact ih.declareItem d
  | compileRules templates rounds _ ih => exact ih.compileRules templates rounds
  | finishRules templates rounds _ ih => exact ih.finishRules templates rounds

/-- Whatever is built has a history. -/
theorem Built.exists_history (h : m.Built) : ∃ fates replaced, History m fates replaced := by
  induction h with
  | empty c => exact ⟨_, _, .empty c⟩
  | addWorld profile _ ih =>
    obtain ⟨_, _, h⟩ := ih
    exact ⟨_, _, h.addWorld profile⟩
  | addRegion hw name provides _ ih =>
    obtain ⟨_, _, h⟩ := ih
    exact ⟨_, _, h.addRegion hw name provides⟩
  | addExit hp name target text _ ih =>
    obtain ⟨_, _, h⟩ := ih
    exact ⟨_, _, h.addExit hp name target text⟩
  | addLocation hp name kind text _ ih =>
    obtain ⟨_, _, h⟩ := ih
    exact ⟨_, _, h.addLocation hp name kind text⟩
  | addEvent hp name text _ ih =>
    obtain ⟨_, _, h⟩ := ih
    exact ⟨_, _, h.addEvent hp name text⟩
  | placeItem id item w _ ih =>
    obtain ⟨_, _, h⟩ := ih
    exact ⟨_, _, h.placeItem id item w⟩
  | skip id _ ih =>
    obtain ⟨_, _, h⟩ := ih
    exact ⟨_, _, h.skip id⟩
  | declareItem d _ ih =>
    obtain ⟨_, _, h⟩ := ih
    exact ⟨_, _, h.declareItem d⟩
  | compileRules templates rounds _ ih =>
    obtain ⟨_, _, h⟩ := ih
    exact ⟨_, _, h.compileRules templates rounds⟩
  | finishRules templates rounds _ ih =>
    obtain ⟨_, _, h⟩ := ih
    exact ⟨_, _, h.finishRules templates rounds⟩

/-- The subrules are accounted for, whatever is built and compiled. -/
theorem History.accounted (h : History m fates replaced) : Accounted m [] fates replaced := by
  induction h with
  | empty c =>
    refine ⟨fun t => ?_, fun t ht => ?_, fun id hid => ?_⟩
    · rfl
    · cases ht
    · cases hid
  | @addWorld m _ _ profile _ ih =>
    exact ih.of_sameSubrules (.addWorld m profile) (.addWorld m profile)
  | @addRegion m _ _ w _ name provides _ ih =>
    exact ih.of_sameSubrules (.addRegion m w name provides) (.addRegion m w name provides)
  | @addExit m _ _ parent _ name target text _ ih =>
    exact ih.of_sameSubrules (.of_worlds rfl (.refl _)) (.addExit m parent name target text)
  | @addLocation m _ _ parent _ name kind text _ ih =>
    exact ih.of_sameSubrules (.pushLocation m _) (.pushLocation m rfl)
  | @addEvent m _ _ parent _ name text _ ih =>
    exact ih.of_sameSubrules (.addEvent m parent name text) (.addEvent m parent name text)
  | @placeItem m _ _ id item w _ ih =>
    refine (ih.replace id).of_sameSubrules (.of_worlds rfl (.refl _)) ?_
    exact .placeItem m List.mem_cons_self item w
  | @skip m _ _ id _ ih =>
    exact ih.of_sameSubrules (.modifyWorld m _ fun _ => ⟨rfl, rfl⟩)
      (.modifyWorld m _ fun _ => rfl)
  | @declareItem m _ _ d _ ih =>
    exact ih.of_sameSubrules (.of_worlds rfl (Catalog.extends_declare _ d)) (.of_worlds rfl rfl)
  | compileRules templates rounds _ ih => exact ih.compileRules
  | finishRules templates rounds _ ih => exact ih.finishRules

/-! ### After a success -/

/-- Nothing is lost where no error comes up. -/
theorem not_lost_of_settle {s : Subrule} {u : Unit}
    (h : Action.result (settle templates w s) m = (.ok u, m')) :
    fateOf templates ⟨w, s⟩ m ≠ .lost := by
  rcases settle_cases templates [] ⟨w, s⟩ m with ⟨e, m₁, he, -⟩ | ⟨guard, m₁, -, hcompile, -⟩
  · rw [h] at he
    cases he
  · rw [fateOf, hcompile]
    dsimp only
    cases guard.isNever with
    | true => nofun
    | false => nofun

theorem not_lost_of_settleAll {ss : List Subrule} {u : Unit}
    (h : Action.result (ss.forM (settle templates w)) m = (.ok u, m')) (t : Task) :
    (t, .lost) ∉ settlingFates templates w ss m := by
  induction ss generalizing m with
  | nil => exact List.not_mem_nil
  | cons s ss ih =>
    change Action.result (settle templates w s >>= fun _ => ss.forM (settle templates w)) m = _
      at h
    rw [Action.result_bind] at h
    rw [settlingFates]
    cases hs : Action.result (settle templates w s) m with
    | mk r m₁ =>
      rw [hs] at h
      cases r with
      | error e => cases h
      | ok u =>
        intro ht
        rcases List.mem_append.1 ht with ht | ht
        · exact ih h ht
        · have hfate := congrArg Prod.snd (List.mem_singleton.1 ht)
          exact not_lost_of_settle hs hfate.symm

theorem not_lost_of_settleRounds {done : Bool}
    (h : Action.result (settleRounds templates w rounds) m = (.ok done, m')) (t : Task) :
    (t, .lost) ∉ roundsFates templates w rounds m := by
  induction rounds generalizing m with
  | zero => exact List.not_mem_nil
  | succ rounds ih =>
    rw [result_settleRounds_succ] at h
    rw [roundsFates]
    dsimp only
    split at h
    · next hnil =>
      rw [if_pos hnil]
      exact List.not_mem_nil
    · next hne =>
      rw [if_neg hne]
      cases hround : Action.result ((m.world w).ledger.pending.forM (settle templates w))
          (m.emptied w) with
      | mk r m₁ =>
        rw [hround] at h
        cases r with
        | error e => cases h
        | ok u =>
          intro ht
          rcases List.mem_append.1 ht with ht | ht
          · exact ih h ht
          · exact not_lost_of_settleAll hround t ht

theorem not_lost_of_settleWorlds {ws : List WorldId} {done : Bool}
    (h : Action.result (settleWorlds templates rounds ws) m = (.ok done, m')) (t : Task) :
    (t, .lost) ∉ worldsFates templates rounds ws m := by
  induction ws generalizing m with
  | nil => exact List.not_mem_nil
  | cons w ws ih =>
    rw [settleWorlds, Action.result_bind] at h
    rw [worldsFates]
    cases hw : Action.result (settleRounds templates w rounds) m with
    | mk r m₁ =>
      rw [hw] at h
      cases r with
      | error e => cases h
      | ok settled =>
        cases settled with
        | false => exact not_lost_of_settleRounds hw t
        | true =>
          intro ht
          rcases List.mem_append.1 ht with ht | ht
          · exact ih h ht
          · exact not_lost_of_settleRounds hw t ht

theorem not_lost_of_compileRules {done : Bool}
    (h : Action.result (compileRules templates rounds) m = (.ok done, m')) (t : Task) :
    (t, .lost) ∉ compileFates templates rounds m := by
  rw [result_compileRules] at h
  rw [compileFates]
  cases hspots : Action.result (compileSpots templates) m with
  | mk r m₁ =>
    rw [hspots] at h
    cases r with
    | error e => cases h
    | ok u => exact not_lost_of_settleWorlds h t

/-! ### Each subrule has its fate -/

/-- Where nothing is pending or at hand, a registered subrule has met a fate. -/
theorem Accounted.exists_fate (h : Accounted m [] fates replaced) {s : Subrule}
    (hpending : (m.world w).ledger.pending = []) (hs : s ∈ (m.world w).ledger.registered) :
    ∃ f, (⟨w, s⟩, f) ∈ fates := by
  have hcount := h.count ⟨w, s⟩
  have hregistered := List.count_pos_iff.2 hs
  dsimp only at hcount
  rw [hpending, List.count_nil, List.count_nil] at hcount
  have hmem : (⟨w, s⟩ : Task) ∈ fates.map Prod.fst := List.count_pos_iff.1 (by omega)
  obtain ⟨⟨t, f⟩, hf, rfl⟩ := List.mem_map.1 hmem
  exact ⟨f, hf⟩

/-- Only registered subrules meet a fate. -/
theorem Accounted.registered (h : Accounted m [] fates replaced) {t : Task} {f : Fate}
    (hf : (t, f) ∈ fates) : t.subrule ∈ (m.world t.world).ledger.registered := by
  have hcount := h.count t
  have hmem : 0 < (fates.map Prod.fst).count t :=
    List.count_pos_iff.2 (List.mem_map.2 ⟨_, hf, rfl⟩)
  exact List.count_pos_iff.1 (by omega)

/-- No subrule is registered twice, so none meets two fates. -/
theorem Accounted.nodup (h : Accounted m [] fates replaced)
    (hsound : ∀ v, (m.registry v).Sound) : (fates.map Prod.fst).Nodup := by
  rw [List.nodup_iff_count_le_one]
  intro u
  have honce : (m.world u.world).ledger.registered.Nodup :=
    .of_map _ (hsound u.world).numbered.nodup
  have hle := List.nodup_iff_count_le_one.1 honce u.subrule
  have hcount := h.count u
  omega

theorem Accounted.fate_unique (h : Accounted m [] fates replaced)
    (hsound : ∀ v, (m.registry v).Sound) {t : Task} {f f' : Fate} (hf : (t, f) ∈ fates)
    (hf' : (t, f') ∈ fates) : f = f' :=
  congrArg Prod.snd (List.inj_on_of_nodup_map (h.nodup hsound) hf hf' rfl)

/-- The place of a subrule is that of no other one. -/
theorem IsPlaceOf.unique (hm : m.WellFormed) (hsound : ∀ v, (m.registry v).Sound)
    {t u : Task} {id : LocationId}
    (ht : t.subrule ∈ (m.world t.world).ledger.registered)
    (hu : u.subrule ∈ (m.world u.world).ledger.registered) (htplace : m.IsPlaceOf t id)
    (huplace : m.IsPlaceOf u id) : t = u := by
  have hworld : t.world = u.world := htplace.world.symm.trans huplace.world
  have hregion : t.subrule.region = u.subrule.region := by
    rw [← (hm.named _ _ _ htplace.region).2.2, ← (hm.named _ _ _ huplace.region).2.2]
  have hevent : t.subrule.event = u.subrule.event := htplace.name.symm.trans huplace.name
  rw [← hworld] at hu
  have hsubrule : t.subrule = u.subrule :=
    (hsound t.world).numbered.eq_of_event_eq ht hu hregion hevent
  cases t
  cases u
  rw [Task.mk.injEq]
  exact ⟨hworld, hsubrule⟩

theorem Accounted.placed_of_isPlaceOf (h : Accounted m [] fates replaced) (hm : m.WellFormed)
    (hsound : ∀ v, (m.registry v).Sound) {t : Task} {id : LocationId} {f : Fate}
    (hf : (t, f) ∈ fates) (hplace : m.IsPlaceOf t id) : (t, .placed) ∈ fates := by
  obtain ⟨u, hu, huplace⟩ := h.place id hplace.internal
  rw [hplace.unique hm hsound (h.registered hf) (h.registered hu) huplace]
  exact hu

/-- **After a compilation that succeeds, a registered subrule has its place or was dropped
just when no error before has lost it.** -/
theorem settled_iff_not_lost (h : History m fates replaced) (templates : Templates)
    (rounds : Nat) (hok : Action.result (compileRules templates rounds) m = (.ok true, m'))
    {s : Subrule} (hs : s ∈ (m'.world w).ledger.registered) :
    (m'.HasPlace replaced ⟨w, s⟩ ∨ (⟨w, s⟩, .dropped) ∈ compileFates templates rounds m ++ fates) ↔
      (⟨w, s⟩, .lost) ∉ fates := by
  have hhistory := h.compileRules templates rounds
  rw [hok] at hhistory
  have hall := hhistory.accounted
  have hsound := hhistory.built.sound
  obtain ⟨f, hf⟩ := hall.exists_fate (pending_compileRules hok w) hs
  -- the last compilation has lost nothing
  have hlost : (⟨w, s⟩, .lost) ∈ compileFates templates rounds m ++ fates ↔
      (⟨w, s⟩, .lost) ∈ fates := by
    rw [List.mem_append, or_iff_right (not_lost_of_compileRules hok _)]
  rw [← hlost]
  constructor
  · rintro (⟨id, hplace, -⟩ | hdropped) hmem
    · have hplaced := hall.placed_of_isPlaceOf hhistory.built.wellFormed hsound hf hplace
      cases hall.fate_unique hsound hmem hplaced
    · cases hall.fate_unique hsound hmem hdropped
  · intro hmem
    cases f with
    | placed => exact .inl (hall.placed _ hf)
    | dropped => exact .inr hf
    | lost => exact absurd hf hmem

end Histories

/-! ### A den that comes too late -/

/-- A chest that asks for something in a den that is not there, and for something in a cave. -/
def chestAndCave : Multiworld :=
  let start := (Multiworld.empty .empty).addWorld .plain
  let m := (start.2.addRegion start.1 "Cave" .none).2
  (m.addLocation (m.root start.1) "Chest" "Chest" "at('Den', Bow) and at('Cave', Bow)").2

/-- The worlds after their compilation has failed and the den was added. -/
def withDen : Multiworld :=
  ((Action.result (compileRules .empty 2) chestAndCave).2.addRegion ⟨0⟩ "Den" .none).2

/-- The subrule of the cave. -/
def caveSubrule : Subrule := ⟨"Cave", .name "Bow", "Cave Subrule 1", ⟨1⟩⟩

theorem history_withDen : History withDen (compileFates .empty 2 chestAndCave ++ []) [] :=
  .addRegion (by decide +kernel) "Den" .none <| .compileRules .empty 2 <|
    .addLocation (by decide) _ _ _ <| .addRegion (by decide) _ _ <|
    .addWorld _ (.empty _)

/-- Once the den is there, everything compiles, but the cave never gets the place of its
subrule, which an error about the den has lost. -/
theorem caveSubrule_lost :
    caveSubrule ∈ ((Action.result (compileRules .empty 2) withDen).2.world ⟨0⟩).ledger.registered ∧
      ¬ ((Action.result (compileRules .empty 2) withDen).2.HasPlace [] ⟨⟨0⟩, caveSubrule⟩ ∨
        (⟨⟨0⟩, caveSubrule⟩, .dropped) ∈
          compileFates .empty 2 withDen ++ (compileFates .empty 2 chestAndCave ++ [])) := by
  have hok : (Action.result (compileRules .empty 2) withDen).1 = .ok true := by decide +kernel
  have hregistered : caveSubrule ∈
      ((Action.result (compileRules .empty 2) withDen).2.world ⟨0⟩).ledger.registered := by
    decide +kernel
  have hlost : (⟨⟨0⟩, caveSubrule⟩, .lost) ∈ compileFates .empty 2 chestAndCave ++ [] := by
    decide +kernel
  refine ⟨hregistered, fun hsettled => ?_⟩
  have hnot := (settled_iff_not_lost history_withDen .empty 2 (Prod.ext hok rfl) hregistered).1
    hsettled
  exact hnot hlost

end Multiworld

end Progression
