import Progression.Proofs.Layers

/-!
# What is handed out is collected again

There are two ways to collect at a location: it is found by exploring, or it is one of those
whose items are handed out at the start.  An exploration collects only where it has not been,
but the items that are handed out are handed out on every call, whether or not their
locations were visited before.  So after any calls of both kinds the inventories hold the
items of the visited locations once each, and besides them those of the locations that were
already visited when they came to be handed out.  Each item was collected just once if and
only if there was no such location.

## Main definitions

* `Search.Errand` — a call that collects, with what it does and where it collects.
* `Search.repeats` — the locations already visited when they are to be visited.
* `Search.runAll`, `Search.takesAll`, `Search.againAll` — the same for calls in a row.

## Main results

* `Search.Errand.inventories_run`, `Search.Errand.takes_perm` — what one call does.
* `Search.takesAll_perm_iff` — **the items were collected once each just when nothing was
  handed out whose location was visited already.**
* `Search.takesAll_perm_of_first` — so it is if they are handed out once, before all else.
-/

namespace Progression

namespace Search

variable {g : Multiworld} {s t : Search} {ids : List LocationId}

/-! ### Exploring -/

theorem inventories_tryVisit (g : Multiworld) (id : LocationId) (s : Search) :
    (s.tryVisit g id).2.inventories = s.inventories := by
  have hask : ∀ (age : Age) (t : Search), t.inventories = s.inventories →
      (accessible g id age t).2.inventories = s.inventories := by
    intro age t ht
    unfold accessible
    dsimp only
    split <;> exact ht
  have hasked := eitherHolds_keeps (P := fun t => t.inventories = s.inventories)
    (hask .adult) (hask .child) s rfl
  unfold tryVisit
  split
  · rfl
  · dsimp only
    split <;> exact hasked

/-- A sweep collects at what it finds. -/
theorem inventories_sweep (g : Multiworld) (ids : List LocationId) (limit : Option Nat)
    (s : Search) : (s.sweep g .collect ids limit).2.inventories =
      (s.collectAllAt g (s.sweep g .collect ids limit).1).inventories := by
  induction ids generalizing limit s with
  | nil => rfl
  | cons id ids ih =>
    have htry := inventories_tryVisit g id s
    unfold sweep
    split
    · rfl
    · split
      · next t ht =>
        rw [ht] at htry
        rw [ih]
        exact inventories_collectAllAt_congr htry _
      · next t ht =>
        rw [ht] at htry
        dsimp only
        rw [ih]
        exact inventories_collectAllAt_congr (inventories_collectAt_congr htry id) _

/-- So does an exploration. -/
theorem inventories_explore (g : Multiworld) (ids : List LocationId) (limit : Option Nat)
    (s : Search) : (s.explore g .collect ids limit).2.inventories =
      (s.collectAllAt g (s.explore g .collect ids limit).1).inventories := by
  fun_induction explore g .collect ids limit s with
  | case1 => rfl
  | case2 limit s _ t ht =>
    have hsweep := inventories_sweep g ids limit (s.nextSphere g)
    rwa [ht] at hsweep
  | case3 limit s _ id found t ht more t' hmore ih =>
    have hsweep := inventories_sweep g ids limit (s.nextSphere g)
    rw [ht] at hsweep
    rw [hmore] at ih
    rw [ih, ← List.cons_append, collectAllAt_append]
    refine inventories_collectAllAt_congr (hsweep.trans ?_) more
    exact inventories_collectAllAt_congr (inventories_nextSphere s g) _

/-! ### Visiting what was visited -/

/-- The locations that are visited already when they are to be visited, in a row. -/
def repeats : List LocationId → Search → List LocationId
  | [], _ => []
  | id :: ids, s => if s.visited id then id :: repeats ids s else repeats ids (s.visit id)

theorem visit_of_visited {id : LocationId} (h : s.visited id = true) : s.visit id = s := by
  have hmem : id ∈ s.progress.visited := of_decide_eq_true h
  rw [visit, Progress.visit, if_pos hmem]

theorem visited_visit_of_not {id : LocationId} (h : ¬ s.visited id = true) :
    (s.visit id).progress.visited = id :: s.progress.visited := by
  have hmem : id ∉ s.progress.visited := fun hmem => h (decide_eq_true hmem)
  change (s.progress.visit id).visited = _
  rw [Progress.visit, if_neg hmem]

@[simp] theorem inventories_visitAll (ids : List LocationId) (s : Search) :
    (s.visitAll ids).inventories = s.inventories := by
  unfold visitAll
  induction ids generalizing s with
  | nil => rfl
  | cons id ids ih => exact ih (s.visit id)

/-- What is to be visited and what was visited are, in the end, what is visited and what was
to be visited again. -/
theorem visitAll_perm (ids : List LocationId) (s : Search) :
    (ids ++ s.progress.visited).Perm ((s.visitAll ids).progress.visited ++ s.repeats ids) := by
  induction ids generalizing s with
  | nil => simp [visitAll, repeats]
  | cons id ids ih =>
    change (id :: (ids ++ s.progress.visited)).Perm
      (((s.visit id).visitAll ids).progress.visited ++ s.repeats (id :: ids))
    rw [repeats]
    split
    · next hvisited =>
      rw [visit_of_visited hvisited]
      exact ((ih s).cons id).trans List.perm_middle.symm
    · next hnew =>
      have hrest := ih (s.visit id)
      rw [visited_visit_of_not hnew] at hrest
      exact List.perm_middle.symm.trans hrest

/-- None is visited again just when they are all different and none was visited. -/
theorem repeats_eq_nil_iff (hs : s.progress.visited.Nodup) :
    s.repeats ids = [] ↔ (ids ++ s.progress.visited).Nodup := by
  induction ids generalizing s with
  | nil => exact iff_of_true rfl hs
  | cons id ids ih =>
    rw [repeats, List.cons_append, ← List.perm_middle.nodup_iff]
    split
    · next hvisited =>
      refine iff_of_false (List.cons_ne_nil _ _) fun hnodup => ?_
      have hlater := (List.nodup_append.1 hnodup).2.1
      exact (List.nodup_cons.1 hlater).1 (of_decide_eq_true hvisited)
    · next hnew =>
      have hvisit := visited_visit_of_not hnew
      have hnodup : (s.visit id).progress.visited.Nodup := by
        rw [hvisit]
        exact List.nodup_cons.2 ⟨fun hmem => hnew (decide_eq_true hmem), hs⟩
      rw [ih hnodup, hvisit]

/-! ### One call -/

/-- A call that collects at locations. -/
inductive Errand where
  /-- Explore with some candidates, and collect at what is found. -/
  | explore (ids : List LocationId)
  /-- Collect at the locations whose items are handed out at the start. -/
  | handOut

namespace Errand

/-- The search after a call. -/
def run (g : Multiworld) : Errand → Search → Search
  | .explore ids, s => s.collectLocations g ids
  | .handOut, s => s.collectSkipped g

/-- The locations at which a call collects, in order. -/
def takes (g : Multiworld) : Errand → Search → List LocationId
  | .explore ids, s => (s.explore g .collect (candidatesOf g ids) none).1
  | .handOut, _ => skippedLocations g

/-- Those among them that were visited already when their turn came. -/
def again (g : Multiworld) : Errand → Search → List LocationId
  | .explore _, _ => []
  | .handOut, s => s.repeats (skippedLocations g)

theorem inventories_run (g : Multiworld) (e : Errand) (s : Search) :
    (e.run g s).inventories = (s.collectAllAt g (e.takes g s)).inventories := by
  cases e with
  | explore ids => exact inventories_explore g (candidatesOf g ids) none s
  | handOut => exact inventories_collectAllAt_congr (inventories_visitAll _ s) _

/-- Where a call collects and what was visited are, in the end, what is visited and where it
collected again. -/
theorem takes_perm (g : Multiworld) (e : Errand) (s : Search) :
    (e.takes g s ++ s.progress.visited).Perm
      ((e.run g s).progress.visited ++ e.again g s) := by
  cases e with
  | explore ids =>
    change (_ ++ _ : List LocationId).Perm
      ((s.explore g .collect (candidatesOf g ids) none).2.progress.visited ++ [])
    rw [visited_explore, List.append_nil]
    exact (List.reverse_perm _).symm.append_right _
  | handOut =>
    have hprogress : (s.collectSkipped g).progress = (s.visitAll (skippedLocations g)).progress :=
      progress_collectAllAt _ g _
    change (_ ++ _ : List LocationId).Perm ((s.collectSkipped g).progress.visited ++ _)
    rw [hprogress]
    exact visitAll_perm _ s

theorem again_eq_nil_iff (hs : s.progress.visited.Nodup) (e : Errand) :
    e.again g s = [] ↔ (e = .handOut → (skippedLocations g ++ s.progress.visited).Nodup) := by
  cases e with
  | explore ids => exact iff_of_true rfl fun h => by cases h
  | handOut => exact (repeats_eq_nil_iff hs).trans ⟨fun h _ => h, fun h => h rfl⟩

theorem nodup_run (hs : s.progress.visited.Nodup) (e : Errand) :
    (e.run g s).progress.visited.Nodup := by
  cases e with
  | explore ids => exact (Run.refl.explore .collect _ none).visited_nodup hs
  | handOut => exact Run.refl.collectSkipped.visited_nodup hs

end Errand

/-! ### Calls in a row -/

/-- The search after some calls. -/
def runAll (g : Multiworld) (es : List Errand) (s : Search) : Search :=
  es.foldl (fun s e => e.run g s) s

/-- The locations at which some calls collect, in order. -/
def takesAll (g : Multiworld) : List Errand → Search → List LocationId
  | [], _ => []
  | e :: es, s => e.takes g s ++ takesAll g es (e.run g s)

/-- Those among them that were visited already when their turn came. -/
def againAll (g : Multiworld) : List Errand → Search → List LocationId
  | [], _ => []
  | e :: es, s => e.again g s ++ againAll g es (e.run g s)

theorem inventories_runAll (g : Multiworld) (es : List Errand) (s : Search) :
    (s.runAll g es).inventories = (s.collectAllAt g (s.takesAll g es)).inventories := by
  induction es generalizing s with
  | nil => rfl
  | cons e es ih =>
    rw [takesAll, collectAllAt_append]
    exact (ih (e.run g s)).trans (inventories_collectAllAt_congr (e.inventories_run g s) _)

theorem takesAll_perm (g : Multiworld) (es : List Errand) (s : Search) :
    (s.takesAll g es ++ s.progress.visited).Perm
      ((s.runAll g es).progress.visited ++ s.againAll g es) := by
  induction es generalizing s with
  | nil => simp [takesAll, runAll, againAll]
  | cons e es ih =>
    have hfirst := e.takes_perm g s
    have hrest := ih (e.run g s)
    rw [takesAll, againAll]
    calc (e.takes g s ++ takesAll g es (e.run g s)) ++ s.progress.visited
      _ |>.Perm (takesAll g es (e.run g s) ++ (e.takes g s ++ s.progress.visited)) := by
        rw [← List.append_assoc]
        exact List.perm_append_comm.append_right _
      _ |>.Perm (takesAll g es (e.run g s) ++ ((e.run g s).progress.visited ++ e.again g s)) :=
        hfirst.append_left _
      _ |>.Perm (((e.run g s).runAll g es).progress.visited ++
          againAll g es (e.run g s) ++ e.again g s) := by
        rw [← List.append_assoc]
        exact hrest.append_right _
      _ |>.Perm ((s.runAll g (e :: es)).progress.visited ++
          (e.again g s ++ againAll g es (e.run g s))) := by
        rw [List.append_assoc]
        exact List.perm_append_comm.append_left _

/-- Nothing is collected again just when, whenever items are handed out, their locations are
all different and none was visited before. -/
theorem againAll_eq_nil_iff (hs : s.progress.visited.Nodup) (es : List Errand) :
    s.againAll g es = [] ↔ ∀ es₁ es₂, es = es₁ ++ .handOut :: es₂ →
      (skippedLocations g ++ (s.runAll g es₁).progress.visited).Nodup := by
  induction es generalizing s with
  | nil => exact iff_of_true rfl fun es₁ es₂ h => by simp at h
  | cons e es ih =>
    rw [againAll, List.append_eq_nil_iff, e.again_eq_nil_iff hs, ih (e.nodup_run hs)]
    constructor
    · rintro ⟨hfirst, hrest⟩ es₁ es₂ heq
      cases es₁ with
      | nil => exact hfirst (List.cons.inj heq).1
      | cons e' es₁ =>
        obtain ⟨rfl, htail⟩ := List.cons.inj heq
        exact hrest es₁ es₂ htail
    · intro h
      refine ⟨fun he => ?_, fun es₁ es₂ heq => ?_⟩
      · exact h [] es (by rw [he, List.nil_append])
      · exact h (e :: es₁) es₂ (by rw [heq, List.cons_append])

/-- From a start, the calls collect at the visited locations, and again at some of them. -/
theorem takesAll_perm_of_start {invs : List Inventory} (hs : start g invs = .ok s)
    (es : List Errand) :
    (s.takesAll g es).Perm ((s.runAll g es).progress.visited ++ s.againAll g es) := by
  have hperm := takesAll_perm g es s
  rwa [visited_start hs, List.append_nil] at hperm

/-- **The items were collected once each just when nothing was handed out whose location was
visited already.**  After any calls from a start, the inventories are those of the start with
the items of the locations at which the calls collected, taken in one after the other.  These
locations are the visited ones, once each, together with those that were handed out although
they were visited already.  There are none of the latter just when, whenever items were
handed out, their locations were all different and none was visited before. -/
theorem takesAll_perm_iff {invs : List Inventory} (hs : start g invs = .ok s)
    (es : List Errand) :
    (s.runAll g es).inventories = (s.collectAllAt g (s.takesAll g es)).inventories ∧
      (s.takesAll g es).Perm ((s.runAll g es).progress.visited ++ s.againAll g es) ∧
      ((s.takesAll g es).Perm (s.runAll g es).progress.visited ↔
        ∀ es₁ es₂, es = es₁ ++ .handOut :: es₂ →
          (skippedLocations g ++ (s.runAll g es₁).progress.visited).Nodup) := by
  have hnodup : s.progress.visited.Nodup := visited_start hs ▸ .nil
  have hperm := takesAll_perm_of_start hs es
  refine ⟨inventories_runAll g es s, hperm, ?_⟩
  rw [← againAll_eq_nil_iff hnodup]
  constructor
  · intro honce
    have hlength := (hperm.symm.trans honce).length_eq
    rw [List.length_append] at hlength
    exact List.length_eq_zero_iff.1 (by omega)
  · intro hnil
    rwa [hnil, List.append_nil] at hperm

/-- A world whose bow is handed out at the start. -/
def giftWorld : Multiworld :=
  let (w, m) := (Multiworld.empty .empty).addWorld .plain
  let (bow, m) := m.declareItem (.advancing "Bow")
  let (gift, m) := m.addLocation (m.root w) "Gift" "Shop" "True"
  (Action.result (compileRules .empty 1) ((m.placeItem gift bow w).skip gift)).2

/-- When the bow is handed out a second time, it is collected a second time. -/
theorem takesAll_giftWorld : ∃ s, start giftWorld giftWorld.initialInventories = .ok s ∧
    (s.takesAll giftWorld [.handOut]).Perm (s.runAll giftWorld [.handOut]).progress.visited ∧
    ¬ (s.takesAll giftWorld [.handOut, .handOut]).Perm
        (s.runAll giftWorld [.handOut, .handOut]).progress.visited ∧
    (inventoryOf (s.runAll giftWorld [.handOut, .handOut]).inventories ⟨0⟩).count ⟨0⟩ = 2 := by
  obtain ⟨s, hs⟩ := exists_start_initial giftWorld
  have hgift : skippedLocations giftWorld = [⟨0⟩] := by decide +kernel
  obtain ⟨-, -, honce⟩ := takesAll_perm_iff hs [.handOut]
  obtain ⟨htaken, -, htwice⟩ := takesAll_perm_iff hs [.handOut, .handOut]
  have hfirst : (s.takesAll giftWorld [.handOut]).Perm
      (s.runAll giftWorld [.handOut]).progress.visited := by
    refine honce.2 fun es₁ es₂ heq => ?_
    cases es₁ with
    | nil =>
      change (skippedLocations giftWorld ++ s.progress.visited).Nodup
      rw [hgift, visited_start hs]
      exact List.nodup_singleton _
    | cons e es₁ => simp at heq
  have hvisited : (s.runAll giftWorld [.handOut]).progress.visited = [⟨0⟩] := by
    have htakes : s.takesAll giftWorld [.handOut] = [⟨0⟩] := by
      simp [takesAll, Errand.takes, hgift]
    rw [htakes] at hfirst
    exact List.perm_singleton.1 hfirst.symm
  refine ⟨s, hs, hfirst, fun hperm => ?_, ?_⟩
  · have hnodup := htwice.1 hperm [.handOut] [] rfl
    rw [hgift, hvisited] at hnodup
    exact absurd hnodup (by decide)
  · have htakes : s.takesAll giftWorld [.handOut, .handOut] = [⟨0⟩, ⟨0⟩] := by
      simp [takesAll, Errand.takes, hgift]
    have hstart : s.inventories =
        (⟨giftWorld.initialInventories.toArray, default⟩ : Search).inventories :=
      inventories_start hs
    rw [htaken, inventories_collectAllAt_congr hstart, htakes]
    decide +kernel

/-- It is collected just once if it is handed out before all else. -/
theorem takesAll_perm_of_first {invs : List Inventory} (hs : start g invs = .ok s)
    (hskipped : (skippedLocations g).Nodup) {es : List Errand} (hes : Errand.handOut ∉ es) :
    (s.takesAll g (.handOut :: es)).Perm (s.runAll g (.handOut :: es)).progress.visited := by
  have hnone := visited_start hs
  have hnil : s.againAll g (.handOut :: es) = [] := by
    refine (againAll_eq_nil_iff (hnone ▸ .nil) _).2 fun es₁ es₂ heq => ?_
    cases es₁ with
    | nil =>
      change (skippedLocations g ++ s.progress.visited).Nodup
      rwa [hnone, List.append_nil]
    | cons e es₁ =>
      obtain ⟨-, htail⟩ := List.cons.inj heq
      rw [htail] at hes
      exact absurd (List.mem_append_right _ List.mem_cons_self) hes
  have hperm := takesAll_perm_of_start hs (.handOut :: es)
  rwa [hnil, List.append_nil] at hperm

end Search

end Progression
