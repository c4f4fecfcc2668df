import Progression.Search.Basic

/-!
# Visiting locations

A sweep goes through a list of candidates once and visits each one whose region is
reached and whose rule holds, as the adult or as the child.  An exploration expands
the frontiers and sweeps, until a sweep finds nothing.

## Main definitions

* `Search.tryVisit` — visit a location if that is possible.
* `Manner` — whether items are collected on the way.
* `Search.sweep` — one pass over the candidates.
* `Search.explore` — expansions and sweeps until nothing is found.
* `Search.progressionLocations` — the candidates that are worth visiting.
* `Search.collectLocations`, `Search.visitLocations`, `Search.maxExplore` — whole explorations.
* `Search.collectSkipped` — visit the locations handed out at the start.

## Main statements

* `unvisited_sweep_lt` — a sweep that finds something leaves fewer candidates.
-/

namespace Progression

/-- What is done about the item of a location that was just visited. -/
inductive Manner where
  /-- It is left there. -/
  | look
  /-- It is collected before the next location is tried. -/
  | collect
  deriving DecidableEq

namespace Search

/-! ### One location -/

/-- Whether the region of a location is reached and its rule holds as an age. -/
def accessible (g : Multiworld) (id : LocationId) (age : Age) (s : Search) : Bool × Search :=
  let l := g.location id
  if (s.progress.reached age).contains l.parent then s.evaluate g age .none l.post
  else (false, s)

/-- Visit a location if it is accessible, as the adult or else as the child.  The
result says whether it was visited by this. -/
def tryVisit (g : Multiworld) (id : LocationId) (s : Search) : Bool × Search :=
  if s.visited id then (false, s)
  else
    let (b, s) := eitherHolds (accessible g id .adult) (accessible g id .child) s
    if b then (true, s.visit id) else (false, s)

/-- Deal with the item of a location that was just visited. -/
def treat (s : Search) (g : Multiworld) (id : LocationId) : Manner → Search
  | .look => s
  | .collect => s.collectAt g id

/-! ### Sweeps -/

/-- Visit the accessible ones among the candidates, in their order.  With a limit the
sweep ends when so many are found. -/
def sweep (g : Multiworld) (manner : Manner) :
    List LocationId → Option Nat → Search → List LocationId × Search
  | [], _, s => ([], s)
  | id :: ids, limit, s =>
    if limit = some 0 then ([], s)
    else
      match s.tryVisit g id with
      | (false, s) => sweep g manner ids limit s
      | (true, s) =>
        let (found, s) := sweep g manner ids (limit.map (· - 1)) (s.treat g id manner)
        (id :: found, s)

/-! ### What a sweep does to the visited locations -/

theorem visited_accessible (g : Multiworld) (id : LocationId) (age : Age) (s : Search) :
    (accessible g id age s).2.progress.visited = s.progress.visited := by
  unfold accessible
  dsimp only
  split
  · exact visited_ask ..
  · rfl

theorem visited_anyAge (g : Multiworld) (id : LocationId) (s : Search) :
    (eitherHolds (accessible g id .adult) (accessible g id .child) s).2.progress.visited =
      s.progress.visited :=
  eitherHolds_keeps (P := fun t => t.progress.visited = s.progress.visited)
    (fun _ h => by rw [visited_accessible, h]) (fun _ h => by rw [visited_accessible, h]) s rfl

theorem visited_of_tryVisit_false {g : Multiworld} {id : LocationId} {s t : Search}
    (h : s.tryVisit g id = (false, t)) : t.progress.visited = s.progress.visited := by
  unfold tryVisit at h
  split at h
  · simp_all
  · dsimp only at h
    split at h
    · simp at h
    · rw [← visited_anyAge g id s]
      simp_all

theorem visited_of_tryVisit_true {g : Multiworld} {id : LocationId} {s t : Search}
    (h : s.tryVisit g id = (true, t)) :
    id ∉ s.progress.visited ∧
      ∀ l, l ∈ t.progress.visited ↔ l = id ∨ l ∈ s.progress.visited := by
  unfold tryVisit at h
  split at h
  · simp at h
  · next hv =>
    dsimp only at h
    split at h
    · refine ⟨by simpa [visited] using hv, fun l => ?_⟩
      rw [← visited_anyAge g id s, ← (Prod.mk.inj h).2, mem_visited_visit]
    · simp at h

@[simp] theorem progress_treat (s : Search) (g : Multiworld) (id : LocationId) (manner : Manner) :
    (s.treat g id manner).progress = s.progress := by
  cases manner
  · rfl
  · exact progress_collectAt ..

/-- A sweep visits exactly what it finds, and all of that is new. -/
theorem mem_visited_sweep (g : Multiworld) (manner : Manner) (ids : List LocationId)
    (limit : Option Nat) (s : Search) :
    (∀ l, l ∈ (s.sweep g manner ids limit).2.progress.visited ↔
        l ∈ (s.sweep g manner ids limit).1 ∨ l ∈ s.progress.visited) ∧
      ∀ l ∈ (s.sweep g manner ids limit).1, l ∈ ids ∧ l ∉ s.progress.visited := by
  induction ids generalizing limit s with
  | nil => simp [sweep]
  | cons id ids ih =>
    unfold sweep
    split
    · simp
    · split
      · next t ht =>
        have hv := visited_of_tryVisit_false ht
        rw [← hv]
        refine ⟨(ih limit t).1, fun l hl => ?_⟩
        have := (ih limit t).2 l hl
        exact ⟨List.mem_cons_of_mem _ this.1, this.2⟩
      · next t ht =>
        obtain ⟨hnew, hv⟩ := visited_of_tryVisit_true ht
        have ih := ih (limit.map (· - 1)) (t.treat g id manner)
        dsimp only
        constructor
        · intro l
          rw [ih.1 l, progress_treat, hv l, List.mem_cons]
          constructor
          · rintro (h | h | h)
            · exact .inl (.inr h)
            · exact .inl (.inl h)
            · exact .inr h
          · rintro ((h | h) | h)
            · exact .inr (.inl h)
            · exact .inl h
            · exact .inr (.inr h)
        · intro l hl
          rcases List.mem_cons.1 hl with rfl | hl
          · exact ⟨List.mem_cons_self, hnew⟩
          · obtain ⟨hmem, hnot⟩ := ih.2 l hl
            rw [progress_treat] at hnot
            exact ⟨List.mem_cons_of_mem _ hmem, fun h => hnot ((hv l).2 (.inr h))⟩

/-- The number of candidates that are not visited. -/
def unvisited (s : Search) (ids : List LocationId) : Nat :=
  ids.countP fun id => !s.visited id

theorem unvisited_congr {s t : Search} (h : t.progress.visited = s.progress.visited)
    (ids : List LocationId) : t.unvisited ids = s.unvisited ids := by
  simp [unvisited, visited, h]

/-- A sweep that finds something leaves fewer candidates. -/
theorem unvisited_sweep_lt (g : Multiworld) (manner : Manner) (ids : List LocationId)
    (limit : Option Nat) (s : Search) (h : (s.sweep g manner ids limit).1 ≠ []) :
    (s.sweep g manner ids limit).2.unvisited ids < s.unvisited ids := by
  obtain ⟨l, hl⟩ := List.exists_mem_of_ne_nil _ h
  have hs := mem_visited_sweep g manner ids limit s
  obtain ⟨hmem, hnot⟩ := hs.2 l hl
  refine countP_lt_countP ?_ hmem (by simp [visited, hnot]) ?_
  · intro x _ hx
    simp only [visited, Bool.not_eq_true', decide_eq_false_iff_not] at hx ⊢
    exact fun h => hx ((hs.1 x).2 (.inr h))
  · simp [visited, (hs.1 l).2 (.inl hl)]

/-! ### Explorations -/

/-- Expand and sweep until a sweep finds nothing; with a limit, at most until so many
locations are found.  The result lists the locations in the order of their visits. -/
def explore (g : Multiworld) (manner : Manner) (ids : List LocationId) (limit : Option Nat)
    (s : Search) : List LocationId × Search :=
  if limit = some 0 then ([], s)
  else
    match _h : (s.nextSphere g).sweep g manner ids limit with
    | ([], s') => ([], s')
    | (id :: found, s') =>
      let (more, s'') := explore g manner ids (limit.map (· - (found.length + 1))) s'
      (id :: (found ++ more), s'')
termination_by s.unvisited ids
decreasing_by
  rw [← unvisited_congr (visited_nextSphere s g) ids]
  have := unvisited_sweep_lt g manner ids limit (s.nextSphere g) (by simp [_h])
  simpa [_h] using this

/-- The locations of all worlds that hold an item which can open a rule. -/
def progressionLocations (g : Multiworld) : List LocationId :=
  (g.worlds.toList.flatMap World.locations).filter fun id =>
    (g.location id).item.any fun item =>
      (g.catalog.get? item.id).any ItemEntry.advancement

/-- The given candidates, or the locations worth visiting if there are none. -/
def candidatesOf (g : Multiworld) (ids : List LocationId) : List LocationId :=
  if ids.isEmpty then progressionLocations g else ids

/-- Visit all accessible candidates, collecting each item as soon as it is found. -/
def collectLocations (s : Search) (g : Multiworld) (ids : List LocationId) : Search :=
  (s.explore g .collect (candidatesOf g ids) none).2

/-- Visit all accessible candidates and leave their items. -/
def visitLocations (s : Search) (g : Multiworld) (ids : List LocationId) : Search :=
  (s.explore g .look (candidatesOf g ids) none).2

/-- A search that has collected items and all that is worth visiting. -/
def maxExplore (g : Multiworld) (invs : List Inventory) (items : List PlacedItem) :
    Except Fault Search :=
  (start g invs).map fun s => (s.collectAll g items).collectLocations g []

/-! ### Locations handed out at the start -/

/-- The locations of all worlds whose items are handed out at the start. -/
def skippedLocations (g : Multiworld) : List LocationId := g.worlds.toList.flatMap World.skipped

/-- Mark some locations as visited. -/
def visitAll (s : Search) (ids : List LocationId) : Search := ids.foldl visit s

/-- Mark the locations handed out at the start as visited and collect their items. -/
def collectSkipped (s : Search) (g : Multiworld) : Search :=
  (skippedLocations g).foldl (fun s id => s.collectAt g id) (s.visitAll (skippedLocations g))

end Search

end Progression
