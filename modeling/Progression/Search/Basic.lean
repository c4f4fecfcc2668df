import Progression.Search.Expand

/-!
# Searches

A search explores the worlds with one inventory per world.  It finds regions by
expanding the frontiers of both ages, and collects items when it is told to.

## Main definitions

* `Search` — the inventories and the progress made with them.
* `Search.Fault` — what a search refuses.
* `Search.start` — a search that has expanded once.
* `Search.nextSphere` — expand both frontiers.
* `Search.collect`, `Search.uncollect`, `Search.collectAll` — take items in and give them back.
* `Search.evaluate`, `Search.reachableAt` — put a question as an age.
* `bothHold`, `eitherHolds` — questions in sequence.
-/

namespace Progression

/-! ### Questions in sequence -/

/-- Ask `p`, and `q` only if `p` holds. -/
def bothHold {σ : Type} (p q : σ → Bool × σ) (s : σ) : Bool × σ :=
  let (b, s) := p s
  if b then q s else (false, s)

/-- Ask `p`, and `q` only if `p` does not hold. -/
def eitherHolds {σ : Type} (p q : σ → Bool × σ) (s : σ) : Bool × σ :=
  let (b, s) := p s
  if b then (true, s) else q s

theorem bothHold_fst {σ : Type} (p q : σ → Bool × σ) (s : σ) :
    (bothHold p q s).1 = ((p s).1 && (q (p s).2).1) := by
  unfold bothHold
  dsimp only
  cases (p s).1 <;> rfl

theorem eitherHolds_fst {σ : Type} (p q : σ → Bool × σ) (s : σ) :
    (eitherHolds p q s).1 = ((p s).1 || (q (p s).2).1) := by
  unfold eitherHolds
  dsimp only
  cases (p s).1 <;> rfl

theorem bothHold_keeps {σ : Type} {p q : σ → Bool × σ} {P : σ → Prop}
    (hp : ∀ s, P s → P (p s).2) (hq : ∀ s, P s → P (q s).2) (s : σ) (h : P s) :
    P (bothHold p q s).2 := by
  unfold bothHold
  dsimp only
  split
  · exact hq _ (hp s h)
  · exact hp s h

theorem eitherHolds_keeps {σ : Type} {p q : σ → Bool × σ} {P : σ → Prop}
    (hp : ∀ s, P s → P (p s).2) (hq : ∀ s, P s → P (q s).2) (s : σ) (h : P s) :
    P (eitherHolds p q s).2 := by
  unfold eitherHolds
  dsimp only
  split
  · exact hp s h
  · exact hq _ (hp s h)

/-! ### Searches -/

/-- The inventories of all worlds and the progress made with them. -/
structure Search where
  inventories : Array Inventory
  progress : Progress
  deriving Inhabited

namespace Search

/-- What a search refuses. -/
inductive Fault where
  /-- A start with another number of inventories than there are worlds. -/
  | inventoryCount (given worlds : Nat)
  /-- A start with inventories out of the order of their worlds. -/
  | inventoryOrder
  /-- Taking back a visit to a location that is not visited. -/
  | neverVisited (id : LocationId)
  deriving DecidableEq

/-- The text of a fault. -/
def Fault.message : Fault → String
  | .inventoryCount given worlds =>
    "assertion `left == right` failed: one state per world is required\n  left: " ++
      Nat.repr given ++ "\n right: " ++ Nat.repr worlds
  | .inventoryOrder => "states must be given in world order"
  | .neverVisited id =>
    "cannot unvisit a location that was never visited: LocationId(" ++ Nat.repr id.index ++ ")"

/-- The frontier of a search that has reached the roots alone, at no time of day. -/
def rootFrontier (g : Multiworld) : Frontier :=
  let roots := g.worldIds.map g.root
  ⟨roots.flatMap fun r => (g.region r).exits, roots.foldl (fun m r => m.insert r .none) []⟩

/-- What is known before anything is expanded. -/
def rootProgress (g : Multiworld) : Progress := ⟨rootFrontier g, rootFrontier g, []⟩

/-- The inventory of a world. -/
def inventory (s : Search) (w : WorldId) : Inventory := inventoryOf s.inventories w

/-- Whether a location is visited. -/
def visited (s : Search) (id : LocationId) : Bool := decide (id ∈ s.progress.visited)

/-- Mark a location as visited. -/
def visit (s : Search) (id : LocationId) : Search := { s with progress := s.progress.visit id }

/-- Expand the frontier of an age. -/
def expand (s : Search) (g : Multiworld) (age : Age) : Search :=
  { s with
    progress := s.progress.setFrontier age ((s.progress.frontier age).expand g s.inventories age) }

/-- Expand the frontiers of both ages. -/
def nextSphere (s : Search) (g : Multiworld) : Search := (s.expand g .adult).expand g .child

/-- Whether the inventories are those of the worlds `0`, `1`, and so on. -/
def inWorldOrder (invs : List Inventory) : Bool :=
  invs.zipIdx.all fun p => p.1.world.index == p.2

theorem inWorldOrder_iff {invs : List Inventory} :
    inWorldOrder invs = true ↔ ∀ i (h : i < invs.length), invs[i].world = ⟨i⟩ := by
  rw [inWorldOrder, List.all_eq_true]
  constructor
  · intro h i hi
    have hworld := h (invs[i], i) (List.mk_mem_zipIdx_iff_getElem?.2 (List.getElem?_eq_getElem hi))
    exact congrArg WorldId.mk (beq_iff_eq.1 hworld)
  · rintro h ⟨inv, i⟩ hinv
    obtain ⟨hi, heq⟩ := List.getElem?_eq_some_iff.1 (List.mk_mem_zipIdx_iff_getElem?.1 hinv)
    rw [beq_iff_eq, ← heq]
    exact congrArg WorldId.index (h i hi)

/-- Start a search with one inventory per world, in the order of the worlds. -/
def start (g : Multiworld) (invs : List Inventory) : Except Fault Search :=
  if invs.length ≠ g.worlds.size then .error (.inventoryCount invs.length g.worlds.size)
  else if inWorldOrder invs then .ok (nextSphere ⟨invs.toArray, rootProgress g⟩ g)
  else .error .inventoryOrder

/-! ### Items -/

/-- Change the inventory that collects an item. -/
def withItem (s : Search) (g : Multiworld) (f : Inventory → ItemEntry → Inventory)
    (item : PlacedItem) : Search :=
  match g.catalog.get? item.id with
  | some entry =>
    { s with inventories := s.inventories.modify item.world.index fun inv => f inv entry }
  | none => s

/-- Take an item in. -/
def collect (s : Search) (g : Multiworld) (item : PlacedItem) : Search :=
  s.withItem g Inventory.collect item

/-- Give an item back.  What was reached with it stays reached. -/
def uncollect (s : Search) (g : Multiworld) (item : PlacedItem) : Search :=
  s.withItem g Inventory.remove item

/-- Take items in, one after the other. -/
def collectAll (s : Search) (g : Multiworld) (items : List PlacedItem) : Search :=
  items.foldl (fun s item => s.collect g item) s

/-- Take in the item of a location, if it holds one. -/
def collectAt (s : Search) (g : Multiworld) (id : LocationId) : Search :=
  match (g.location id).item with
  | some item => s.collect g item
  | none => s

/-- A search that has collected items and expanded once with them. -/
def startWith (g : Multiworld) (invs : List Inventory) (items : List PlacedItem) :
    Except Fault Search :=
  (start g invs).map fun s => (s.collectAll g items).nextSphere g

/-! ### Questions as one age -/

/-- Put a question about what is reached as an age. -/
def ask (age : Age) (question : Reached → Bool × Reached) (s : Search) : Bool × Search :=
  let (b, m) := question (s.progress.reached age)
  (b, { s with progress := s.progress.setReached age m })

/-- Whether a rule holds as an age at the given times. -/
def evaluate (g : Multiworld) (age : Age) (times : TimeOfDay) (p : Post) (s : Search) :
    Bool × Search :=
  s.ask age (Progression.evaluate g s.inventories age times p)

/-- Whether a region is reachable as an age at one of the times. -/
def reachableAt (g : Multiworld) (age : Age) (region : RegionId) (times : TimeOfDay)
    (s : Search) : Bool × Search :=
  s.ask age (Progression.reachableAt g s.inventories age region times)

/-! ### What is kept -/

@[simp] theorem visited_expand (s : Search) (g : Multiworld) (age : Age) :
    (s.expand g age).progress.visited = s.progress.visited := by
  simp [expand]

@[simp] theorem visited_nextSphere (s : Search) (g : Multiworld) :
    (s.nextSphere g).progress.visited = s.progress.visited := by
  simp [nextSphere]

@[simp] theorem progress_withItem (s : Search) (g : Multiworld)
    (f : Inventory → ItemEntry → Inventory) (item : PlacedItem) :
    (s.withItem g f item).progress = s.progress := by
  unfold withItem
  split <;> rfl

@[simp] theorem progress_collect (s : Search) (g : Multiworld) (item : PlacedItem) :
    (s.collect g item).progress = s.progress :=
  progress_withItem ..

@[simp] theorem progress_collectAt (s : Search) (g : Multiworld) (id : LocationId) :
    (s.collectAt g id).progress = s.progress := by
  unfold collectAt
  split
  · exact progress_collect ..
  · rfl

@[simp] theorem inventories_ask (age : Age) (question : Reached → Bool × Reached) (s : Search) :
    (s.ask age question).2.inventories = s.inventories := rfl

@[simp] theorem visited_ask (age : Age) (question : Reached → Bool × Reached) (s : Search) :
    (s.ask age question).2.progress.visited = s.progress.visited :=
  Progress.visited_setReached ..

theorem mem_visited_visit {s : Search} {id l : LocationId} :
    l ∈ (s.visit id).progress.visited ↔ l = id ∨ l ∈ s.progress.visited :=
  Progress.mem_visited_visit

end Search

end Progression
