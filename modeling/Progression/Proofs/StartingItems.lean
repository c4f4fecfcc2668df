import Progression.Proofs.Collecting

/-!
# More starting items

A search that is given more items at its start explores at least as much.  Whatever it finds
with fewer items it finds by foraging, rule after rule in an order of its own, and none of
these rules is false with more items.  So it has reached no further regions, visited no
further locations and collected no further copies than the search with more items has in the
end, although the two may find the same things in quite different orders.

## Main definitions

* `Multiworld.receiveAll` — what collecting items does to the inventories.

## Main results

* `Multiworld.receiveAll_of_subperm` — more items give at least as many copies.
* `Search.maxExplore_mono` — **with more starting items at least as much is found**, and worlds
  that can be won can still be won.
-/

namespace Progression

/-! ### Items one after the other -/

namespace Multiworld

variable {g : Multiworld} {invs : Array Inventory} {items items' : List PlacedItem}

/-- Take items in for their worlds, but no boss keys with them. -/
def receiveAll (g : Multiworld) (items : List PlacedItem) (invs : Array Inventory) :
    Array Inventory :=
  items.foldl (fun invs item => g.receive item invs) invs

theorem stockAtMost_receiveAll (g : Multiworld) (items : List PlacedItem)
    (invs : Array Inventory) : StockAtMost invs (g.receiveAll items invs) := by
  unfold receiveAll
  induction items generalizing invs with
  | nil => exact .refl invs
  | cons item items ih => exact (stockAtMost_receive g item invs).trans (ih _)

@[simp] theorem size_receiveAll (g : Multiworld) (items : List PlacedItem)
    (invs : Array Inventory) : (g.receiveAll items invs).size = invs.size := by
  unfold receiveAll
  induction items generalizing invs with
  | nil => rfl
  | cons item items ih => rw [List.foldl_cons, ih, size_receive]

/-- More items give at least as many copies, wherever in the list they come. -/
theorem receiveAll_of_subperm (h : items.Subperm items') :
    StockAtMost (g.receiveAll items invs) (g.receiveAll items' invs) := by
  obtain ⟨part, hpart, hsub⟩ := h
  obtain ⟨more, hmore⟩ := hsub.exists_perm_append
  have hperm : items'.Perm (items ++ more) := hmore.trans (hpart.append_right more)
  have hlast : g.receiveAll items' invs = g.receiveAll more (g.receiveAll items invs) := by
    unfold receiveAll
    rw [← List.foldl_append]
    exact hperm.foldl_eq' (fun item _ item' _ invs => receive_comm g item' item invs) invs
  rw [hlast]
  exact stockAtMost_receiveAll g more _

end Multiworld

namespace Search

variable {g : Multiworld} {s t : Search} {ids : List LocationId} {items items' : List PlacedItem}

@[simp] theorem progress_collectAll (s : Search) (g : Multiworld) (items : List PlacedItem) :
    (s.collectAll g items).progress = s.progress := by
  unfold collectAll
  induction items generalizing s with
  | nil => rfl
  | cons item items ih => rw [List.foldl_cons, ih, progress_collect]

theorem inventories_collectAll (hk : Keyless s.inventories) (items : List PlacedItem) :
    (s.collectAll g items).inventories = g.receiveAll items s.inventories := by
  unfold collectAll Multiworld.receiveAll
  induction items generalizing s with
  | nil => rfl
  | cons item items ih =>
    rw [List.foldl_cons, List.foldl_cons, ih, inventories_collect hk]
    exact hk.of_atMost (stockAtMost_collectItem hk item)

/-- A search that is given more items is the same but for the items. -/
theorem richer_collectAll (hk : Keyless s.inventories) (hitems : items.Subperm items') :
    Richer (s.collectAll g items) (s.collectAll g items') where
  progress := by rw [progress_collectAll, progress_collectAll]
  stock := by
    rw [inventories_collectAll hk, inventories_collectAll hk]
    exact Multiworld.receiveAll_of_subperm hitems
  size := by
    rw [inventories_collectAll hk, inventories_collectAll hk, Multiworld.size_receiveAll,
      Multiworld.size_receiveAll]

/-! ### Exploring with more items -/

/-- What is found by foraging is found by a search with more items that collects at once, and
that search has at least as many items in the end. -/
theorem Forages.within_explore (hg : g.WellFormed) (hrules : g.Growing)
    (hs : s.progress.Sound g) (hvisited : s.progress.visited = []) (hk : Keyless s.inventories)
    {s' : Search} (hricher : Richer s s') {taken : List LocationId} (h : Forages g ids s taken t)
    (hfit : StockFits (s'.explore g .collect ids none).2.inventories) :
    (∀ age, t.regions age ⊆ (s'.explore g .collect ids none).2.regions age) ∧
      t.progress.visited ⊆ (s'.explore g .collect ids none).2.progress.visited ∧
      StockAtMost t.inventories (s'.explore g .collect ids none).2.inventories ∧
      (t.allWorlds Inventory.won = true →
        (s'.explore g .collect ids none).2.allWorlds Inventory.won = true) := by
  have hs' : s'.progress.Sound g := hricher.progress ▸ hs
  have hu : Forages g ids s' _ (s'.explore g .collect ids none).2 :=
    forages_collectLocations (hricher.progress ▸ hvisited)
  obtain ⟨hregions, hsub⟩ :=
    within hg hrules hs hk hricher hu (exhausted_explore hg hrules hs' .collect ids) hfit h
  have hatmost := h.stockAtMost hg hs hk hricher hu (List.Subset.trans h.taken_subset hsub)
  refine ⟨hregions, hsub, hatmost, allWorlds_won_of_atMost hatmost ?_⟩
  rw [hu.inventories_eq hg hs' (hk.of_atMost hricher.stock), h.inventories_eq hg hs hk,
    g.size_gathered, g.size_gathered, hricher.size]

/-- A search that has only collected items has visited nothing, and holds no key ring that
comes with a boss key. -/
theorem collectAll_start (hg : g.WellFormed) {invs : List Inventory} (hs : start g invs = .ok s)
    (hk : ∀ inv ∈ invs, inv.bearings.keyRings = []) (items : List PlacedItem) :
    (s.collectAll g items).progress.visited = [] ∧ (s.collectAll g items).progress.Sound g ∧
      Keyless (s.collectAll g items).inventories ∧
      StockAtMost invs.toArray (s.collectAll g items).inventories := by
  have hkeyless := keyless_start hs hk
  rw [progress_collectAll, inventories_collectAll hkeyless, ← inventories_start hs]
  have hatmost := g.stockAtMost_receiveAll items s.inventories
  exact ⟨visited_start hs, sound_start hg hs, hkeyless.of_atMost hatmost, hatmost⟩

theorem maxExplore_of_start {invs : List Inventory} (hs : start g invs = .ok s)
    (items : List PlacedItem) :
    maxExplore g invs items = .ok ((s.collectAll g items).collectLocations g []) := by
  rw [maxExplore, hs]
  rfl

/-- **With more starting items at least as much is found.**  If further items keep all rules
true, no boss key comes with a key ring and no total gets too great, then a search that
collects further items at the start, and then all that is worth visiting, has in the end
reached at least the regions that it reaches without them as each age, visited at least the
locations and collected at least as many copies of each item.  So worlds that can be won
without them can be won with them. -/
theorem maxExplore_mono (hg : g.Built) (hrules : g.Growing) {invs : List Inventory} {s₀ : Search}
    (hs : start g invs = .ok s₀) (hk : ∀ inv ∈ invs, inv.bearings.keyRings = [])
    (hitems : items.Subperm items') :
    ∃ s t, maxExplore g invs items = .ok s ∧ maxExplore g invs items' = .ok t ∧
      (StockFits t.inventories →
        (∀ age, s.regions age ⊆ t.regions age) ∧
        (∀ l, s.visited l = true → t.visited l = true) ∧
        (∀ w id, (inventoryOf s.inventories w).count id ≤ (inventoryOf t.inventories w).count id) ∧
        ∀ scan, s.canBeatGame g scan = true → t.canBeatGame g scan = true) := by
  have hwell := hg.wellFormed
  obtain ⟨hvisited, hsound, hfewer, -⟩ := collectAll_start hwell hs hk items
  have hricher := richer_collectAll (g := g) (keyless_start hs hk) hitems
  refine ⟨_, _, maxExplore_of_start hs items, maxExplore_of_start hs items', fun hfit => ?_⟩
  have hforages : Forages g (candidatesOf g []) (s₀.collectAll g items) _
      ((s₀.collectAll g items).collectLocations g []) := forages_collectLocations hvisited
  obtain ⟨hregions, hsub, hatmost, hwon⟩ :=
    hforages.within_explore hwell hrules hsound hvisited hfewer hricher hfit
  -- what it would come to by collecting once more, it would come to by foraging, too
  obtain ⟨-, -, -, hagain⟩ := Forages.within_explore hwell hrules hsound hvisited hfewer hricher
    (collect_invariant.explore none hforages) hfit
  refine ⟨hregions, fun l hl => decide_eq_true (hsub (of_decide_eq_true hl)),
    fun w id => (hatmost w).count id, fun scan hbeat => ?_⟩
  unfold canBeatGame canBeatGameWith at hbeat ⊢
  rw [Bool.or_eq_true, Bool.and_eq_true] at hbeat
  rw [Bool.or_eq_true]
  rcases hbeat with hbeat | ⟨-, hbeat⟩
  · exact .inl (hwon hbeat)
  · exact .inl (hagain hbeat)

/-- Whoever has the bow at the start finds at least as much in the tower. -/
theorem maxExplore_towerWorld : ∃ s t,
    maxExplore towerWorld towerWorld.initialInventories [] = .ok s ∧
      maxExplore towerWorld towerWorld.initialInventories [⟨⟨0⟩, ⟨0⟩⟩] = .ok t ∧
      (∀ age, s.regions age ⊆ t.regions age) ∧
      (∀ l, s.visited l = true → t.visited l = true) ∧
      (∀ w id, (inventoryOf s.inventories w).count id ≤ (inventoryOf t.inventories w).count id) ∧
      ∀ scan, s.canBeatGame towerWorld scan = true → t.canBeatGame towerWorld scan = true := by
  have hwell := built_towerWorld.wellFormed
  obtain ⟨s₀, hs⟩ := exists_start_initial towerWorld
  have hkeys := keyRings_initial keyless_towerWorld
  obtain ⟨s, t, hs', ht, hmono⟩ := maxExplore_mono built_towerWorld growing_towerWorld hs hkeys
    (List.nil_subperm (l := [⟨⟨0⟩, ⟨0⟩⟩]))
  refine ⟨s, t, hs', ht, hmono ?_⟩
  obtain ⟨hvisited, hsound, hkeyless, hatmost⟩ := collectAll_start hwell hs hkeys [⟨⟨0⟩, ⟨0⟩⟩]
  rw [maxExplore_of_start hs, Except.ok.injEq] at ht
  have hforages : Forages towerWorld (candidatesOf towerWorld [])
      (s₀.collectAll towerWorld [⟨⟨0⟩, ⟨0⟩⟩]) t.progress.visited t := by
    rw [← ht]
    exact forages_collectLocations hvisited
  refine stockFits_of_groups (hatmost.trans ?_) (by decide +kernel)
  rw [hforages.inventories_eq hwell hsound hkeyless]
  exact towerWorld.stockAtMost_gathered _ _

end Search

end Progression
