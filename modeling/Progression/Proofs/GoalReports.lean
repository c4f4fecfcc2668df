import Mathlib.Algebra.GroupWithZero.Nat
import Mathlib.Data.List.Nodup
import Mathlib.Data.String.Basic
import Progression.Proofs.Tables
import Progression.Search.Goals

/-!
# Who meets which goals

A report on a category of goals lists every goal with the worlds that meet it, and every world
with the goals that it meets.  Both lists grow together, so a world stands with a goal as often
as the goal stands with the world: once for each time that the category is asked for, times the
goals of that name that the world meets in its first category of that name.  So each stands with
the other at most once if and only if no category that is met anywhere is asked for twice, and no
world meets two goals of one name in it.

## Main definitions

* `Inventory.metIn` — the goals that are met in the first category of a name.
* `CategoryGoals.worldsOf`, `CategoryGoals.goalsOf` — what a goal and a world are listed with.
* `CategoryGoals.Lists` — a step that lists goals and worlds with each other so many times more.
* `CategoryGoals.timesMet` — how often worlds meet the goals of a name.

## Main results

* `CategoryGoals.lists_testGoal`, `CategoryGoals.lists_testWorld`, `CategoryGoals.lists_round` —
  what a goal, a world and a round through the worlds add to a report.
* `Search.find?_testGoals` — a category is reported on after as many rounds as it is asked for.
* `Search.count_testGoals` — how often goals and worlds are listed with each other.
* `Search.listed_once_iff` — **when goals and worlds are listed once.**
-/

namespace Progression

instance : IsStrictTotalOrder WorldId (· < ·) where
  trichotomous a b hab hba := by
    cases a
    cases b
    exact congrArg WorldId.mk (Nat.le_antisymm (Nat.not_lt.1 hba) (Nat.not_lt.1 hab))
  irrefl a := Nat.lt_irrefl a.index
  trans _ _ _ := Nat.lt_trans

/-! ### Goals of a world -/

namespace Inventory

/-- The goals of the first category of a name. -/
def goalsIn (inv : Inventory) (category : String) : List Goal :=
  (inv.bearings.goals.find? (·.name == category)).elim [] GoalCategory.goals

/-- The names of the goals that are met in full, in the first category of a name. -/
def metIn (inv : Inventory) (category : String) : List String :=
  ((inv.goalsIn category).filter inv.meets).map Goal.name

end Inventory

namespace CategoryGoals

/-! ### What goals and worlds are listed with -/

/-- The worlds that a goal is listed with. -/
def worldsOf (c : CategoryGoals) (goal : String) : List WorldId := (c.goals.find? goal).getD []

/-- The goals that a world is listed with. -/
def goalsOf (c : CategoryGoals) (w : WorldId) : List String := (c.byWorld.find? w).getD []

/-- Goals and worlds are both listed in ascending order. -/
structure Ascending (c : CategoryGoals) : Prop where
  goals : c.goals.Ascending
  byWorld : c.byWorld.Ascending

theorem ascending_empty : empty.Ascending := ⟨Table.ascending_nil, Table.ascending_nil⟩

/-- A step that lists goals and worlds with each other so many times more. -/
structure Lists (more : String → WorldId → ℕ) (step : CategoryGoals → CategoryGoals) : Prop where
  ascending : ∀ {c}, c.Ascending → (step c).Ascending
  worlds : ∀ {c}, c.Ascending → ∀ goal w,
    ((step c).worldsOf goal).count w = (c.worldsOf goal).count w + more goal w
  goals : ∀ {c}, c.Ascending → ∀ goal w,
    ((step c).goalsOf w).count goal = (c.goalsOf w).count goal + more goal w

namespace Lists

variable {more more' : String → WorldId → ℕ} {step step' : CategoryGoals → CategoryGoals}

theorem refl : Lists (fun _ _ => 0) fun c => c := ⟨fun h => h, fun _ _ _ => rfl, fun _ _ _ => rfl⟩

theorem comp (h' : Lists more' step') (h : Lists more step) :
    Lists (fun goal w => more goal w + more' goal w) fun c => step' (step c) where
  ascending hc := h'.ascending (h.ascending hc)
  worlds hc goal w := by rw [h'.worlds (h.ascending hc), h.worlds hc, Nat.add_assoc]
  goals hc goal w := by rw [h'.goals (h.ascending hc), h.goals hc, Nat.add_assoc]

/-- The steps of a fold add up. -/
theorem foldl {β : Type} {more : β → String → WorldId → ℕ}
    {step : CategoryGoals → β → CategoryGoals} (h : ∀ b, Lists (more b) fun c => step c b)
    (l : List β) :
    Lists (fun goal w => (l.map fun b => more b goal w).sum) fun c => l.foldl step c := by
  induction l with
  | nil => exact .refl
  | cons b l ih =>
    simp only [List.map_cons, List.sum_cons, List.foldl_cons]
    exact ih.comp (h b)

theorem iterate (h : Lists more step) (n : ℕ) : Lists (fun goal w => n * more goal w) step^[n] := by
  induction n with
  | zero =>
    simp only [Nat.zero_mul]
    exact .refl
  | succ n ih =>
    simp only [Nat.succ_mul, Nat.add_comm (n * _)]
    exact ih.comp h

end Lists

/-! ### What a goal, a world and a round add -/

/-- A goal that is met is put behind the world's goals, and the world behind the goal's
worlds. -/
theorem lists_testGoal (inv : Inventory) (goal : Goal) :
    Lists (fun name w => if inv.world = w then if inv.meets goal ∧ goal.name = name then 1 else 0
      else 0) fun c => testGoal inv c goal where
  ascending h := ⟨h.goals.update _ _, h.byWorld.update _ _⟩
  worlds {c} h name w := by
    rw [worldsOf, testGoal, h.goals.find?_update, worldsOf]
    by_cases hname : goal.name = name
    · subst hname
      cases inv.meets goal <;> simp [List.count_singleton]
    · simp [hname]
  goals {c} h name w := by
    rw [goalsOf, testGoal, h.byWorld.find?_update, goalsOf]
    by_cases hw : inv.world = w
    · subst hw
      cases inv.meets goal <;> simp [List.count_singleton]
    · simp [hw]

theorem sum_met (inv : Inventory) (name : String) (w : WorldId) (goals : List Goal) :
    (goals.map fun goal =>
        if inv.world = w then if inv.meets goal ∧ goal.name = name then 1 else 0 else 0).sum =
      if inv.world = w then ((goals.filter inv.meets).map Goal.name).count name else 0 := by
  induction goals with
  | nil => simp
  | cons goal goals ih =>
    rw [List.map_cons, List.sum_cons, ih]
    by_cases hw : inv.world = w
    · cases hmeets : inv.meets goal <;> simp [hw, hmeets, List.count_cons, Nat.add_comm]
    · simp [hw]

/-- A world is listed before any goal is. -/
theorem lists_world (w₀ : WorldId) :
    Lists (fun _ _ => 0) fun c => { c with byWorld := c.byWorld.update w₀ (·.getD []) } where
  ascending h := ⟨h.goals, h.byWorld.update _ _⟩
  worlds _ _ _ := rfl
  goals {c} h goal w := by
    rw [goalsOf, h.byWorld.find?_update, goalsOf]
    split
    · next hw => rw [hw, Option.getD_some, Nat.add_zero]
    · rfl

/-- Of a world, the first category of a name is tested, goal by goal. -/
theorem lists_testWorld (category : String) (inv : Inventory) :
    Lists (fun goal w => if inv.world = w then (inv.metIn category).count goal else 0)
      fun c => testWorld category c inv := by
  have hgoals := Lists.foldl (lists_testGoal inv) (inv.goalsIn category)
  simp only [sum_met] at hgoals
  have hworld := hgoals.comp (lists_world inv.world)
  simp only [Nat.zero_add] at hworld
  have hstep : ∀ c, testWorld category c inv = (inv.goalsIn category).foldl (testGoal inv)
      { c with byWorld := c.byWorld.update inv.world (·.getD []) } := by
    intro c
    rw [testWorld, Inventory.goalsIn]
    cases inv.bearings.goals.find? (·.name == category) <;> rfl
  simp only [hstep]
  exact hworld

/-- How often some worlds meet a goal of a name in their first categories of a name, for those of
them that have the number `w`. -/
def timesMet (category : String) (invs : List Inventory) (goal : String) (w : WorldId) : ℕ :=
  (invs.map fun inv => if inv.world = w then (inv.metIn category).count goal else 0).sum

/-- A round through the worlds. -/
theorem lists_round (category : String) (invs : List Inventory) :
    Lists (timesMet category invs) fun c => invs.foldl (testWorld category) c :=
  Lists.foldl (lists_testWorld category) invs

theorem timesMet_pos_iff {category : String} {invs : List Inventory} {goal : String}
    {w : WorldId} :
    0 < timesMet category invs goal w ↔
      ∃ inv ∈ invs, inv.world = w ∧ goal ∈ inv.metIn category := by
  induction invs with
  | nil => simp [timesMet]
  | cons inv invs ih =>
    rw [timesMet, List.map_cons, List.sum_cons, ← timesMet, Nat.add_pos_iff_pos_or_pos, ih]
    simp only [List.mem_cons, exists_eq_or_imp]
    refine or_congr ?_ Iff.rfl
    split <;> simp [*, List.count_pos_iff]

/-- Worlds with different numbers are met one by one. -/
theorem timesMet_eq_count {category : String} {invs : List Inventory}
    (h : (invs.map Inventory.world).Nodup) {inv : Inventory} (hinv : inv ∈ invs) (goal : String) :
    timesMet category invs goal inv.world = (inv.metIn category).count goal := by
  induction invs with
  | nil => cases hinv
  | cons inv' invs ih =>
    obtain ⟨hnew, hrest⟩ := List.nodup_cons.1 h
    rw [timesMet, List.map_cons, List.sum_cons, ← timesMet]
    rcases List.mem_cons.1 hinv with rfl | hinv
    · have hnone : ¬ 0 < timesMet category invs goal inv.world := by
        rw [timesMet_pos_iff]
        rintro ⟨inv', hinv', hworld, -⟩
        exact hnew (hworld ▸ List.mem_map_of_mem hinv')
      rw [if_pos rfl, Nat.eq_zero_of_not_pos hnone, Nat.add_zero]
    · have hne : inv'.world ≠ inv.world := by
        intro heq
        exact hnew (heq ▸ List.mem_map_of_mem hinv)
      rw [if_neg hne, Nat.zero_add, ih hrest hinv]

end CategoryGoals

namespace Search

/-- Inventories in the order of the worlds are of different worlds. -/
theorem nodup_of_inWorldOrder {invs : List Inventory} (h : inWorldOrder invs = true) :
    (invs.map Inventory.world).Nodup := by
  refine List.nodup_iff_injective_getElem.2 fun i j hij => Fin.ext ?_
  have hworld := inWorldOrder_iff.1 h
  simp only [List.getElem_map, hworld, WorldId.mk.injEq] at hij
  exact hij

/-- **A category is reported on after as many rounds as it is asked for.** -/
theorem find?_testGoals (s : Search) (names : List String) (filter : Option WorldId)
    (category : String) :
    (s.testGoals names filter).find? category =
      if category ∈ names then
        some ((fun c => (s.inventoriesOf filter).foldl (CategoryGoals.testWorld category) c)^[
          names.count category] .empty)
      else none := by
  rw [testGoals, Table.ascending_nil.find?_foldl_update names
    (fun name c => (s.inventoriesOf filter).foldl (CategoryGoals.testWorld name) c)]
  rfl

/-- A goal and a world are listed with each other once for each time that the category is asked
for and each time that it is met. -/
theorem count_testGoals {s : Search} {names : List String} {filter : Option WorldId}
    {category : String} {r : CategoryGoals}
    (h : (s.testGoals names filter).find? category = some r) (goal : String) (w : WorldId) :
    (r.worldsOf goal).count w =
        names.count category * CategoryGoals.timesMet category (s.inventoriesOf filter) goal w ∧
      (r.goalsOf w).count goal =
        names.count category * CategoryGoals.timesMet category (s.inventoriesOf filter) goal w := by
  have hrounds := (CategoryGoals.lists_round category (s.inventoriesOf filter)).iterate
    (names.count category)
  rw [find?_testGoals] at h
  split at h
  · cases h
    refine ⟨(hrounds.worlds CategoryGoals.ascending_empty goal w).trans (Nat.zero_add _),
      (hrounds.goals CategoryGoals.ascending_empty goal w).trans (Nat.zero_add _)⟩
  · cases h

/-- **When goals and worlds are listed once.**  A category is reported on just when it is asked
for.  In the report, a world stands with a goal just when it is tested and meets a goal of that
name in its first category of the name, and it stands there as often as the goal stands with the
world: as often as the category is asked for, times the goals of that name that the world meets.
So both are listed once if and only if, for every tested world that meets any goal of the
category, the category is asked for once, and no two goals that the world meets in it have one
name. -/
theorem listed_once_iff (s : Search) (horder : inWorldOrder s.inventories.toList = true)
    (names : List String) (filter : Option WorldId) (category : String) :
    ((s.testGoals names filter).find? category = none ↔ category ∉ names) ∧
      ∀ r, (s.testGoals names filter).find? category = some r →
        (∀ goal w, w ∈ r.worldsOf goal ↔
          ∃ inv ∈ s.inventoriesOf filter, inv.world = w ∧ goal ∈ inv.metIn category) ∧
        (∀ goal w, (r.worldsOf goal).count w = (r.goalsOf w).count goal) ∧
        (∀ inv ∈ s.inventoriesOf filter, ∀ goal, (r.goalsOf inv.world).count goal =
          names.count category * (inv.metIn category).count goal) ∧
        ((∀ goal, (r.worldsOf goal).Nodup) ∧
            (∀ goal w, w ∈ r.worldsOf goal ↔ (r.goalsOf w).count goal = 1) ↔
          ∀ inv ∈ s.inventoriesOf filter, inv.metIn category ≠ [] →
            names.count category = 1 ∧ (inv.metIn category).Nodup) := by
  have hworlds : ((s.inventoriesOf filter).map Inventory.world).Nodup :=
    (nodup_of_inWorldOrder horder).sublist (List.filter_sublist.map _)
  refine ⟨?_, fun r hr => ?_⟩
  · rw [find?_testGoals]
    split <;> simp [*]
  have hasked : 0 < names.count category := by
    rw [List.count_pos_iff]
    by_contra hnone
    rw [find?_testGoals, if_neg hnone] at hr
    cases hr
  have hcount := count_testGoals hr
  have hmem : ∀ goal w, w ∈ r.worldsOf goal ↔
      ∃ inv ∈ s.inventoriesOf filter, inv.world = w ∧ goal ∈ inv.metIn category := by
    intro goal w
    rw [← List.count_pos_iff, (hcount goal w).1, Nat.mul_pos_iff_of_pos_left hasked,
      CategoryGoals.timesMet_pos_iff]
  have hgoals : ∀ inv ∈ s.inventoriesOf filter, ∀ goal, (r.goalsOf inv.world).count goal =
      names.count category * (inv.metIn category).count goal := by
    intro inv hinv goal
    rw [(hcount goal inv.world).2, CategoryGoals.timesMet_eq_count hworlds hinv]
  refine ⟨hmem, fun goal w => (hcount goal w).1.trans (hcount goal w).2.symm, hgoals, ?_, ?_⟩
  · rintro ⟨-, honce⟩ inv hinv hne
    -- every goal that is met is listed once, and so is the category
    have hone : ∀ goal ∈ inv.metIn category,
        names.count category * (inv.metIn category).count goal = 1 := by
      intro goal hgoal
      rw [← hgoals inv hinv]
      exact (honce goal inv.world).1 ((hmem goal inv.world).2 ⟨inv, hinv, rfl, hgoal⟩)
    obtain ⟨goal, hgoal⟩ := List.exists_mem_of_ne_nil _ hne
    refine ⟨Nat.eq_one_of_mul_eq_one_right (hone goal hgoal), ?_⟩
    refine List.nodup_iff_count_eq_one.2 fun goal hgoal => ?_
    exact Nat.eq_one_of_mul_eq_one_left (hone goal hgoal)
  · intro h
    have hone : ∀ goal w, w ∈ r.worldsOf goal → (r.goalsOf w).count goal = 1 := by
      intro goal w hw
      obtain ⟨inv, hinv, rfl, hgoal⟩ := (hmem goal w).1 hw
      obtain ⟨hnames, hnodup⟩ := h inv hinv (List.ne_nil_of_mem hgoal)
      rw [hgoals inv hinv, hnames, List.count_eq_one_of_mem hnodup hgoal]
    refine ⟨fun goal => List.nodup_iff_count_eq_one.2 fun w hw => ?_, fun goal w => ?_⟩
    · rw [(hcount goal w).1, ← (hcount goal w).2]
      exact hone goal w hw
    · refine ⟨hone goal w, fun hw => ?_⟩
      rw [← List.count_pos_iff, (hcount goal w).1, ← (hcount goal w).2, hw]
      exact Nat.one_pos

/-- A world that asks for a bow, and has one. -/
def bowHunter : Inventory :=
  let hunt : GoalCategory := ⟨"hunt", [⟨"bow", [⟨"Bow", ⟨0⟩, 1, 1⟩]⟩]⟩
  let b := { Bearings.plain ⟨0⟩ Catalog.empty.groups with goals := [hunt] }
  (Inventory.empty b 1).collect (Catalog.empty.freshEntry "Bow")

/-- A search in which the bow is found. -/
def bowHunt : Search := ⟨#[bowHunter], default⟩

/-- The category is asked for twice, and so the goal that is met is listed twice. -/
theorem listed_once_bowHunt :
    inWorldOrder bowHunt.inventories.toList = true ∧
      ∃ r, (bowHunt.testGoals ["hunt", "hunt"] none).find? "hunt" = some r ∧
        r.worldsOf "bow" = [⟨0⟩, ⟨0⟩] ∧ r.goalsOf ⟨0⟩ = ["bow", "bow"] ∧
        ¬ ((∀ goal, (r.worldsOf goal).Nodup) ∧
          ∀ goal w, w ∈ r.worldsOf goal ↔ (r.goalsOf w).count goal = 1) := by
  have horder : inWorldOrder bowHunt.inventories.toList = true := rfl
  have hreport : (bowHunt.testGoals ["hunt", "hunt"] none).find? "hunt" =
      some ⟨[("bow", [⟨0⟩, ⟨0⟩])], [(⟨0⟩, ["bow", "bow"])]⟩ := by decide
  have hmet : bowHunter.metIn "hunt" ≠ [] := by decide
  have htested : bowHunter ∈ bowHunt.inventoriesOf none := List.mem_singleton.2 rfl
  refine ⟨horder, _, hreport, rfl, rfl, fun honce => ?_⟩
  have hlists := (listed_once_iff bowHunt horder ["hunt", "hunt"] none "hunt").2 _ hreport
  have htwice := (hlists.2.2.2.1 honce bowHunter htested hmet).1
  cases htwice

end Search

end Progression
