import Progression.Search.Daytime

/-!
# Expanding a frontier

The exits of a frontier are tried in turn.  An exit that leads to a new region and
whose rule holds reaches that region, whose own exits are then tried as well; an
exit whose rule does not hold is kept for a later time.  The root of a world gets
every time of day that a reached region of the world provides, and a time that is
new to the root puts the exits that failed so far back in the queue.

## Main definitions

* `Exit.isOpening` — whether an exit leads to a region that is not reached.
* `Reached.discover` — reach the region behind an exit.
* `expandFrom`, `Frontier.expand` — the expansion.

## Main statements

* `expandFrom` ends because every region reached leaves fewer exits opening, and
  else the queue gets shorter.
* `contains_expandFrom` — what was reached stays reached.
-/

namespace Progression

/-- Whether an exit leads to a region that is not reached. -/
def Exit.isOpening (e : Exit) (m : Reached) : Bool :=
  e.connected.any fun target => !m.contains target

/-- The number of exits that lead to regions that are not reached. -/
def openings (g : Multiworld) (m : Reached) : Nat :=
  g.exits.toList.countP fun e => e.isOpening m

/-- The times of day known at the root of a world. -/
def rootTimes (g : Multiworld) (w : WorldId) (m : Reached) : TimeOfDay :=
  (m.times? (g.root w)).getD .none

/-- Reach a region, at the times that it provides, and let the root of the world
have these times. -/
def Reached.discover (g : Multiworld) (w : WorldId) (target : RegionId) (m : Reached) :
    Reached :=
  let provides := (g.region target).provides
  (m.insert (g.root w) ((rootTimes g w m).union provides)).insert target provides

@[simp] theorem contains_discover (g : Multiworld) (w : WorldId) (target r : RegionId)
    (m : Reached) : (m.discover g w target).contains r =
      (decide (target = r) || (decide (g.root w = r) || m.contains r)) := by
  simp [Reached.discover]

/-- Fewer exits are opening when more is reached. -/
theorem openings_lt {g : Multiworld} {id : ExitId} {target : RegionId} {m m' : Reached}
    (hc : (g.exit id).connected = some target) (hm : m.contains target = false)
    (hm' : m'.contains target = true)
    (h : ∀ r, m.contains r = true → m'.contains r = true) : openings g m' < openings g m := by
  refine countP_lt_countP ?_ (Multiworld.exit_mem hc) (by simp [Exit.isOpening, hc, hm])
    (by simp [Exit.isOpening, hc, hm'])
  intro e _ he
  cases hcon : e.connected with
  | none => simp [Exit.isOpening, hcon] at he
  | some t =>
    simp only [Exit.isOpening, hcon, Option.any_some, Bool.not_eq_true'] at he ⊢
    cases ht : m.contains t with
    | false => rfl
    | true => exact absurd (h t ht) (by simp [he])

/-- As many exits are opening when the same regions are reached. -/
theorem openings_congr {g : Multiworld} {m m' : Reached}
    (h : ∀ r, m'.contains r = m.contains r) : openings g m' = openings g m := by
  simp [openings, Exit.isOpening, h]

/-- Try the exits of a queue as an age; `failed` are the exits that failed so far. -/
def expandFrom (g : Multiworld) (invs : Array Inventory) (age : Age) (queue failed : List ExitId)
    (m : Reached) : Frontier :=
  match queue with
  | [] => ⟨failed, m⟩
  | id :: queue =>
    match _hc : (g.exit id).connected with
    | none => expandFrom g invs age queue failed m
    | some target =>
      if _hm : m.contains target = true then expandFrom g invs age queue failed m
      else
        match _he : evaluate g invs age .none (g.exit id).post m with
        | (false, m') => expandFrom g invs age queue (failed ++ [id]) m'
        | (true, m') =>
          let region := g.region target
          let w := (g.exit id).world
          if (rootTimes g w m').contains region.provides then
            expandFrom g invs age (queue ++ region.exits) failed (m'.discover g w target)
          else
            expandFrom g invs age (queue ++ failed ++ region.exits) [] (m'.discover g w target)
termination_by (openings g m, queue.length)
decreasing_by
  · exact Prod.Lex.right _ (by simp)
  · exact Prod.Lex.right _ (by simp)
  · have h : ∀ r, m'.contains r = m.contains r := fun r => by
      rw [← contains_evaluate g invs age .none (g.exit id).post m r, _he]
    rw [openings_congr h]
    exact Prod.Lex.right _ (by simp)
  all_goals
    have h : ∀ r, m'.contains r = m.contains r := fun r => by
      rw [← contains_evaluate g invs age .none (g.exit id).post m r, _he]
    exact Prod.Lex.left _ _ <| openings_lt _hc (by simpa using _hm) (by simp)
      fun r hr => by simp [h, hr]

/-- One exit is tried. -/
theorem expandFrom_cons (g : Multiworld) (invs : Array Inventory) (age : Age) (id : ExitId)
    (queue failed : List ExitId) (m : Reached) :
    expandFrom g invs age (id :: queue) failed m =
      match (g.exit id).connected with
      | none => expandFrom g invs age queue failed m
      | some target =>
        if m.contains target = true then expandFrom g invs age queue failed m
        else
          let (holds, m') := evaluate g invs age .none (g.exit id).post m
          if holds = false then expandFrom g invs age queue (failed ++ [id]) m'
          else if (rootTimes g (g.exit id).world m').contains (g.region target).provides then
            expandFrom g invs age (queue ++ (g.region target).exits) failed
              (m'.discover g (g.exit id).world target)
          else
            expandFrom g invs age (queue ++ failed ++ (g.region target).exits) []
              (m'.discover g (g.exit id).world target) := by
  rw [expandFrom]
  split
  · next hc => rw [hc]
  · next target hc =>
    rw [hc]
    dsimp only
    split
    · rfl
    · split <;> next he => simp [he]

/-- Try the exits of a frontier as an age. -/
def Frontier.expand (g : Multiworld) (invs : Array Inventory) (age : Age) (f : Frontier) :
    Frontier :=
  expandFrom g invs age f.queue [] f.reached

/-- What was reached stays reached. -/
theorem contains_expandFrom (g : Multiworld) (invs : Array Inventory) (age : Age)
    (queue failed : List ExitId) (m : Reached) {r : RegionId} (hr : m.contains r = true) :
    (expandFrom g invs age queue failed m).reached.contains r = true := by
  fun_induction expandFrom g invs age queue failed m with
  | case1 => exact hr
  | case2 _ _ _ _ _ ih => exact ih hr
  | case3 _ _ _ _ _ _ _ ih => exact ih hr
  | case4 failed m id queue target _ _ m' he ih =>
    exact ih (by rw [← hr, ← contains_evaluate g invs age .none (g.exit id).post m r, he])
  | case5 failed m id queue target _ _ m' he _ _ _ ih =>
    refine ih ?_
    have := contains_evaluate g invs age .none (g.exit id).post m r
    simp_all
  | case6 failed m id queue target _ _ m' he _ _ _ ih =>
    refine ih ?_
    have := contains_evaluate g invs age .none (g.exit id).post m r
    simp_all

end Progression
