import Mathlib
import Progression.Proofs.Exploration
import Progression.Proofs.OneAge

/-!
# Questions that do not change answers

A search remembers the times of day that it finds out when it is asked, so a question
changes the search.  As long as only times are remembered that really arrive, this does not
show in any later answer.  A question without a time, by day or by night remembers no other
times.  A question for day and night at once does: it spreads from every region that has
one of the two, through exits whose rules hold when both are given, and notes down both.

On the other hand the answer to a question for day and night at once can be changed by a
question for one of them: the day may have come to a region through an exit that is closed
when night is given as well.  But as at given times no rule asks for others, the answers for
given times depend only on what is known of just these, and a question for the same times
changes none of them.

## Main definitions

* `Search.RecallsAt` — what is remembered of some times is only where they arrive.
* `Search.Question` — the questions about regions and spots.
* `Search.Steady` — a question remembers only what arrives, and is not misled by it.

## Main results

* `Search.Question.steady` — a question for one time at most is steady.
* `Search.Question.steady_at` — so is one for day and night, as long as only these count.
* `Search.answers_unchanged_iff` — **a question leaves all answers for given times as they
  are just when it remembers them only where they arrive.**
-/

namespace Progression

namespace TimeOfDay

/-- The day and the night. -/
def dayAndNight : TimeOfDay := ⟨true, true⟩

/-- Some times are none, day or night alone, or both. -/
theorem isNone_or_isSingle {t : TimeOfDay} (h : t ≠ dayAndNight) :
    t.isNone = true ∨ t.isSingle = true := by
  rcases t with ⟨_ | _, _ | _⟩
  · exact .inl rfl
  · exact .inr rfl
  · exact .inr rfl
  · exact absurd rfl h

end TimeOfDay

namespace Search

variable {g : Multiworld} {s t : Search}

/-! ### Steady questions -/

/-- A search differs from `s` in what is remembered only, and some times are known only where
they arrive in `s`. -/
structure RecallsAt (g : Multiworld) (times : TimeOfDay) (s t : Search) : Prop where
  inventories : t.inventories = s.inventories
  visited : t.progress.visited = s.progress.visited
  reached : ∀ age, Progression.RecallsAt g s.inventories age times (s.progress.reached age)
    (t.progress.reached age)

/-- One after the other, more is remembered in the same way, and no region is listed twice. -/
structure Cumulative (R : Search → Search → Prop) : Prop where
  trans : ∀ {s t u}, R s t → R t u → R s u
  distinct : ∀ {s t}, R s t → s.Distinct → t.Distinct

theorem cumulative_recalls (g : Multiworld) : Cumulative (Recalls g) where
  trans := Recalls.trans
  distinct := Recalls.distinct

theorem cumulative_recallsAt (g : Multiworld) (times : TimeOfDay) :
    Cumulative (RecallsAt g times) where
  trans h h' := ⟨h'.inventories.trans h.inventories, h'.visited.trans h.visited,
    fun age => (h.reached age).trans (h.inventories ▸ h'.reached age)⟩
  distinct h hs age := (h.reached age).distinct (hs age)

theorem RecallsAt.ask {times : TimeOfDay} (age : Age) {question : Reached → Bool × Reached}
    (hq : Progression.RecallsAt g s.inventories age times (s.progress.reached age)
      (question (s.progress.reached age)).2) : RecallsAt g times s (s.ask age question).2 := by
  refine ⟨rfl, visited_ask age question s, fun age' => ?_⟩
  change Progression.RecallsAt g s.inventories age' times _
    ((s.progress.setFrontier age _).frontier age').reached
  rw [Progress.frontier_setFrontier]
  split
  · next hage =>
    subst hage
    exact hq
  · exact .refl ..

/-- A question remembers only in the way of `R`, and what is remembered in this way does not
change its answer. -/
structure Steady (R : Search → Search → Prop) (question : Search → Bool × Search) : Prop where
  recalls : ∀ {s}, s.Distinct → R s (question s).2
  answer : ∀ {s t}, s.Distinct → R s t → (question t).1 = (question s).1

namespace Steady

section Sequence

variable {R : Search → Search → Prop} {p q : Search → Bool × Search}

/-- Questions that are asked in sequence are steady together. -/
theorem bothHold (hR : Cumulative R) (hp : Steady R p) (hq : Steady R q) :
    Steady R (Progression.bothHold p q) where
  recalls {s} hs := by
    have hfirst := hp.recalls hs
    unfold Progression.bothHold
    dsimp only
    split
    · exact hR.trans hfirst (hq.recalls (hR.distinct hfirst hs))
    · exact hfirst
  answer {s t} hs h := by
    -- the second question is not misled by what the first one remembers
    have hsecond : ∀ {u}, u.Distinct → (q (p u).2).1 = (q u).1 :=
      fun hu => hq.answer hu (hp.recalls hu)
    rw [bothHold_fst, bothHold_fst, hsecond hs, hsecond (hR.distinct h hs), hp.answer hs h,
      hq.answer hs h]

theorem eitherHolds (hR : Cumulative R) (hp : Steady R p) (hq : Steady R q) :
    Steady R (Progression.eitherHolds p q) where
  recalls {s} hs := by
    have hfirst := hp.recalls hs
    unfold Progression.eitherHolds
    dsimp only
    split
    · exact hfirst
    · exact hR.trans hfirst (hq.recalls (hR.distinct hfirst hs))
  answer {s t} hs h := by
    have hsecond : ∀ {u}, u.Distinct → (q (p u).2).1 = (q u).1 :=
      fun hu => hq.answer hu (hp.recalls hu)
    rw [eitherHolds_fst, eitherHolds_fst, hsecond hs, hsecond (hR.distinct h hs),
      hp.answer hs h, hq.answer hs h]

end Sequence

/-- Whether a region is reached at all, by day or by night is a steady question. -/
theorem reachableAt (hg : g.WellFormed) (age : Age) (region : RegionId) {times : TimeOfDay}
    (ht : times ≠ .dayAndNight) : Steady (Recalls g) (Search.reachableAt g age region times) := by
  rcases TimeOfDay.isNone_or_isSingle ht with hnone | hsingle
  · -- without a time nothing is spread
    have hask : ∀ invs m, Progression.reachableAt g invs age region times m =
        (m.contains region, m) := by
      intro invs m
      unfold Progression.reachableAt Reached.contains
      cases m.times? region with
      | none => rfl
      | some known => simp [hnone]
    have hquestion : ∀ u : Search, (u.reachableAt g age region times).1 =
        (u.progress.reached age).contains region := by
      intro u
      change (Progression.reachableAt g u.inventories age region times _).1 = _
      rw [hask]
    refine ⟨fun {s} _ => ?_, fun {s t} _ h => ?_⟩
    · refine .ask age ?_
      rw [hask]
      exact .refl ..
    · rw [hquestion, hquestion, (h.reached age).contains]
  · have hquestion : ∀ {u : Search}, u.Distinct → ((u.reachableAt g age region times).1 = true ↔
        Arrives g u.inventories age times (u.progress.reached age) region) :=
      fun hu => (reachableAt_spec hg hsingle (hu age) region).1
    refine ⟨fun {s} hs => .ask age (reachableAt_spec hg hsingle (hs age) region).2,
      fun {s t} hs h => ?_⟩
    rw [Bool.eq_iff_iff, hquestion hs, hquestion (h.distinct hs), h.inventories]
    exact (h.reached age).arrives_iff hsingle

/-- Whether a rule holds at given times is a steady question. -/
theorem evaluate (hg : g.WellFormed) (age : Age) (times : TimeOfDay) {p : Post}
    (hp : p.formula.eachTime TimeOfDay.isSingle = true) :
    Steady (Recalls g) (Search.evaluate g age times p) where
  recalls {s} hs := .ask age (evaluate_spec hg (hs age) hp times).2
  answer {s t} hs h := by
    change (Progression.evaluate g t.inventories age times p _).1 = _
    rw [h.inventories]
    exact (h.reached age).evaluate_eq hg (hs age) hp times

/-- Whether a region is reachable at given times depends on what is known of these times
alone. -/
theorem reachableAt_at (hg : g.WellFormed) (age : Age) (region : RegionId) {times : TimeOfDay}
    (ht : times.isNone = false) :
    Steady (RecallsAt g times) (Search.reachableAt g age region times) := by
  have hquestion : ∀ {u : Search}, u.Distinct → ((u.reachableAt g age region times).1 = true ↔
      Arrives g u.inventories age times (u.progress.reached age) region) :=
    fun hu => (reachableAt_marks hg ht (hu age) region).1
  refine ⟨fun {s} hs => .ask age (reachableAt_marks hg ht (hs age) region).2.recallsAt,
    fun {s t} hs h => ?_⟩
  rw [Bool.eq_iff_iff, hquestion hs, hquestion ((cumulative_recallsAt g times).distinct h hs),
    h.inventories]
  exact (h.reached age).arrives_iff

/-- Whether a rule holds at given times does not depend on what is known. -/
theorem evaluate_at (age : Age) {times : TimeOfDay} (ht : times.isNone = false) (p : Post) :
    Steady (RecallsAt g times) (Search.evaluate g age times p) := by
  have hask : ∀ invs m, Progression.evaluate g invs age times p m =
      (p.formula.holdsAt (p.situation invs age times), m) := by
    intro invs m
    have hgiven : (p.situation invs age times).times.isNone = false := ht
    exact Rule.Formula.holds_of_times hgiven p.formula m
  have hquestion : ∀ u : Search, (u.evaluate g age times p).1 =
      p.formula.holdsAt (p.situation u.inventories age times) := fun u =>
    congrArg Prod.fst (hask u.inventories (u.progress.reached age))
  refine ⟨fun {s} _ => .ask age ?_, fun {s t} _ h => ?_⟩
  · rw [hask]
    exact .refl ..
  · rw [hquestion, hquestion, h.inventories]

end Steady

/-! ### What no question changes -/

/-- A search differs from `s` in what is remembered only, rightly or not. -/
structure Follows (s t : Search) : Prop where
  inventories : t.inventories = s.inventories
  visited : t.progress.visited = s.progress.visited
  reached : ∀ age, Remembers (s.progress.reached age) (t.progress.reached age)

namespace Follows

theorem refl (s : Search) : Follows s s := ⟨rfl, rfl, fun _ => .refl _⟩

theorem ask (h : Follows s t) (age : Age) {question : Reached → Bool × Reached}
    (hq : ∀ m, Remembers m (question m).2) : Follows s (t.ask age question).2 := by
  refine ⟨h.inventories, (visited_ask age question t).trans h.visited, fun age' => ?_⟩
  refine (h.reached age').trans ?_
  change Remembers _ ((t.progress.setFrontier age _).frontier age').reached
  rw [Progress.frontier_setFrontier]
  split
  · next hage =>
    subst hage
    exact hq _
  · exact .refl _

theorem reachableAt (h : Follows s t) (age : Age) (region : RegionId) (times : TimeOfDay) :
    Follows s (t.reachableAt g age region times).2 :=
  h.ask age (remembers_reachableAt g _ age region times)

theorem evaluate (h : Follows s t) (age : Age) (times : TimeOfDay) (p : Post) :
    Follows s (t.evaluate g age times p).2 :=
  h.ask age (remembers_evaluate g _ age times p)

theorem canReach (h : Follows s t) (region : RegionId) (scope : AgeScope) (times : TimeOfDay) :
    Follows s (t.canReach g region scope times).2 := by
  have each : ∀ age u, Follows s u → Follows s (u.reachableAt g age region times).2 :=
    fun age u hu => hu.reachableAt age region times
  cases scope with
  | child => exact each .child t h
  | adult => exact each .adult t h
  | both => exact bothHold_keeps (each .adult) (each .child) t h
  | either => exact eitherHolds_keeps (each .adult) (each .child) t h

end Follows

/-! ### Questions -/

/-- A question to a search. -/
inductive Question where
  /-- Whether a region is reachable. -/
  | reach (region : RegionId) (scope : AgeScope) (times : TimeOfDay)
  /-- Whether a spot is accessible. -/
  | access (spot : Spot) (scope : AgeScope) (times : TimeOfDay)

namespace Question

/-- The times that a question is asked for. -/
def times : Question → TimeOfDay
  | reach _ _ times | access _ _ times => times

/-- Put a question to a search. -/
def ask (g : Multiworld) : Question → Search → Bool × Search
  | reach region scope times => canReach g region scope times
  | access spot scope times => spotAccess g spot scope times

theorem postOf_times (hg : g.WellFormed) (spot : Spot) :
    (postOf g spot).formula.eachTime TimeOfDay.isSingle = true := by
  cases spot with
  | location id => exact location_post_times hg id
  | exit id => exact exit_post_times hg id

section Steady

variable {R : Search → Search → Prop} {times : TimeOfDay}

/-- Whether a region is reachable is asked age by age. -/
theorem steady_canReach (hR : Cumulative R) (region : RegionId) (scope : AgeScope)
    (each : ∀ age, Steady R (Search.reachableAt g age region times)) :
    Steady R (canReach g region scope times) := by
  cases scope with
  | child => exact each .child
  | adult => exact each .adult
  | both => exact (each .adult).bothHold hR (each .child)
  | either => exact (each .adult).eitherHolds hR (each .child)

theorem steady_spotAccess (hR : Cumulative R) (spot : Spot) (scope : AgeScope)
    (reach : ∀ age region, Steady R (Search.reachableAt g age region times))
    (rule : ∀ age, Steady R (Search.evaluate g age times (postOf g spot))) :
    Steady R (spotAccess g spot scope times) := by
  have each : ∀ age, Steady R (spotAccessAs g (postOf g spot) times age) :=
    fun age => (reach age _).bothHold hR (rule age)
  cases scope with
  | child => exact each .child
  | adult => exact each .adult
  | either => exact (each .adult).eitherHolds hR (each .child)
  | both =>
    exact (steady_canReach hR _ .both fun age => reach age _).bothHold hR
      ((rule .adult).bothHold hR (rule .child))

/-- **A question for one time at most is steady.** -/
theorem steady (hg : g.WellFormed) {q : Question} (hq : q.times ≠ .dayAndNight) :
    Steady (Recalls g) (q.ask g) := by
  have hR := cumulative_recalls g
  cases q with
  | reach region scope times =>
    exact steady_canReach hR region scope fun age => .reachableAt hg age region hq
  | access spot scope times =>
    exact steady_spotAccess hR spot scope (fun age region => .reachableAt hg age region hq)
      fun age => .evaluate hg age times (postOf_times hg spot)

/-- **A question for given times is steady as long as only these count.** -/
theorem steady_at (hg : g.WellFormed) {q : Question} (hq : q.times.isNone = false) :
    Steady (RecallsAt g q.times) (q.ask g) := by
  have hR := cumulative_recallsAt g q.times
  cases q with
  | reach region scope times =>
    exact steady_canReach hR region scope fun age => .reachableAt_at hg age region hq
  | access spot scope times =>
    exact steady_spotAccess hR spot scope (fun age region => .reachableAt_at hg age region hq)
      fun age => .evaluate_at age hq _

end Steady

/-- Whatever is asked, no region is reached, nothing is collected and no location visited. -/
theorem follows_ask (q : Question) (s : Search) : Follows s (q.ask g s).2 := by
  cases q with
  | reach region scope times => exact (Follows.refl s).canReach region scope times
  | access spot scope times =>
    have rule : ∀ age u, Follows s u →
        Follows s (u.evaluate g age times (postOf g spot)).2 :=
      fun age u hu => hu.evaluate age times _
    have each : ∀ age u, Follows s u →
        Follows s (spotAccessAs g (postOf g spot) times age u).2 :=
      fun age u hu => bothHold_keeps (fun v hv => hv.reachableAt age _ times) (rule age) u hu
    cases scope with
    | child => exact each .child s (.refl s)
    | adult => exact each .adult s (.refl s)
    | either => exact eitherHolds_keeps (each .adult) (each .child) s (.refl s)
    | both =>
      exact bothHold_keeps (fun u hu => hu.canReach _ .both times)
        (bothHold_keeps (rule .adult) (rule .child)) s (.refl s)

/-- The question whether a region is reachable as an age at some times. -/
def reachAs (region : RegionId) (times : TimeOfDay) : Age → Question
  | .child => reach region .child times
  | .adult => reach region .adult times

@[simp] theorem times_reachAs (region : RegionId) (times : TimeOfDay) (age : Age) :
    (reachAs region times age).times = times := by
  cases age <;> rfl

@[simp] theorem ask_reachAs (region : RegionId) (times : TimeOfDay) (age : Age) (s : Search) :
    (reachAs region times age).ask g s = s.reachableAt g age region times := by
  cases age <;> rfl

end Question

open Question

/-- A time that is known is answered with yes. -/
theorem reachableAt_of_hasTime {age : Age} {region : RegionId} {times : TimeOfDay}
    (h : (s.progress.reached age).hasTime times region = true) :
    (s.reachableAt g age region times).1 = true := by
  change (Progression.reachableAt g s.inventories age region times (s.progress.reached age)).1 = _
  unfold Reached.hasTime at h
  unfold Progression.reachableAt
  cases hr : (s.progress.reached age).times? region with
  | none =>
    rw [hr] at h
    cases h
  | some known =>
    rw [hr] at h
    change known.meets times = true at h
    simp [h]

/-- A time that is remembered where it does not arrive would be noticed by asking for it. -/
theorem Question.arrives_of_unchanged (hg : g.WellFormed) (hs : s.Distinct) {q : Question}
    {times : TimeOfDay} (ht : times.isNone = false)
    (hsame : ∀ p : Question, p.times = times →
      (p.ask g (q.ask g s).2).1 = (p.ask g s).1) (age : Age) (region : RegionId)
    (hknown : ((q.ask g s).2.progress.reached age).hasTime times region = true) :
    Arrives g s.inventories age times (s.progress.reached age) region := by
  have hp := hsame (reachAs region times age) (times_reachAs region times age)
  rw [ask_reachAs, ask_reachAs, reachableAt_of_hasTime hknown] at hp
  exact (reachableAt_marks hg ht (hs age) region).1.1 hp.symm

/-- **A question leaves all answers for one time at most as they are just when it remembers
only times that arrive**, and a question for one time at most remembers no others.  It leaves
all answers for given times as they are, day and night at once included, just when it
remembers these times only where they arrive, and a question for the same times does.  This
holds for every search that can be reached. -/
theorem answers_unchanged_iff (hg : g.Built) {r : Rewindable} (hr : r.Reachable g)
    (q : Question) :
    ((∀ p : Question, p.times ≠ .dayAndNight →
        (p.ask g (q.ask g r.live).2).1 = (p.ask g r.live).1) ↔
      Recalls g r.live (q.ask g r.live).2) ∧
      (q.times ≠ .dayAndNight → Recalls g r.live (q.ask g r.live).2) ∧
      (∀ times : TimeOfDay, times.isNone = false →
        ((∀ p : Question, p.times = times →
            (p.ask g (q.ask g r.live).2).1 = (p.ask g r.live).1) ↔
          RecallsAt g times r.live (q.ask g r.live).2)) ∧
      (q.times.isNone = false → RecallsAt g q.times r.live (q.ask g r.live).2) := by
  have hsound := (hr.sound hg.wellFormed).1
  have hg := hg.wellFormed
  have hdistinct : r.live.Distinct := fun age => (hsound age).distinct
  have hfollows := follows_ask (g := g) q r.live
  refine ⟨⟨fun hsame => ?_, fun hrecalls p hp => (steady hg hp).answer hdistinct hrecalls⟩,
    fun hq => (steady hg hq).recalls hdistinct, fun times ht => ⟨fun hsame => ?_, ?_⟩,
    fun hq => (steady_at hg hq).recalls hdistinct⟩
  · refine ⟨hfollows.inventories, hfollows.visited, fun age => ⟨hfollows.reached age, ?_⟩⟩
    intro t region ht
    refine arrives_of_unchanged hg hdistinct (TimeOfDay.isNone_of_isSingle ht) (fun p hp => ?_)
      age region
    refine hsame p ?_
    rw [hp]
    rintro rfl
    cases ht
  · exact ⟨hfollows.inventories, hfollows.visited, fun age =>
      ⟨hfollows.reached age, arrives_of_unchanged hg hdistinct ht hsame age⟩⟩
  · rintro hrecalls p rfl
    exact (steady_at hg ht).answer hdistinct hrecalls

/-- A world with a field, where it is day, and a cave. -/
def fieldAndCave : Multiworld :=
  let start := (Multiworld.empty .empty).addWorld { Profile.plain with timeMatters := true }
  let w := start.1
  let root := start.2.root w
  let m := (start.2.addRegion w "Field" .atDay).2
  let m := (m.addRegion w "Cave" .none).2
  let m := (m.addExit root "Root -> Field" "Field" "True").2
  let m := (m.addExit root "Root -> Cave" "Cave" "True").2
  (Action.result (compileRules .empty 1) m).2

theorem built_fieldAndCave : fieldAndCave.Built :=
  .compileRules .empty 1 <|
    .addExit (by decide) _ _ _ <| .addExit (by decide) _ _ _ <|
    .addRegion (by decide) _ _ <| .addRegion (by decide) _ _ <|
    .addWorld _ (.empty _)

/-- By asking for day and night at once, a search comes to believe that the cave is
reachable by night.  The answers to all questions for both stay as they are. -/
theorem answers_changed_fieldAndCave :
    ∃ s, start fieldAndCave fieldAndCave.initialInventories = .ok s ∧
      let cave : RegionId := ⟨2⟩
      let q : Question := reach cave .adult .dayAndNight
      ¬ Recalls fieldAndCave s (q.ask fieldAndCave s).2 ∧
        (∃ p : Question, p.times ≠ .dayAndNight ∧
          (p.ask fieldAndCave (q.ask fieldAndCave s).2).1 ≠ (p.ask fieldAndCave s).1) ∧
        ∀ p : Question, p.times = .dayAndNight →
          (p.ask fieldAndCave (q.ask fieldAndCave s).2).1 = (p.ask fieldAndCave s).1 := by
  have hanswers : (start fieldAndCave fieldAndCave.initialInventories).toOption.any (fun s =>
      let q : Question := reach ⟨2⟩ .adult .dayAndNight
      let p : Question := reach ⟨2⟩ .adult .atNight
      (p.ask fieldAndCave (q.ask fieldAndCave s).2).1 && !(p.ask fieldAndCave s).1) = true := by
    cbv
  cases h : start fieldAndCave fieldAndCave.initialInventories with
  | error fault =>
    rw [h] at hanswers
    cases hanswers
  | ok s =>
    rw [h] at hanswers
    change ((_ : Bool) && !_) = true at hanswers
    rw [Bool.and_eq_true, Bool.not_eq_true'] at hanswers
    have hchanged : ((reach ⟨2⟩ .adult .atNight).ask fieldAndCave
        ((reach ⟨2⟩ .adult .dayAndNight).ask fieldAndCave s).2).1 ≠
          ((reach ⟨2⟩ .adult .atNight).ask fieldAndCave s).1 := by
      rw [hanswers.1, hanswers.2]
      decide
    have hplain : (reach ⟨2⟩ .adult .atNight).times ≠ .dayAndNight := by decide
    obtain ⟨hplainly, -, hgiven, hsteady⟩ := answers_unchanged_iff built_fieldAndCave (.start h)
      (reach ⟨2⟩ .adult .dayAndNight)
    refine ⟨s, rfl, fun hrecalls => ?_, ⟨_, hplain, hchanged⟩, ?_⟩
    · exact hchanged (hplainly.2 hrecalls _ hplain)
    · exact (hgiven .dayAndNight rfl).2 (hsteady rfl)

end Search

end Progression
