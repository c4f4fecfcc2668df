import Mathlib.Data.List.Perm.Subperm
import Progression.Proofs.Ledgers

/-!
# How many rounds it takes to settle the subrules

A round gives places to the pending subrules of a world, and resolving them may bring up
further ones, which are left to the next round.  No rule is registered twice for a region,
so the rounds come to an end if only finitely many pairs of a region and a rule come up.
That is not always so.  The nesting of template calls is limited within one resolution, but
a template that asks for itself as a subrule is resolved anew in every round, each time with
larger arguments.

## Main definitions

* `Multiworld.emptied` — the worlds after the pending subrules of one are taken out.
* `growingTemplates` — a template that asks for itself as a subrule.

## Main results

* `registered_of_unsettled` — every round that leaves something to do registers a subrule.
* `pending_finishRules` — where all is settled, nothing is pending.
* `result_finishRules_of_le` — once all is settled, or has failed, further rounds do nothing.
* `settles_iff` — **the rounds come to an end just when only finitely many pairs of a region
  and a rule come up in them.**
-/

namespace Progression

open Rule

namespace Multiworld

variable {templates : Templates} {w : WorldId} {m m' : Multiworld}

/-! ### One round -/

/-- The worlds after the pending subrules of a world are taken out. -/
def emptied (m : Multiworld) (w : WorldId) : Multiworld :=
  m.modifyWorld w fun x => { x with ledger := { (m.world w).ledger with pending := [] } }

theorem ledger_emptied (m : Multiworld) (w v : WorldId) :
    ((m.emptied w).world v).ledger =
      if v = w then { (m.world v).ledger with pending := [] } else (m.world v).ledger := by
  unfold emptied
  rw [world_modifyWorld]
  by_cases hv : v = w
  · rw [if_pos hv, hv]
    split
    · rfl
    · next hlt =>
      -- a world that is not in use has no pending subrules
      have hdefault : m.world w = default := by
        rw [world, Array.getD_eq_getD_getElem?,
          Array.getElem?_eq_none (Nat.not_lt.1 fun h => hlt ⟨rfl, h⟩)]
        rfl
      rw [hdefault]
      rfl
  · rw [if_neg hv, if_neg fun h => hv h.1.symm]

theorem regionNamed_emptied (m : Multiworld) (w v : WorldId) (name : String) :
    (m.emptied w).regionNamed? v name = m.regionNamed? v name :=
  regionNamed_modifyWorld m w v name fun _ => rfl

/-- Nothing changes when there is nothing to take out. -/
theorem emptied_of_nil (h : (m.world w).ledger.pending = []) : m.emptied w = m := by
  have hworld : { m.world w with ledger := { (m.world w).ledger with pending := [] } } =
      m.world w := by
    rw [← h]
  unfold emptied modifyWorld
  rw [modify_eq_self (d := default) fun _ => hworld]

theorem growsIn_settleAll (templates : Templates) (w : WorldId) (ss : List Subrule)
    (m : Multiworld) :
    GrowsIn w m (Action.result (ss.forM (settle templates w)) m).2 :=
  ((Keeps.forM ss fun s _ => growsIn_keeps_settle m s).run m (.refl w m)).1

/-- What a round does, and what is left to the others. -/
theorem result_settleRounds_succ (rounds : Nat) (m : Multiworld) :
    Action.result (settleRounds templates w (rounds + 1)) m =
      if (m.world w).ledger.pending.isEmpty then (.ok true, m.emptied w)
      else
        match Action.result ((m.world w).ledger.pending.forM (settle templates w))
            (m.emptied w) with
        | (.ok _, m') => Action.result (settleRounds templates w rounds) m'
        | (.error e, m') => (.error e, m') := by
  rw [settleRounds, Action.result_bind, result_takePending]
  dsimp only
  split
  · rfl
  · rw [Action.result_bind, emptied]
    generalize Action.result (List.forM _ _) _ = p
    obtain ⟨_ | _, m'⟩ := p <;> rfl

theorem result_settleRounds_zero (m : Multiworld) :
    Action.result (settleRounds templates w 0) m =
      (.ok (m.world w).ledger.pending.isEmpty, m) := rfl

/-! ### Unfinished rounds -/

/-- Rounds that are not enough leave something to do to the first one of them. -/
theorem pending_of_unsettled {rounds : Nat}
    (h : Action.result (settleRounds templates w rounds) m = (.ok false, m')) :
    (m.world w).ledger.pending ≠ [] := by
  intro hnil
  cases rounds with
  | zero =>
    rw [result_settleRounds_zero, hnil] at h
    cases h
  | succ rounds =>
    rw [result_settleRounds_succ, hnil] at h
    cases h

/-- **Every round that leaves something to do registers a subrule.** -/
theorem registered_of_unsettled {rounds : Nat}
    (h : Action.result (settleRounds templates w rounds) m = (.ok false, m')) :
    (m.world w).ledger.registered.length + rounds ≤ (m'.world w).ledger.registered.length := by
  induction rounds generalizing m with
  | zero =>
    rw [result_settleRounds_zero] at h
    obtain ⟨-, rfl⟩ := Prod.mk.inj h
    exact Nat.le_refl _
  | succ rounds ih =>
    rw [result_settleRounds_succ] at h
    have hgrows := growsIn_settleAll templates w
      (m.world w).ledger.pending (m.emptied w)
    split at h
    · cases h
    · split at h
      · next m₁ hround =>
        rw [hround] at hgrows
        have hledger := ledger_emptied m w w
        rw [if_pos rfl] at hledger
        -- what is pending after the round was registered in it
        have hmore := hgrows.registry.registered_lt (by rw [registry, hledger])
          (pending_of_unsettled h)
        rw [registry, registry, hledger] at hmore
        have hrest := ih h
        dsimp only at hmore
        omega
      · cases h

/-- If some world is not settled after a number of rounds, at least as many subrules are
registered there. -/
theorem exists_registered {rounds : Nat} {ws : List WorldId}
    (h : Action.result (settleWorlds templates rounds ws) m = (.ok false, m')) :
    ∃ w, rounds ≤ (m'.world w).ledger.registered.length := by
  induction ws generalizing m with
  | nil => cases h
  | cons w ws ih =>
    rw [settleWorlds, Action.result_bind] at h
    cases hw : Action.result (settleRounds templates w rounds) m with
    | mk r m₁ =>
      rw [hw] at h
      cases r with
      | error e => cases h
      | ok done =>
        cases done with
        | true => exact ih h
        | false =>
          cases h
          have hregistered := registered_of_unsettled hw
          exact ⟨w, by omega⟩

/-! ### Finished rounds -/

/-- The rounds in a world leave the subrules of the others. -/
theorem ledger_settleRounds {rounds : Nat} {v : WorldId} (hv : v ≠ w)
    {r : Except RuleError Bool}
    (h : Action.result (settleRounds templates w rounds) m = (r, m')) :
    (m'.world v).ledger = (m.world v).ledger := by
  induction rounds generalizing m with
  | zero =>
    rw [result_settleRounds_zero] at h
    obtain ⟨-, rfl⟩ := Prod.mk.inj h
    rfl
  | succ rounds ih =>
    have hemptied : ((m.emptied w).world v).ledger = (m.world v).ledger := by
      rw [ledger_emptied, if_neg hv]
    have hgrows := growsIn_settleAll templates w (m.world w).ledger.pending (m.emptied w)
    rw [result_settleRounds_succ] at h
    split at h
    · obtain ⟨-, rfl⟩ := Prod.mk.inj h
      exact hemptied
    · split at h
      · next hround =>
        rw [hround] at hgrows
        rw [ih h, hgrows.ledger v hv, hemptied]
      · next hround =>
        rw [hround] at hgrows
        obtain ⟨-, rfl⟩ := Prod.mk.inj h
        rw [hgrows.ledger v hv, hemptied]

theorem pending_settleRounds {rounds : Nat}
    (h : Action.result (settleRounds templates w rounds) m = (.ok true, m')) :
    (m'.world w).ledger.pending = [] := by
  induction rounds generalizing m with
  | zero =>
    rw [result_settleRounds_zero] at h
    obtain ⟨hnil, rfl⟩ := Prod.mk.inj h
    exact List.isEmpty_iff.1 (Except.ok.inj hnil)
  | succ rounds ih =>
    rw [result_settleRounds_succ] at h
    split at h
    · obtain ⟨-, rfl⟩ := Prod.mk.inj h
      rw [ledger_emptied, if_pos rfl]
    · split at h
      · exact ih h
      · cases h

/-- What is settled stays settled while other worlds are. -/
theorem pending_settleWorlds {rounds : Nat} {ws : List WorldId} {v : WorldId}
    (h : Action.result (settleWorlds templates rounds ws) m = (.ok true, m'))
    (hv : v ∈ ws ∨ (m.world v).ledger.pending = []) : (m'.world v).ledger.pending = [] := by
  induction ws generalizing m with
  | nil =>
    cases h
    exact hv.resolve_left List.not_mem_nil
  | cons w ws ih =>
    rw [settleWorlds, Action.result_bind] at h
    cases hw : Action.result (settleRounds templates w rounds) m with
    | mk r m₁ =>
      rw [hw] at h
      cases r with
      | error e => cases h
      | ok done =>
        cases done with
        | false => cases h
        | true =>
          refine ih h ?_
          by_cases hvw : v = w
          · rw [hvw]
            exact .inr (pending_settleRounds hw)
          · rw [ledger_settleRounds hvw hw]
            rcases hv with hv | hv
            · exact .inl ((List.mem_cons.1 hv).resolve_left hvw)
            · exact .inr hv

/-- **Where all is settled, nothing is pending.** -/
theorem pending_finishRules {rounds : Nat}
    (h : Action.result (finishRules templates rounds) m = (.ok true, m')) (v : WorldId) :
    (m'.world v).ledger.pending = [] := by
  refine pending_settleWorlds h ?_
  by_cases hv : v.index < m.worlds.size
  · exact .inl (mem_worldIds.2 hv)
  · rw [world, Array.getD_eq_getD_getElem?, Array.getElem?_eq_none (by omega)]
    exact .inr rfl

theorem pending_compileRules {rounds : Nat}
    (h : Action.result (compileRules templates rounds) m = (.ok true, m')) (v : WorldId) :
    (m'.world v).ledger.pending = [] := by
  rw [result_compileRules] at h
  split at h
  · exact pending_finishRules h v
  · cases h

/-! ### Further rounds -/

theorem result_settleRounds_of_done {rounds : Nat} {r : Except RuleError Bool}
    (h : Action.result (settleRounds templates w rounds) m = (r, m')) (hr : r ≠ .ok false) :
    Action.result (settleRounds templates w (rounds + 1)) m = (r, m') := by
  induction rounds generalizing m with
  | zero =>
    rw [result_settleRounds_zero] at h
    obtain ⟨rfl, rfl⟩ := Prod.mk.inj h
    cases hnil : (m.world w).ledger.pending with
    | nil =>
      rw [result_settleRounds_succ, hnil, emptied_of_nil hnil]
      rfl
    | cons s ss =>
      rw [hnil] at hr
      exact absurd rfl hr
  | succ rounds ih =>
    rw [result_settleRounds_succ] at h ⊢
    split at h
    · next hnil =>
      rw [if_pos hnil]
      exact h
    · next hne =>
      rw [if_neg hne]
      split at h
      · exact ih h
      · exact h

theorem result_settleWorlds_of_done {rounds : Nat} {ws : List WorldId}
    {r : Except RuleError Bool}
    (h : Action.result (settleWorlds templates rounds ws) m = (r, m')) (hr : r ≠ .ok false) :
    Action.result (settleWorlds templates (rounds + 1) ws) m = (r, m') := by
  induction ws generalizing m with
  | nil => exact h
  | cons w ws ih =>
    rw [settleWorlds, Action.result_bind] at h ⊢
    cases hw : Action.result (settleRounds templates w rounds) m with
    | mk r₁ m₁ =>
      rw [hw] at h
      cases r₁ with
      | error e =>
        rw [result_settleRounds_of_done hw nofun]
        exact h
      | ok done =>
        cases done with
        | true =>
          rw [result_settleRounds_of_done hw (by decide)]
          exact ih h
        | false =>
          cases h
          exact absurd rfl hr

theorem result_finishRules (templates : Templates) (rounds : Nat) (m : Multiworld) :
    Action.result (finishRules templates rounds) m =
      Action.result (settleWorlds templates rounds m.worldIds) m := rfl

/-- **Once all is settled, or has failed, further rounds do nothing.** -/
theorem result_finishRules_of_le {rounds n : Nat} (hn : rounds ≤ n)
    (hr : (Action.result (finishRules templates rounds) m).1 ≠ .ok false) :
    Action.result (finishRules templates n) m = Action.result (finishRules templates rounds) m := by
  obtain ⟨k, rfl⟩ := Nat.exists_eq_add_of_le hn
  induction k with
  | zero => rfl
  | succ k ih =>
    have ih := ih (Nat.le_add_right _ _)
    rw [← ih] at hr ⊢
    exact result_settleWorlds_of_done rfl hr

/-! ### Finitely many rounds -/

/-- **The rounds come to an end just when only finitely many pairs of a region and a rule
come up in them**: then, and only then, there is a number of rounds after which all subrules
have their places or an error has been found. -/
theorem settles_iff (hm : m.Built) (templates : Templates) :
    (∃ rounds, (Action.result (finishRules templates rounds) m).1 ≠ .ok false) ↔
      ∃ known : List (String × Term), ∀ rounds w,
        ∀ s ∈ ((Action.result (finishRules templates rounds) m).2.world w).ledger.registered,
          (s.region, s.body) ∈ known := by
  constructor
  · rintro ⟨rounds, hr⟩
    -- nothing new comes up after these rounds
    let after (n : Nat) : Multiworld := (Action.result (finishRules templates n) m).2
    let pairs (n : Nat) : List (String × Term) := (after n).worlds.toList.flatMap fun x =>
      x.ledger.registered.map fun s => (s.region, s.body)
    have hpairs : ∀ n w, ∀ s ∈ ((after n).world w).ledger.registered,
        (s.region, s.body) ∈ pairs n := by
      intro n w s hs
      by_cases hw : w.index < (after n).worlds.size
      · have hworld : (after n).world w = (after n).worlds[w.index] := by
          rw [world, Array.getD_eq_getD_getElem?, Array.getElem?_eq_getElem hw]
          rfl
        rw [hworld] at hs
        exact List.mem_flatMap.2 ⟨_, Array.getElem_mem_toList hw, List.mem_map_of_mem hs⟩
      · rw [world, Array.getD_eq_getD_getElem?, Array.getElem?_eq_none (by omega)] at hs
        cases hs
    refine ⟨(List.range (rounds + 1)).flatMap pairs, fun n w s hs => ?_⟩
    rw [List.mem_flatMap]
    rcases Nat.le_total n rounds with hn | hn
    · exact ⟨n, List.mem_range.2 (by omega), hpairs n w s hs⟩
    · rw [result_finishRules_of_le hn hr] at hs
      exact ⟨rounds, List.mem_range.2 (by omega), hpairs rounds w s hs⟩
  · rintro ⟨known, hknown⟩
    -- more rounds than there are pairs would register too many subrules
    refine ⟨known.length + 1, fun hfalse => ?_⟩
    cases hresult : Action.result (finishRules templates (known.length + 1)) m with
    | mk r m' =>
      rw [hresult] at hfalse
      cases hfalse
      obtain ⟨w, hw⟩ := exists_registered (result_finishRules templates _ m ▸ hresult)
      have hbuilt : m'.Built := by
        have h := hm.finishRules templates (known.length + 1)
        rwa [hresult] at h
      have hnodup := (hbuilt.sound w).numbered.nodup
      have hsub : ((m'.registry w).ledger.registered.map fun s => (s.region, s.body)) ⊆ known := by
        intro pair hpair
        obtain ⟨s, hs, rfl⟩ := List.mem_map.1 hpair
        have h := hknown (known.length + 1) w s
        rw [hresult] at h
        exact h hs
      have hlength := (hnodup.subperm hsub).length_le
      rw [List.length_map] at hlength
      change known.length + 1 ≤ (m'.registry w).ledger.registered.length at hw
      omega

/-! ### A template without end -/

/-- The template `grow(x)`, which stands for `at('Root', grow(not x))`. -/
def growingTemplates : Templates :=
  ⟨[("grow", ⟨"grow", ["x"], .call "at" [.str "Root", .call "grow" [.not (.name "x")]]⟩)]⟩

example : (Templates.ofPairs [("grow(x)", "at('Root', grow(not x))")]).toOption =
    some growingTemplates := by decide +kernel

/-- The bow, negated a number of times. -/
def negations : Nat → Term
  | 0 => .name "Bow"
  | n + 1 => .not (negations n)

theorem negations_injective {m n : Nat} (h : negations m = negations n) : m = n := by
  induction m generalizing n with
  | zero =>
    cases n with
    | zero => rfl
    | succ n => cases h
  | succ m ih =>
    cases n with
    | zero => cases h
    | succ n =>
      injection h with h
      rw [ih h]

/-- The call of the template with such an argument. -/
def growingCall (n : Nat) : Term := .call "grow" [negations n]

theorem growingCall_injective {m n : Nat} (h : growingCall m = growingCall n) : m = n := by
  injection h with _ h
  injection h with h
  exact negations_injective h

/-- The call asks for the next one as a subrule. -/
theorem resolve_growingCall {lx : Lexicon} (h : lx.templates = growingTemplates) (n : Nat) :
    resolve lx (growingCall n) = subruleCondition "Root" (growingCall (n + 1)) := by
  let call : Template :=
    ⟨"grow", ["x"], .call "at" [.str "Root", .call "grow" [.not (.name "x")]]⟩
  have hget : lx.templates.get? "grow" = some call := by
    rw [h]
    rfl
  have hcall : ∀ expand, condition lx expand (growingCall n) =
      templateCall lx expand "grow" [negations n] (growingCall n) := by
    intro expand
    rw [growingCall, condition]
    rfl
  have hbody : call.instantiate [negations n] =
      .call "at" [.str "Root", growingCall (n + 1)] := rfl
  have hat : ∀ depth, conditionAt lx depth (.call "at" [.str "Root", growingCall (n + 1)]) =
      subruleCondition "Root" (growingCall (n + 1)) := by
    intro depth
    cases depth <;> rw [conditionAt, condition] <;> rfl
  rw [resolve, expansionLimit, conditionAt, hcall, templateCall, hget]
  dsimp only
  rw [hbody, hat]
  rfl

theorem result_growingCall (lx : Lexicon) (h : lx.templates = growingTemplates) (n : Nat)
    (r : Registry) :
    Action.result (resolve lx (growingCall n)) r =
      (.ok (.item (r.registerSubrule "Root" (growingCall (n + 1))).1),
        (r.registerSubrule "Root" (growingCall (n + 1))).2) := by
  rw [resolve_growingCall h, subruleCondition, Action.result_bind, Action.result_modifyGet]
  rfl

/-- The worlds before the round that gives the `n`th call its place. -/
structure AtStage (n : Nat) (m : Multiworld) : Prop where
  size : m.worlds.size = 1
  root : ∃ r, m.regionNamed? ⟨0⟩ "Root" = some r
  pending : ∃ s : Subrule, (m.world ⟨0⟩).ledger.pending = [s] ∧ s.region = "Root" ∧
    s.body = growingCall n
  registered : ∀ s ∈ (m.world ⟨0⟩).ledger.registered, ∃ k ≤ n, s.body = growingCall k

/-- A round leads to the next stage. -/
theorem AtStage.round {n : Nat} (h : AtStage n m) :
    ∃ m', Action.result ((m.world ⟨0⟩).ledger.pending.forM (settle growingTemplates ⟨0⟩))
      (m.emptied ⟨0⟩) = (.ok ⟨⟩, m') ∧ AtStage (n + 1) m' := by
  obtain ⟨s, hpending, hregion, hbody⟩ := h.pending
  obtain ⟨parent, hparent⟩ := h.root
  have hledger := ledger_emptied m ⟨0⟩ ⟨0⟩
  rw [if_pos rfl] at hledger
  have hsize : (m.emptied ⟨0⟩).worlds.size = 1 := Array.size_modify.trans h.size
  have hparent' : (m.emptied ⟨0⟩).regionNamed? ⟨0⟩ s.region = some parent := by
    rw [regionNamed_emptied, hregion, hparent]
  generalize m.emptied ⟨0⟩ = m₁ at hledger hsize hparent' ⊢
  -- the next call is new, so it becomes a subrule
  have hnew : (m₁.registry ⟨0⟩).ledger.find? "Root" (growingCall (n + 1)) = none := by
    rw [Ledger.find?, List.find?_eq_none]
    intro t ht
    rw [registry, hledger] at ht
    obtain ⟨k, hk, hkbody⟩ := h.registered t ht
    rw [hkbody, Bool.and_eq_true, beq_iff_eq, beq_iff_eq]
    rintro ⟨-, heq⟩
    have := growingCall_injective heq
    omega
  obtain ⟨s', hregion', hbody', hregistered', hpending'⟩ :=
    Registry.Grows.registerSubrule_of_new hnew
  have hresolve := result_growingCall ⟨(m₁.world ⟨0⟩).profile, growingTemplates,
    some ⟨s.event, s.region, some eventKind⟩⟩ rfl n (m₁.registry ⟨0⟩)
  rw [← hbody] at hresolve
  generalize (m₁.registry ⟨0⟩).registerSubrule "Root" (growingCall (n + 1)) = next at *
  obtain ⟨guard, book, hguard, hcompile⟩ := result_compileAt_of_ok
    (resolve · s.body) hresolve
  have hnever : ¬ guard.isNever = true := by
    rw [Guard.isNever, hguard, beq_iff_eq]
    intro hfalse
    cases hfalse
  have hsettle := result_settle_of_some growingTemplates hparent'
  rw [hcompile] at hsettle
  dsimp only at hsettle
  rw [if_neg hnever] at hsettle
  have hgrows := growsIn_settle growingTemplates ⟨0⟩ m₁ s
  rw [hsettle] at hgrows
  generalize hm₂ : Multiworld.modifyWorld _ _ _ = m₂ at hsettle hgrows
  have hsame := SameSubrules.pushLocation m₂ (eventLocation ⟨0⟩ s parent guard)
  have hledger₂ : (m₂.world ⟨0⟩).ledger = next.2.ledger := by
    have hzero : 0 < m₁.worlds.size := by omega
    rw [← hm₂, world_modifyWorld, if_pos (And.intro rfl hzero)]
  rw [registry, hledger] at hregistered' hpending'
  rw [hpending]
  refine ⟨(m₂.pushLocation (eventLocation ⟨0⟩ s parent guard)).2, ?_, ?_⟩
  · change Action.result (settle growingTemplates ⟨0⟩ s >>= fun _ => pure PUnit.unit) m₁ = _
    rw [Action.result_bind, hsettle]
    rfl
  · constructor
    case size => exact hgrows.size.trans hsize
    case root =>
      have hnames : m₂.regionNamed? ⟨0⟩ s.region = m₁.regionNamed? ⟨0⟩ s.region := by
        rw [← hm₂]
        exact regionNamed_modifyWorld _ _ _ _ fun _ => rfl
      rw [regionNamed_pushLocation, ← hregion, hnames]
      exact ⟨parent, hparent'⟩
    case pending =>
      refine ⟨s', ?_, hregion', hbody'⟩
      rw [hsame.pending, hledger₂, hpending']
      rfl
    case registered =>
      intro t ht
      rw [hsame.registered, hledger₂, hregistered'] at ht
      rcases List.mem_cons.1 ht with rfl | ht
      · exact ⟨n + 1, Nat.le_refl _, hbody'⟩
      · obtain ⟨k, hk, hkbody⟩ := h.registered t ht
        exact ⟨k, by omega, hkbody⟩

/-- No number of rounds is enough. -/
theorem AtStage.unsettled {n : Nat} (h : AtStage n m) (rounds : Nat) :
    ∃ m', Action.result (settleRounds growingTemplates ⟨0⟩ rounds) m = (.ok false, m') := by
  induction rounds generalizing n m with
  | zero =>
    obtain ⟨s, hpending, -⟩ := h.pending
    rw [result_settleRounds_zero, hpending]
    exact ⟨m, rfl⟩
  | succ rounds ih =>
    obtain ⟨m₁, hround, h₁⟩ := h.round
    obtain ⟨m', hm'⟩ := ih h₁
    refine ⟨m', ?_⟩
    obtain ⟨s, hpending, -⟩ := h.pending
    rw [result_settleRounds_succ, hround, hpending]
    exact hm'

theorem AtStage.unfinished {n : Nat} (h : AtStage n m) (rounds : Nat) :
    (Action.result (finishRules growingTemplates rounds) m).1 = .ok false := by
  obtain ⟨m', hm'⟩ := h.unsettled rounds
  have hids : m.worldIds = [⟨0⟩] := by
    rw [worldIds, h.size]
    rfl
  rw [result_finishRules, hids, settleWorlds, Action.result_bind, hm']
  rfl

/-- A world with a chest that asks for the template. -/
def growingWorld : Multiworld :=
  let (w, m) := (Multiworld.empty .empty).addWorld .plain
  let (_, m) := m.addLocation (m.root w) "Chest" "Chest" "grow(Bow)"
  (Action.result (compileRules growingTemplates 0) m).2

theorem built_growingWorld : growingWorld.Built :=
  .compileRules growingTemplates 0 <| .addLocation (by decide) _ _ _ <|
    .addWorld _ (.empty _)

/-- The compilation leaves the first call to be settled. -/
theorem atStage_growingWorld : AtStage 1 growingWorld where
  size := by decide +kernel
  root := ⟨⟨0⟩, by decide +kernel⟩
  pending := ⟨⟨"Root", growingCall 1, "Root Subrule 1", ⟨0⟩⟩, by decide +kernel, rfl, rfl⟩
  registered := by
    have hregistered : (growingWorld.world ⟨0⟩).ledger.registered =
        [⟨"Root", growingCall 1, "Root Subrule 1", ⟨0⟩⟩] := by decide +kernel
    rw [hregistered]
    intro s hs
    rw [List.mem_singleton.1 hs]
    exact ⟨1, Nat.le_refl _, rfl⟩

/-- The template is never settled, so infinitely many calls of it come up. -/
theorem growingWorld_never_settles :
    (∀ rounds, (Action.result (finishRules growingTemplates rounds) growingWorld).1 = .ok false) ∧
      ¬ ∃ known : List (String × Term), ∀ rounds w,
        ∀ s ∈ ((Action.result (finishRules growingTemplates rounds)
          growingWorld).2.world w).ledger.registered, (s.region, s.body) ∈ known := by
  have hfalse := atStage_growingWorld.unfinished
  refine ⟨hfalse, fun hknown => ?_⟩
  obtain ⟨rounds, hr⟩ := (settles_iff built_growingWorld growingTemplates).2 hknown
  exact hr (hfalse rounds)

end Multiworld

end Progression
