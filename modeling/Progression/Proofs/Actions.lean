/-!
# Reasoning about actions

Rules are resolved, and worlds compiled, by actions that change a state and may end
with an error.  Two properties of actions are built up along their text: that an
action keeps an invariant of the state, also when it fails, and that wherever an
action succeeds another one succeeds with the corresponding result in the same state.

## Main definitions

* `Action` — actions with an error and a state.
* `Keeps P Q act` — `act` keeps `P`, and its results satisfy `Q`.
* `Tracks φ act act'` — `act'` follows `act` with the results sent through `φ`.
-/

namespace Progression

/-- An action that changes a state and may end with an error. -/
abbrev Action (ε σ α : Type) := ExceptT ε (StateM σ) α

namespace Action

variable {ε σ α β : Type}

/-- The result of an action, and the state after it. -/
def result (act : Action ε σ α) (s : σ) : Except ε α × σ := act.run.run s

@[simp] theorem result_pure (a : α) (s : σ) :
    (pure a : Action ε σ α).result s = (.ok a, s) := rfl

@[simp] theorem result_throw (e : ε) (s : σ) :
    (throw e : Action ε σ α).result s = (.error e, s) := rfl

@[simp] theorem result_get (s : σ) : (get : Action ε σ σ).result s = (.ok s, s) := rfl

@[simp] theorem result_set (s t : σ) :
    (set t : Action ε σ PUnit).result s = (.ok ⟨⟩, t) := rfl

@[simp] theorem result_modifyGet (f : σ → α × σ) (s : σ) :
    (modifyGet f : Action ε σ α).result s = (.ok (f s).1, (f s).2) := rfl

@[simp] theorem result_lift (e : Except ε α) (s : σ) :
    (liftM e : Action ε σ α).result s = (e, s) := rfl

theorem result_bind (act : Action ε σ α) (k : α → Action ε σ β) (s : σ) :
    (act >>= k).result s =
      match act.result s with
      | (.ok a, t) => (k a).result t
      | (.error e, t) => (.error e, t) := by
  unfold result
  rw [ExceptT.run_bind, StateT.run_bind]
  change (fun p : Except ε α × σ => _) (act.run.run s) = _
  obtain ⟨r, t⟩ := act.run.run s
  cases r with
  | error e => rfl
  | ok a => rfl

theorem result_map (f : α → β) (act : Action ε σ α) (s : σ) :
    (f <$> act).result s = ((act.result s).1.map f, (act.result s).2) := by
  rw [map_eq_pure_bind, result_bind]
  generalize act.result s = p
  obtain ⟨_ | _, t⟩ := p <;> rfl

/-- A sequence succeeds when both of its parts do. -/
theorem result_bind_eq_ok_iff {act : Action ε σ α} {k : α → Action ε σ β} {s u : σ} {b : β} :
    (act >>= k).result s = (.ok b, u) ↔
      ∃ a t, act.result s = (.ok a, t) ∧ (k a).result t = (.ok b, u) := by
  rw [result_bind]
  constructor
  · intro h
    split at h
    · next a t ha => exact ⟨a, t, ha, h⟩
    · cases h
  · rintro ⟨a, t, ha, hb⟩
    rw [ha]
    exact hb

/-! ### Loops that succeed -/

section Loops

variable {γ : Type} {f : γ → Action ε σ PUnit} {I : σ → Prop}

/-- A loop that succeeds has done for all its members what each turn does for its own, if no
turn undoes what was done for the others. -/
theorem done_of_forM {D : γ → σ → Prop} {xs : List γ}
    (hstep : ∀ x ∈ xs, ∀ s t, I s → (f x).result s = (.ok ⟨⟩, t) →
      I t ∧ D x t ∧ ∀ y, D y s → D y t)
    {s t : σ} (hs : I s) (h : (xs.forM f).result s = (.ok ⟨⟩, t)) :
    I t ∧ (∀ x ∈ xs, D x t) ∧ ∀ y, D y s → D y t := by
  induction xs generalizing s with
  | nil =>
    obtain ⟨-, rfl⟩ := Prod.mk.inj h
    exact ⟨hs, List.forall_mem_nil _, fun _ hy => hy⟩
  | cons x xs ih =>
    obtain ⟨hx, hxs⟩ := List.forall_mem_cons.1 hstep
    obtain ⟨_, u, hu, ht⟩ := result_bind_eq_ok_iff.1 h
    obtain ⟨hIu, hDx, hkept⟩ := hx s u hs hu
    obtain ⟨hIt, hDxs, hkept'⟩ := ih hxs hIu ht
    exact ⟨hIt, List.forall_mem_cons.2 ⟨hkept' x hDx, hDxs⟩, fun y hy => hkept' y (hkept y hy)⟩

/-- A loop succeeds if all of its turns do. -/
theorem forM_succeeds {xs : List γ}
    (hstep : ∀ x ∈ xs, ∀ s, I s → ∃ t, (f x).result s = (.ok ⟨⟩, t) ∧ I t) {s : σ} (hs : I s) :
    ∃ t, (xs.forM f).result s = (.ok ⟨⟩, t) ∧ I t := by
  induction xs generalizing s with
  | nil => exact ⟨s, rfl, hs⟩
  | cons x xs ih =>
    obtain ⟨hx, hxs⟩ := List.forall_mem_cons.1 hstep
    obtain ⟨u, hu, hIu⟩ := hx s hs
    obtain ⟨t, ht, hIt⟩ := ih hxs hIu
    exact ⟨t, result_bind_eq_ok_iff.2 ⟨_, u, hu, ht⟩, hIt⟩

/-- A loop that fails does so in one of its turns. -/
theorem error_of_forM {xs : List γ} {s t : σ} {e : ε}
    (h : (xs.forM f).result s = (.error e, t)) :
    ∃ x ∈ xs, ∃ u, (f x).result u = (.error e, t) := by
  induction xs generalizing s with
  | nil => cases h
  | cons x xs ih =>
    have hturn : (f x >>= fun _ => xs.forM f).result s = (.error e, t) := h
    rw [result_bind] at hturn
    split at hturn
    · obtain ⟨y, hy, hfails⟩ := ih hturn
      exact ⟨y, List.mem_cons_of_mem x hy, hfails⟩
    · next hx =>
      cases hturn
      exact ⟨x, List.mem_cons_self, s, hx⟩

end Loops

end Action

/-! ### Invariants -/

/-- An action keeps `P` of its state, whether or not it fails, and its results satisfy `Q`. -/
structure Keeps {ε σ α : Type} (P : σ → Prop) (Q : α → Prop) (act : Action ε σ α) : Prop where
  run : ∀ s, P s → P (act.result s).2 ∧ ∀ a, (act.result s).1 = .ok a → Q a

namespace Keeps

variable {ε σ α β : Type} {P : σ → Prop} {Q : α → Prop} {R : β → Prop}

theorem pure {a : α} (h : Q a) : Keeps P Q (Pure.pure a : Action ε σ α) := by
  refine ⟨fun s hs => ⟨hs, ?_⟩⟩
  intro b hb
  cases hb
  exact h

theorem throw (e : ε) : Keeps P Q (MonadExcept.throw e : Action ε σ α) := by
  refine ⟨fun s hs => ⟨hs, ?_⟩⟩
  intro b hb
  cases hb

/-- The state that an action reads satisfies the invariant. -/
theorem get : Keeps P P (MonadState.get : Action ε σ σ) := by
  refine ⟨fun s hs => ⟨hs, ?_⟩⟩
  intro t ht
  cases ht
  exact hs

theorem set {s : σ} (h : P s) :
    Keeps P (fun _ => True) (MonadState.set s : Action ε σ PUnit) :=
  ⟨fun _ _ => ⟨h, fun _ _ => trivial⟩⟩

theorem modifyGet {f : σ → α × σ} (h : ∀ s, P s → P (f s).2 ∧ Q (f s).1) :
    Keeps P Q (MonadState.modifyGet f : Action ε σ α) := by
  refine ⟨fun s hs => ?_⟩
  obtain ⟨hP, hQ⟩ := h s hs
  refine ⟨hP, ?_⟩
  intro a ha
  cases ha
  exact hQ

theorem lift (e : Except ε α) : Keeps P (fun _ => True) (liftM e : Action ε σ α) :=
  ⟨fun _ hs => ⟨hs, fun _ _ => trivial⟩⟩

theorem liftOk {e : Except ε α} (h : ∀ a, e = .ok a → Q a) :
    Keeps P Q (liftM e : Action ε σ α) :=
  ⟨fun _ hs => ⟨hs, h⟩⟩

/-- What the first action guarantees of its results may be used for the second. -/
theorem bind {act : Action ε σ α} {k : α → Action ε σ β} (hact : Keeps P Q act)
    (hk : ∀ a, Q a → Keeps P R (k a)) : Keeps P R (act >>= k) := by
  refine ⟨fun s hs => ?_⟩
  obtain ⟨hP, hQ⟩ := hact.run s hs
  rw [Action.result_bind]
  generalize act.result s = p at hP hQ
  obtain ⟨r, t⟩ := p
  cases r with
  | error e =>
    refine ⟨hP, ?_⟩
    intro b hb
    cases hb
  | ok a => exact (hk a (hQ a rfl)).run t hP

/-- Nothing is asked of the state or of the results. -/
theorem trivially (act : Action ε σ α) : Keeps (fun _ => True) (fun _ => True) act :=
  ⟨fun _ _ => ⟨trivial, fun _ _ => trivial⟩⟩

theorem mapM {γ : Type} {f : γ → Action ε σ α} (xs : List γ)
    (h : ∀ x ∈ xs, Keeps P Q (f x)) : Keeps P (fun as => ∀ a ∈ as, Q a) (xs.mapM f) := by
  induction xs with
  | nil =>
    rw [List.mapM_nil]
    exact .pure (List.forall_mem_nil _)
  | cons x xs ih =>
    obtain ⟨hx, hxs⟩ := List.forall_mem_cons.1 h
    rw [List.mapM_cons]
    refine .bind hx fun a ha => ?_
    refine .bind (ih hxs) fun as has => ?_
    exact .pure (List.forall_mem_cons.2 ⟨ha, has⟩)

theorem forM {γ : Type} {f : γ → Action ε σ PUnit} (xs : List γ)
    (h : ∀ x ∈ xs, Keeps P (fun _ => True) (f x)) : Keeps P (fun _ => True) (xs.forM f) := by
  induction xs with
  | nil => exact .pure trivial
  | cons x xs ih =>
    obtain ⟨hx, hxs⟩ := List.forall_mem_cons.1 h
    exact .bind hx fun _ _ => ih hxs

end Keeps

/-! ### Corresponding results -/

/-- Wherever `act` succeeds, `act'` succeeds with the result sent through `φ`, and leaves
the same state. -/
structure Tracks {ε σ α β : Type} (φ : α → β) (act : Action ε σ α) (act' : Action ε σ β) :
    Prop where
  run : ∀ s a t, act.result s = (.ok a, t) → act'.result s = (.ok (φ a), t)

namespace Tracks

variable {ε σ α β γ δ : Type} {φ : α → β} {ψ : γ → δ}

theorem of_eq {act act' : Action ε σ α} (h : act = act') : Tracks id act act' := by
  subst h
  exact ⟨fun s a t ha => ha⟩

theorem pure {a : α} {b : β} (h : φ a = b) :
    Tracks φ (Pure.pure a : Action ε σ α) (Pure.pure b) := by
  refine ⟨fun s a' t ha => ?_⟩
  cases ha
  rw [← h]
  rfl

theorem throw (e : ε) (act : Action ε σ β) :
    Tracks φ (MonadExcept.throw e : Action ε σ α) act := by
  refine ⟨fun s a t ha => ?_⟩
  cases ha

/-- What the first action guarantees of its results may be used for the second. -/
theorem bind_of_keeps {Q : γ → Prop} {act : Action ε σ γ} {act' : Action ε σ δ}
    {k : γ → Action ε σ α} {k' : δ → Action ε σ β} (hQ : Keeps (fun _ => True) Q act)
    (hact : Tracks ψ act act') (hk : ∀ c, Q c → Tracks φ (k c) (k' (ψ c))) :
    Tracks φ (act >>= k) (act' >>= k') := by
  refine ⟨fun s a t ha => ?_⟩
  rw [Action.result_bind] at ha ⊢
  cases hc : act.result s with
  | mk r u =>
    rw [hc] at ha
    cases r with
    | error e => cases ha
    | ok c =>
      have hc' : Q c := (hQ.run s trivial).2 c (by rw [hc])
      rw [hact.run s c u hc]
      exact (hk c hc').run u a t ha

theorem bind {act : Action ε σ γ} {act' : Action ε σ δ} {k : γ → Action ε σ α}
    {k' : δ → Action ε σ β} (hact : Tracks ψ act act')
    (hk : ∀ c, Tracks φ (k c) (k' (ψ c))) : Tracks φ (act >>= k) (act' >>= k') :=
  bind_of_keeps (.trivially act) hact fun c _ => hk c

/-- Both actions begin alike. -/
theorem bind_same {act act' : Action ε σ γ} (h : act = act') {k : γ → Action ε σ α}
    {k' : γ → Action ε σ β} (hk : ∀ c, Tracks φ (k c) (k' c)) :
    Tracks φ (act >>= k) (act' >>= k') :=
  bind (of_eq h) hk

theorem ite {c : Prop} [Decidable c] {a b : Action ε σ α} {a' b' : Action ε σ β}
    (ht : Tracks φ a a') (hf : Tracks φ b b') :
    Tracks φ (if c then a else b) (if c then a' else b') := by
  split
  · exact ht
  · exact hf

end Tracks

end Progression
