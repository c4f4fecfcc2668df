import Mathlib.Data.List.Basic
import Progression.Proofs.Requests

/-!
# How deep calls of templates are nested

A template may call itself, and its body may be larger than the call and contain the arguments
several times.  Resolving a rule ends nevertheless.  It goes into itself in three ways only:
from a connective or a negation to an operand, which is smaller, and from a call to the body of
its template, which may be larger but is one level deeper.  At the limit of expansion no body is
entered any more, so the depth that is left and the size of the term decrease together in
lexicographic order.

A run is described step by step, with a depth that is counted up from zero as the bodies are
entered, and nothing but the limit stops it.  That every term has a run is therefore the
statement that resolving ends.

What is nested how deep can be read off the rule and the templates: a call in the rule is at the
first level, and a call in the body of a call is one level deeper than this.

## Main definitions

* `Resolves` — a run of resolving a term, from one registry to another.
* `InvokesAt` — a rule calls a template at some level of nesting.

## Main results

* `resolves_conditionAt_iff` — a run ends with what resolving within the depth that is left gives.
* `invokesAt_of_recursionLimit` — the limit is reported at a call one level beyond it only.
* `le_of_invokesAt` — a rule that is accepted has no calls beyond the limit.
* `resolve_ends` — **resolving ends, and reports the limit at the first level beyond it only.**
-/

namespace Progression.Rule

/-! ### Runs -/

mutual

/-- A run of resolving a term at some depth of expansion: from the one registry it ends with a
formula or an error, and with the other registry. -/
inductive Resolves (lx : Lexicon) :
    Nat → Term → Registry → Except RuleError Formula → Registry → Prop where
  /-- A test that calls no template does not go on to another term: what it does is the same
  however calls are expanded. -/
  | test {depth : Nat} {t : Term} {r s : Registry} {act : Resolve Formula}
      {x : Except RuleError Formula} (ht : t.isTest = true)
      (h : ∀ c, lx.request? t ≠ some (.invoke c)) (hact : ∀ expand, condition lx expand t = act)
      (hresult : Action.result act r = (x, s)) : Resolves lx depth t r x s
  /-- A call needs as many arguments as the template has parameters. -/
  | misfit {depth : Nat} {t : Term} {r : Registry} {c : Invocation}
      (h : lx.request? t = some (.invoke c)) (hfits : ¬ c.Fits) :
      Resolves lx depth t r (.error (.arity lx.spot c.template.name c.template.params.length
        c.args.length c.term)) r
  /-- At the limit no body is entered. -/
  | tooDeep {depth : Nat} {t : Term} {r : Registry} {c : Invocation}
      (h : lx.request? t = some (.invoke c)) (hfits : c.Fits) (hdepth : expansionLimit ≤ depth) :
      Resolves lx depth t r (.error (.recursionLimit lx.spot expansionLimit c.term)) r
  /-- Below the limit the body is resolved one level deeper. -/
  | body {depth : Nat} {t : Term} {r s : Registry} {c : Invocation}
      {x : Except RuleError Formula} (h : lx.request? t = some (.invoke c)) (hfits : c.Fits)
      (hdepth : depth < expansionLimit) (hbody : Resolves lx (depth + 1) c.body r x s) :
      Resolves lx depth t r x s
  /-- The operand of a negation is resolved at the same depth. -/
  | not {depth : Nat} {t : Term} {r s : Registry} {x : Except RuleError Formula}
      (h : Resolves lx depth t r x s) : Resolves lx depth (.not t) r (x.map Formula.negate) s
  /-- The operands of a connective are resolved at the same depth. -/
  | group {depth : Nat} {op : Connective} {ts : List Term} {r s : Registry}
      {xs : Except RuleError (List Formula)} (h : ResolvesAll lx depth ts r xs s) :
      Resolves lx depth (.group op ts) r (xs.map (Formula.group op)) s

/-- A run of resolving terms from left to right, up to the first error. -/
inductive ResolvesAll (lx : Lexicon) :
    Nat → List Term → Registry → Except RuleError (List Formula) → Registry → Prop where
  | nil {depth : Nat} {r : Registry} : ResolvesAll lx depth [] r (.ok []) r
  | stop {depth : Nat} {t : Term} {ts : List Term} {r s : Registry} {e : RuleError}
      (h : Resolves lx depth t r (.error e) s) : ResolvesAll lx depth (t :: ts) r (.error e) s
  | cons {depth : Nat} {t : Term} {ts : List Term} {r s u : Registry} {f : Formula}
      {xs : Except RuleError (List Formula)} (h : Resolves lx depth t r (.ok f) s)
      (hrest : ResolvesAll lx depth ts s xs u) :
      ResolvesAll lx depth (t :: ts) r (xs.map (f :: ·)) u

end

variable {lx : Lexicon}

/-! ### Runs and results -/

/-- The formulas of terms in which calls are nested at most `depth` deep. -/
def conditionsAt (lx : Lexicon) (depth : Nat) (terms : List Term) : Resolve (List Formula) :=
  terms.mapM (conditionAt lx depth)

theorem conditionAt_not (depth : Nat) (t : Term) :
    conditionAt lx depth (.not t) = Formula.negate <$> conditionAt lx depth t := by
  obtain ⟨expand, hexpand⟩ := exists_expansion lx depth
  rw [hexpand, hexpand, condition, map_eq_pure_bind]

theorem conditionAt_group (depth : Nat) (op : Connective) (ts : List Term) :
    conditionAt lx depth (.group op ts) = Formula.group op <$> conditionsAt lx depth ts := by
  obtain ⟨expand, hexpand⟩ := exists_expansion lx depth
  have hterms : conditionsAt lx depth ts = conditions lx expand ts := by
    unfold conditionsAt
    induction ts with
    | nil => rw [List.mapM_nil]; rfl
    | cons t ts ih => rw [List.mapM_cons, ih, hexpand, conditions]
  rw [hexpand, condition, hterms, map_eq_pure_bind]

mutual

/-- A run ends with what resolving within the depth that is left gives. -/
theorem Resolves.result {depth : Nat} {t : Term} {r s : Registry}
    {x : Except RuleError Formula} : Resolves lx depth t r x s →
      Action.result (conditionAt lx (expansionLimit - depth) t) r = (x, s)
  | .test _ _ hact hresult => by
    obtain ⟨expand, hexpand⟩ := exists_expansion lx (expansionLimit - depth)
    rw [hexpand, hact, hresult]
  | .misfit h hfits => by rw [conditionAt_of_not_fits h hfits, Action.result_throw]
  | .tooDeep h hfits hdepth => by
    rw [Nat.sub_eq_zero_of_le hdepth, conditionAt_zero_of_invoke h hfits, Action.result_throw]
  | .body h hfits hdepth hbody => by
    have hleft : expansionLimit - depth = expansionLimit - (depth + 1) + 1 := by omega
    rw [hleft, conditionAt_of_invoke h hfits, hbody.result]
  | .not h => by rw [conditionAt_not, Action.result_map, h.result]
  | .group h => by rw [conditionAt_group, Action.result_map, h.result]

theorem ResolvesAll.result {depth : Nat} {ts : List Term} {r s : Registry}
    {xs : Except RuleError (List Formula)} : ResolvesAll lx depth ts r xs s →
      Action.result (conditionsAt lx (expansionLimit - depth) ts) r = (xs, s)
  | .nil => by rw [conditionsAt, List.mapM_nil, Action.result_pure]
  | .stop h => by rw [conditionsAt, List.mapM_cons, Action.result_bind, h.result]
  | .cons h hrest => by
    rw [conditionsAt, List.mapM_cons, ← conditionsAt, Action.result_bind, h.result]
    dsimp only
    rw [← map_eq_pure_bind, Action.result_map, hrest.result]

end

/-- Terms have runs if each of them does. -/
theorem resolvesAll_of_result {k depth : Nat} {ts : List Term}
    (h : ∀ t ∈ ts, ∀ r x s, Action.result (conditionAt lx k t) r = (x, s) →
      Resolves lx depth t r x s) {r s : Registry} {xs : Except RuleError (List Formula)}
    (hxs : Action.result (conditionsAt lx k ts) r = (xs, s)) : ResolvesAll lx depth ts r xs s := by
  induction ts generalizing r xs with
  | nil =>
    cases hxs
    exact .nil
  | cons t ts ih =>
    obtain ⟨ht, hts⟩ := List.forall_mem_cons.1 h
    rw [conditionsAt, List.mapM_cons, ← conditionsAt, Action.result_bind] at hxs
    split at hxs
    · next f u hf =>
      rw [← map_eq_pure_bind, Action.result_map] at hxs
      obtain ⟨rfl, rfl⟩ := Prod.mk.inj hxs
      exact .cons (ht r _ u hf) (ih hts rfl)
    · next e u he =>
      cases hxs
      exact .stop (ht r _ _ he)

/-- Every term has a run if every test does. -/
theorem resolves_of_tests {k depth : Nat}
    (h : ∀ t : Term, t.isTest = true → ∀ r x s, Action.result (conditionAt lx k t) r = (x, s) →
      Resolves lx depth t r x s) (term : Term) :
    ∀ r x s, Action.result (conditionAt lx k term) r = (x, s) → Resolves lx depth term r x s := by
  induction term using Term.induction with
  | group op ts ih =>
    intro r x s hx
    rw [conditionAt_group, Action.result_map] at hx
    obtain ⟨rfl, rfl⟩ := Prod.mk.inj hx
    exact .group (resolvesAll_of_result ih rfl)
  | not t ih =>
    intro r x s hx
    rw [conditionAt_not, Action.result_map] at hx
    obtain ⟨rfl, rfl⟩ := Prod.mk.inj hx
    exact .not (ih r _ _ rfl)
  | _ => exact h _ rfl

/-- A test that calls no template has a run. -/
theorem resolves_test {k depth : Nat} {t : Term} (ht : t.isTest = true)
    (h : ∀ c, lx.request? t ≠ some (.invoke c)) {r s : Registry} {x : Except RuleError Formula}
    (hx : Action.result (conditionAt lx k t) r = (x, s)) : Resolves lx depth t r x s := by
  have hact : ∃ act, ∀ expand, condition lx expand t = act := by
    cases hreq : lx.request? t with
    | none =>
      obtain ⟨act, -, hact⟩ := exists_quiet ht hreq
      exact ⟨act, hact⟩
    | some request =>
      cases request with
      | invoke c => exact absurd hreq (h c)
      | subrule region body => exact ⟨_, condition_of_subrule hreq⟩
  obtain ⟨act, hact⟩ := hact
  obtain ⟨expand, hexpand⟩ := exists_expansion lx k
  rw [hexpand, hact] at hx
  exact .test ht h hact hx

/-- Every term has a run. -/
theorem resolves_of_result (k : Nat) (term : Term) :
    ∀ depth, expansionLimit - depth = k → ∀ r x s,
      Action.result (conditionAt lx k term) r = (x, s) → Resolves lx depth term r x s := by
  induction k, term using depth_induction with
  | tests k term ih =>
    intro depth hk
    exact resolves_of_tests (fun t ht => ih t ht depth hk) term
  | plain k t ht hreq =>
    intro depth _ r x s hx
    exact resolves_test ht hreq hx
  | misfit k t c _ hreq hfits =>
    intro depth _ r x s hx
    rw [conditionAt_of_not_fits hreq hfits, Action.result_throw] at hx
    cases hx
    exact .misfit hreq hfits
  | tooDeep t c _ hreq hfits =>
    intro depth hk r x s hx
    rw [conditionAt_zero_of_invoke hreq hfits, Action.result_throw] at hx
    cases hx
    exact .tooDeep hreq hfits (by omega)
  | body k t c _ hreq hfits ih =>
    intro depth hk r x s hx
    rw [conditionAt_of_invoke hreq hfits] at hx
    exact .body hreq hfits (by omega) (ih (depth + 1) (by omega) r x s hx)

theorem resolves_conditionAt_iff {depth : Nat} {term : Term} {r s : Registry}
    {x : Except RuleError Formula} : Resolves lx depth term r x s ↔
      Action.result (conditionAt lx (expansionLimit - depth) term) r = (x, s) :=
  ⟨Resolves.result, resolves_of_result _ term depth rfl r x s⟩

/-! ### Levels of nesting -/

/-- A rule calls a template at some level of nesting: at the first level if the call is a test of
the rule, and one level deeper if the call is in the body that such a test expands to. -/
inductive InvokesAt (lx : Lexicon) : Term → Nat → Invocation → Prop where
  | outer {term t : Term} {c : Invocation} (ht : t ∈ term.tests)
      (h : lx.request? t = some (.invoke c)) : InvokesAt lx term 1 c
  | inner {term t : Term} {n : Nat} {c d : Invocation} (ht : t ∈ term.tests)
      (h : lx.request? t = some (.invoke c)) (hfits : c.Fits) (hbody : InvokesAt lx c.body n d) :
      InvokesAt lx term (n + 1) d

/-- A term whose resolution fails has a test whose resolution fails with the same error. -/
theorem exists_test_of_error {depth : Nat} {term : Term} {r s : Registry} {e : RuleError}
    (h : Action.result (conditionAt lx depth term) r = (.error e, s)) :
    ∃ t ∈ term.tests, ∃ u, Action.result (conditionAt lx depth t) u = (.error e, s) := by
  have heffect : Action.result (effect (conditionAt lx depth term)) r = (.error e, s) := by
    rw [result_effect, h]
    rfl
  rw [effect_conditionAt] at heffect
  obtain ⟨t, ht, u, hu⟩ := Action.error_of_forM heffect
  refine ⟨t, ht, u, ?_⟩
  rw [result_effect] at hu
  generalize Action.result (conditionAt lx depth t) u = p at hu
  obtain ⟨_ | _, v⟩ := p
  · cases hu
    rfl
  · cases hu

/-- The tests of a term that is accepted are accepted. -/
theorem tests_of_ok {depth : Nat} {term : Term} {r s : Registry} {f : Formula}
    (h : Action.result (conditionAt lx depth term) r = (.ok f, s)) :
    ∀ t ∈ term.tests, ∃ u g v, Action.result (conditionAt lx depth t) u = (.ok g, v) := by
  have heffect : Action.result (effect (conditionAt lx depth term)) r = (.ok (), s) := by
    rw [result_effect, h]
    rfl
  rw [effect_conditionAt] at heffect
  refine (Action.done_of_forM (I := fun _ => True) (D := fun t _ => ∃ u g v,
    Action.result (conditionAt lx depth t) u = (.ok g, v)) (fun t _ u v _ ht => ?_) trivial
    heffect).2.1
  refine ⟨trivial, ?_, fun _ hy => hy⟩
  rw [result_effect] at ht
  generalize hp : Action.result (conditionAt lx depth t) u = p at ht
  obtain ⟨_ | g, w⟩ := p
  · cases ht
  · exact ⟨u, g, w, hp⟩

/-- Only a test that calls a template finds calls nested too deep, and only if its arguments are
as many as the parameters. -/
theorem exists_invoke_of_recursionLimit {depth : Nat} {t : Term} {r s : Registry} {e : RuleError}
    (ht : t.isTest = true) (he : e.isLimit = true)
    (h : Action.result (conditionAt lx depth t) r = (.error e, s)) :
    ∃ c, lx.request? t = some (.invoke c) ∧ c.Fits := by
  obtain ⟨expand, hexpand⟩ := exists_expansion lx depth
  cases hreq : lx.request? t with
  | none =>
    obtain ⟨act, hquiet, hact⟩ := exists_quiet ht hreq
    rw [hexpand, hact] at h
    have hlimit := (hquiet.run r).2.2 e (by rw [h])
    rw [he] at hlimit
    cases hlimit
  | some request =>
    cases request with
    | subrule region body =>
      rw [hexpand, condition_of_subrule hreq] at h
      cases h
    | invoke c =>
      refine ⟨c, rfl, Classical.byContradiction fun hfits => ?_⟩
      rw [conditionAt_of_not_fits hreq hfits, Action.result_throw] at h
      cases h
      cases he

/-- The limit is reported at a call one level beyond the depth that is left, and at no other. -/
theorem invokesAt_of_recursionLimit {depth : Nat} {term : Term} {r s : Registry} {spot : String}
    {limit : Nat} {call : Term}
    (h : Action.result (conditionAt lx depth term) r =
      (.error (.recursionLimit spot limit call), s)) :
    spot = lx.spot ∧ limit = expansionLimit ∧
      ∃ c, InvokesAt lx term (depth + 1) c ∧ c.Fits ∧ c.term = call := by
  induction depth generalizing term r s with
  | zero =>
    obtain ⟨t, ht, u, hu⟩ := exists_test_of_error h
    obtain ⟨c, hreq, hfits⟩ :=
      exists_invoke_of_recursionLimit (term.isTest_of_mem_tests t ht) rfl hu
    rw [conditionAt_zero_of_invoke hreq hfits, Action.result_throw] at hu
    cases hu
    exact ⟨rfl, rfl, c, .outer ht hreq, hfits, rfl⟩
  | succ depth ih =>
    obtain ⟨t, ht, u, hu⟩ := exists_test_of_error h
    obtain ⟨c, hreq, hfits⟩ :=
      exists_invoke_of_recursionLimit (term.isTest_of_mem_tests t ht) rfl hu
    -- the error comes out of the body, one level deeper
    rw [conditionAt_of_invoke hreq hfits] at hu
    obtain ⟨hspot, hlimit, d, hd, hdfits, hcall⟩ := ih hu
    exact ⟨hspot, hlimit, d, .inner ht hreq hfits hd, hdfits, hcall⟩

/-- A rule that is accepted has no calls beyond the depth that is left. -/
theorem le_of_invokesAt {term : Term} {n : Nat} {c : Invocation} (hc : InvokesAt lx term n c)
    {depth : Nat} {r s : Registry} {f : Formula}
    (h : Action.result (conditionAt lx depth term) r = (.ok f, s)) : n ≤ depth := by
  induction hc generalizing depth r s f with
  | @outer term t c ht hreq =>
    obtain ⟨u, g, v, hg⟩ := tests_of_ok h t ht
    cases depth with
    | succ depth => omega
    | zero =>
      -- at the limit a call is an error, whether or not it fits
      by_cases hfits : c.Fits
      · rw [conditionAt_zero_of_invoke hreq hfits, Action.result_throw] at hg
        cases hg
      · rw [conditionAt_of_not_fits hreq hfits, Action.result_throw] at hg
        cases hg
  | @inner term t n c d ht hreq hfits hbody ih =>
    obtain ⟨u, g, v, hg⟩ := tests_of_ok h t ht
    cases depth with
    | zero =>
      rw [conditionAt_zero_of_invoke hreq hfits, Action.result_throw] at hg
      cases hg
    | succ depth =>
      rw [conditionAt_of_invoke hreq hfits] at hg
      have hle := ih hg
      omega

/-- **Resolving ends, and reports the limit at the first level beyond it only.**  Every rule has
just one run, however its templates call each other, and it ends with what resolving gives.  If
the calls are found nested too deep, then at a call of the level after the last one that is
allowed, and a rule that is accepted has no call at that level. -/
theorem resolve_ends (lx : Lexicon) (term : Term) (r : Registry) :
    (∀ x s, Resolves lx 0 term r x s ↔ Action.result (resolve lx term) r = (x, s)) ∧
    (∀ spot limit call s,
      Action.result (resolve lx term) r = (.error (.recursionLimit spot limit call), s) →
      spot = lx.spot ∧ limit = expansionLimit ∧
        ∃ c, InvokesAt lx term (expansionLimit + 1) c ∧ c.Fits ∧ c.term = call) ∧
    ∀ f s, Action.result (resolve lx term) r = (.ok f, s) →
      ∀ n c, InvokesAt lx term n c → n ≤ expansionLimit := by
  refine ⟨fun x s => resolves_conditionAt_iff, fun spot limit call s h => ?_,
    fun f s h n c hc => ?_⟩
  · exact invokesAt_of_recursionLimit h
  · exact le_of_invokesAt hc h

/-- Templates of which one calls itself with its argument, and one calls nothing. -/
def endlessLexicon : Lexicon :=
  ⟨.plain, ⟨[("armed", ⟨"armed", [], .name "Bow"⟩),
    ("endless", ⟨"endless", ["x"], .group .or [.name "x", .call "endless" [.name "x"]]⟩)]⟩, none⟩

/-- A call of the first is found nested too deep, at the argument, which is the first call in the
body at the last level that is allowed.  A call of the second is accepted. -/
theorem resolve_ends_endlessLexicon :
    let call := Term.call "endless" [.name "armed"]
    (Action.result (resolve endlessLexicon call) ⟨.empty, .empty⟩).1 =
      .error (.recursionLimit "<no spot>" 64 (.name "armed")) ∧
    (∃ c, InvokesAt endlessLexicon call 65 c ∧ c.Fits ∧ c.term = .name "armed") ∧
    ∀ n c, InvokesAt endlessLexicon (.name "armed") n c → n ≤ 64 := by
  intro call
  have hendless : (Action.result (resolve endlessLexicon call) ⟨.empty, .empty⟩).1 =
      .error (.recursionLimit "<no spot>" 64 (.name "armed")) := by
    decide +kernel
  have harmed : (Action.result (resolve endlessLexicon (.name "armed")) ⟨.empty, .empty⟩).1 =
      .ok (.item ⟨0⟩) := by
    decide
  obtain ⟨-, hlimit, -⟩ := resolve_ends endlessLexicon call ⟨.empty, .empty⟩
  obtain ⟨-, -, haccepted⟩ := resolve_ends endlessLexicon (.name "armed") ⟨.empty, .empty⟩
  have hresult : ∀ {p : Except RuleError Formula × Registry} {x}, p.1 = x → p = (x, p.2) :=
    fun h => Prod.ext h rfl
  obtain ⟨-, -, hc⟩ := hlimit _ _ _ _ (hresult hendless)
  exact ⟨hendless, hc, haccepted _ _ (hresult harmed)⟩

end Progression.Rule
