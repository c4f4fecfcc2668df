import Mathlib.Data.List.Nodup
import Progression.Proofs.Ledgers
import Progression.Proofs.Requests
import Progression.Proofs.Rereading

/-!
# Which subrules a rule registers

A rule asks for the subrules that its tests stand for, and for those that the bodies ask for of
the templates that its tests call.  Every test is resolved, also where the connective around it
turns out constant, so a rule that is accepted has all of them registered, whatever its formula
has been folded to.  Nothing else is registered: the other tests are quiet.

A subrule is registered once.  The first time it becomes an entry with the next number of its
region, which is pending; from then on, whichever rule asks for it, the entry is found and
nothing is changed.

## Main definitions

* `Subrule.pair`, `Ledger.table` — the region and body of a subrule, and those of all of them.
* `AsksFor` — a rule asks for a subrule.
* `RegistersExactly` — what resolving a rule makes of the subrules of a ledger.

## Main results

* `mem_table_conditionAt` — a rule that is accepted registers the subrules that it asks for.
* `pending_subset` — what is pending in a world has been registered.
* `result_of_registered` — a registered subrule is found and nothing is changed.
* `registersExactly_resolve` — **a rule that is accepted registers exactly the subrules that it
  asks for, each of them once.**
-/

namespace Progression.Rule

/-! ### Tables -/

/-- What a subrule is found by. -/
def Subrule.pair (s : Subrule) : String × Term := (s.region, s.body)

/-- The regions and bodies of the registered subrules. -/
def Ledger.table (l : Ledger) : List (String × Term) := l.registered.map Subrule.pair

/-- Registering a subrule adds it to the table, if it is not there. -/
theorem mem_table_registerSubrule (r : Registry) (region : String) (body : Term)
    (p : String × Term) :
    p ∈ (r.registerSubrule region body).2.ledger.table ↔
      p ∈ r.ledger.table ∨ p = (region, body) := by
  cases hfind : r.ledger.find? region body with
  | some s =>
    rw [registerSubrule_of_find hfind]
    refine (or_iff_left_of_imp fun hp => ?_).symm
    have hpair := List.find?_some hfind
    simp only [Bool.and_eq_true, beq_iff_eq] at hpair
    refine List.mem_map.2 ⟨s, List.mem_of_find?_eq_some hfind, ?_⟩
    rw [hp, Subrule.pair, hpair.1, hpair.2]
  | none =>
    obtain ⟨s, hregion, hbody, hregistered, -⟩ := Registry.Grows.registerSubrule_of_new hfind
    rw [Ledger.table, hregistered, List.map_cons, List.mem_cons, or_comm, Subrule.pair, hregion,
      hbody]
    rfl

/-! ### What a rule asks for -/

variable {lx : Lexicon}

/-- A rule asks for a subrule: one of its tests stands for it, or the body asks for it of a
template that one of its tests calls. -/
inductive AsksFor (lx : Lexicon) : Term → String × Term → Prop where
  | test {term t : Term} {region : String} {body : Term} (ht : t ∈ term.tests)
      (h : lx.request? t = some (.subrule region body)) : AsksFor lx term (region, body)
  | body {term t : Term} {c : Invocation} {p : String × Term} (ht : t ∈ term.tests)
      (h : lx.request? t = some (.invoke c)) (hbody : AsksFor lx c.body p) : AsksFor lx term p

/-- What a test asks for, it asks for itself, or the body of the template that it calls does. -/
theorem asksFor_of_isTest {t : Term} (ht : t.isTest = true) {p : String × Term} :
    AsksFor lx t p ↔ lx.request? t = some (.subrule p.1 p.2) ∨
      ∃ c, lx.request? t = some (.invoke c) ∧ AsksFor lx c.body p := by
  have hself : ∀ {s}, s ∈ t.tests ↔ s = t := by
    simp [Term.tests_of_isTest ht]
  constructor
  · intro h
    cases h with
    | test hs h => exact .inl (hself.1 hs ▸ h)
    | body hs h hbody => exact .inr ⟨_, hself.1 hs ▸ h, hbody⟩
  · rintro (h | ⟨c, h, hbody⟩)
    · exact .test (hself.2 rfl) h
    · exact .body (hself.2 rfl) h hbody

/-- A term asks for what its tests ask for. -/
theorem asksFor_iff {term : Term} {p : String × Term} :
    AsksFor lx term p ↔ ∃ t ∈ term.tests, AsksFor lx t p := by
  constructor
  · intro h
    cases h with
    | test ht h =>
      exact ⟨_, ht, (asksFor_of_isTest (term.isTest_of_mem_tests _ ht)).2 (.inl h)⟩
    | body ht h hbody =>
      exact ⟨_, ht, (asksFor_of_isTest (term.isTest_of_mem_tests _ ht)).2 (.inr ⟨_, h, hbody⟩)⟩
  · rintro ⟨t, ht, h⟩
    rcases (asksFor_of_isTest (term.isTest_of_mem_tests t ht)).1 h with h | ⟨c, h, hbody⟩
    · exact .test ht h
    · exact .body ht h hbody

/-! ### What a rule registers -/

/-- An action of a test adds to the table what the test asks for, if it succeeds. -/
def Tables (lx : Lexicon) (term : Term) (act : Resolve Formula) : Prop :=
  ∀ r f s, Action.result act r = (.ok f, s) →
    ∀ p, p ∈ s.ledger.table ↔ p ∈ r.ledger.table ∨ AsksFor lx term p

theorem tables_of_forM {act : Term → Resolve Formula} {ts : List Term}
    (h : ∀ t ∈ ts, Tables lx t (act t)) {r s : Registry}
    (hs : Action.result (ts.forM fun t => effect (act t)) r = (.ok (), s)) (p : String × Term) :
    p ∈ s.ledger.table ↔ p ∈ r.ledger.table ∨ ∃ t ∈ ts, AsksFor lx t p := by
  induction ts generalizing r with
  | nil =>
    cases hs
    simp
  | cons t ts ih =>
    obtain ⟨ht, hts⟩ := List.forall_mem_cons.1 h
    obtain ⟨_, u, hu, hrest⟩ := Action.result_bind_eq_ok_iff.1 hs
    rw [result_effect] at hu
    obtain ⟨g, hg⟩ : ∃ g, Action.result (act t) r = (.ok g, u) := by
      generalize Action.result (act t) r = q at hu
      obtain ⟨_ | g, v⟩ := q
      · cases hu
      · cases hu
        exact ⟨g, rfl⟩
    rw [ih hts hrest, ht r g u hg p, or_assoc, List.exists_mem_cons_iff]

/-- A term adds to the table what its tests do. -/
theorem tables_of_tests {depth : Nat} {term : Term}
    (h : ∀ t ∈ term.tests, Tables lx t (conditionAt lx depth t)) :
    Tables lx term (conditionAt lx depth term) := by
  intro r f s hf p
  have heffect : Action.result (effect (conditionAt lx depth term)) r = (.ok (), s) := by
    rw [result_effect, hf]
    rfl
  rw [effect_conditionAt] at heffect
  rw [asksFor_iff]
  exact tables_of_forM h heffect p

/-- A test that calls no template adds the subrule that it stands for, if it stands for one. -/
theorem tables_test {depth : Nat} {t : Term} (ht : t.isTest = true)
    (h : ∀ c, lx.request? t ≠ some (.invoke c)) : Tables lx t (conditionAt lx depth t) := by
  intro r f s hf p
  obtain ⟨expand, hexpand⟩ := exists_expansion lx depth
  rw [hexpand] at hf
  have hasks : AsksFor lx t p ↔ lx.request? t = some (.subrule p.1 p.2) := by
    rw [asksFor_of_isTest ht]
    exact or_iff_left fun ⟨c, hc, _⟩ => h c hc
  rw [hasks]
  cases hreq : lx.request? t with
  | none =>
    obtain ⟨act, hquiet, hact⟩ := exists_quiet ht hreq
    rw [hact] at hf
    have hregistered : s.ledger.registered = r.ledger.registered := by
      have h := (hquiet.run r).1
      rwa [hf] at h
    rw [Ledger.table, hregistered, ← Ledger.table]
    simp
  | some request =>
    cases request with
    | invoke c => exact absurd hreq (h c)
    | subrule region body =>
      rw [condition_of_subrule hreq] at hf
      have hs : s = (r.registerSubrule region body).2 := by
        cases hf
        rfl
      rw [hs, mem_table_registerSubrule, Option.some.injEq, Request.subrule.injEq, Prod.ext_iff]
      exact or_congr_right (and_congr eq_comm eq_comm)

/-- A rule that is accepted registers the subrules that it asks for, at any depth of expansion. -/
theorem mem_table_conditionAt (depth : Nat) (term : Term) :
    Tables lx term (conditionAt lx depth term) := by
  induction depth, term using depth_induction with
  | tests depth term ih =>
    exact tables_of_tests fun t ht => ih t (term.isTest_of_mem_tests t ht)
  | plain depth t ht hreq => exact tables_test ht hreq
  | misfit depth t c _ hreq hfits =>
    intro r f s hf
    rw [conditionAt_of_not_fits hreq hfits, Action.result_throw] at hf
    cases hf
  | tooDeep t c _ hreq hfits =>
    -- a call at the limit is not accepted
    intro r f s hf
    rw [conditionAt_zero_of_invoke hreq hfits, Action.result_throw] at hf
    cases hf
  | body depth t c ht hreq hfits ih =>
    intro r f s hf p
    rw [conditionAt_of_invoke hreq hfits] at hf
    have hasks : AsksFor lx t p ↔ AsksFor lx c.body p := by
      rw [asksFor_of_isTest ht, hreq]
      simp
    rw [hasks]
    exact ih r f s hf p

/-! ### Entries -/

/-- What is pending in a world has been registered. -/
theorem pending_subset {r : Registry} (h : Grown r) :
    ∀ s ∈ r.ledger.pending, s ∈ r.ledger.registered := by
  induction h with
  | fresh c => exact List.forall_mem_nil _
  | @resolve r lx term _ ih =>
    obtain ⟨new, hregistered, hpending⟩ := (grows_resolve lx term r).added
    intro s hs
    rw [hpending, List.mem_append] at hs
    rw [hregistered, List.mem_append, List.mem_reverse]
    exact hs.elim (fun hs => .inr (ih s hs)) .inl
  | takePending _ _ => exact List.forall_mem_nil _
  | declareEvent name _ ih => exact ih
  | declare d _ ih => exact ih
  | elsewhere other lx term _ ih => exact ih

/-- A registered subrule is found: a test that stands for it stands for its item, and changes
nothing. -/
theorem result_of_registered {r : Registry} (hr : r.Sound) {x : Subrule}
    (hx : x ∈ r.ledger.registered) {t : Term}
    (ht : lx.request? t = some (.subrule x.region x.body)) (expand : Expansion) :
    Action.result (condition lx expand t) r = (.ok (.item x.item), r) := by
  have hfind : r.ledger.find? x.region x.body = some x := by
    cases hfind : r.ledger.find? x.region x.body with
    | none =>
      rw [Ledger.find?, List.find?_eq_none] at hfind
      exact absurd (by simp) (hfind x hx)
    | some y =>
      -- no region has a rule twice
      have hy := List.mem_of_find?_eq_some hfind
      have hpair := List.find?_some hfind
      simp only [Bool.and_eq_true, beq_iff_eq] at hpair
      rw [List.inj_on_of_nodup_map hr.numbered.nodup hy hx (Prod.ext hpair.1 hpair.2)]
  rw [condition_of_subrule ht, Action.result_bind, Action.result_modifyGet,
    registerSubrule_of_find hfind]
  rfl

/-- What resolving a rule makes of the subrules of a ledger. -/
structure RegistersExactly (lx : Lexicon) (term : Term) (r s : Registry) : Prop where
  /-- The table afterwards is the table before and what the rule asks for. -/
  table : ∀ p, p ∈ s.ledger.table ↔ p ∈ r.ledger.table ∨ AsksFor lx term p
  /-- All entries before are kept, and the new ones are pending. -/
  added : ∃ new : List Subrule, s.ledger.registered = new.reverse ++ r.ledger.registered ∧
    s.ledger.pending = r.ledger.pending ++ new
  /-- What is new has one entry, which is pending once. -/
  once : ∀ p, AsksFor lx term p → p ∉ r.ledger.table →
    s.ledger.table.count p = 1 ∧ (s.ledger.pending.map Subrule.pair).count p = 1
  /-- Every entry has the next number of its region, in the order of registration. -/
  numbered : Numbered s.ledger.registered
  /-- No two entries of a region have one event. -/
  distinct : ∀ x ∈ s.ledger.registered, ∀ y ∈ s.ledger.registered,
    x.region = y.region → x.event = y.event → x = y
  /-- What was there before is found by its old entry, whenever it is asked for again. -/
  found : ∀ x ∈ r.ledger.registered, ∀ u, r.Grows u → ∀ t,
    lx.request? t = some (.subrule x.region x.body) → ∀ expand,
      Action.result (condition lx expand t) u = (.ok (.item x.item), u)

/-- **A rule that is accepted registers exactly the subrules that it asks for, each of them
once.**  It does not matter what its formula has been folded to. -/
theorem registersExactly_resolve {term : Term} {r s : Registry} {f : Formula} (hr : Grown r)
    (h : Action.result (resolve lx term) r = (.ok f, s)) : RegistersExactly lx term r s := by
  have hgrows : r.Grows s := by
    have h' := grows_resolve lx term r
    rwa [h] at h'
  have hsound : r.Sound := .grown hr
  have hnumbered : Numbered s.ledger.registered := (hgrows.sound hsound).numbered
  have htable := @mem_table_conditionAt lx expansionLimit term r f s h
  obtain ⟨new, hregistered, hpending⟩ := hgrows.added
  refine ⟨htable, ⟨new, hregistered, hpending⟩, fun p hp hnew => ?_, hnumbered,
    fun x hx y hy => hnumbered.eq_of_event_eq hx hy, fun x hx u hu t ht expand => ?_⟩
  · have hone : s.ledger.table.count p = 1 :=
      List.count_eq_one_of_mem hnumbered.nodup ((htable p).2 (.inr hp))
    refine ⟨hone, ?_⟩
    -- it was not registered before, so neither was it pending
    have hbefore : p ∉ r.ledger.pending.map Subrule.pair := by
      intro hmem
      obtain ⟨x, hx, hxp⟩ := List.mem_map.1 hmem
      exact hnew (List.mem_map.2 ⟨x, pending_subset hr x hx, hxp⟩)
    rw [Ledger.table, hregistered, List.map_append, List.count_append, List.map_reverse,
      List.count_reverse, ← Ledger.table, List.count_eq_zero_of_not_mem hnew, Nat.add_zero] at hone
    rw [hpending, List.map_append, List.count_append, List.count_eq_zero_of_not_mem hbefore, hone]
  · obtain ⟨later, hlater, -⟩ := hu.added
    refine result_of_registered (hu.sound hsound) ?_ ht expand
    rw [hlater]
    exact List.mem_append_right _ hx

/-- A template that asks whether the bow can be had in the den. -/
def denLexicon : Lexicon :=
  ⟨.plain, ⟨[("den", ⟨"den", [], .call "at" [.str "Den", .name "Bow"]⟩)]⟩, none⟩

/-- The rule `False and (at('Cave', 'Bow or Hookshot') or not den)`. -/
def deadRule : Term :=
  .group .and [.bool false, .group .or
    [.call "at" [.str "Cave", .str "Bow or Hookshot"], .not (.name "den")]]

/-- A rule that is folded to false asks for the subrules in its dead branch all the same: the one
whose body is quoted, and the one in the body of the template. -/
theorem registersExactly_deadRule :
    (Action.result (resolve denLexicon deadRule) ⟨.empty, .empty⟩).1 = .ok (.const false) ∧
    ∀ p, AsksFor denLexicon deadRule p ↔
      p = ("Den", .name "Bow") ∨ p = ("Cave", .group .or [.name "Bow", .name "Hookshot"]) := by
  have hok : (Action.result (resolve denLexicon deadRule) ⟨.empty, .empty⟩).1 =
      .ok (.const false) := by
    decide
  have htable : (Action.result (resolve denLexicon deadRule) ⟨.empty, .empty⟩).2.ledger.table =
      [("Den", .name "Bow"), ("Cave", .group .or [.name "Bow", .name "Hookshot"])] := by
    decide +kernel
  refine ⟨hok, fun p => ?_⟩
  have hexactly : RegistersExactly denLexicon deadRule ⟨.empty, .empty⟩
      (Action.result (resolve denLexicon deadRule) ⟨.empty, .empty⟩).2 :=
    registersExactly_resolve (.fresh .empty) (Prod.ext hok rfl)
  have hp := hexactly.table p
  rw [htable] at hp
  simpa [Ledger.table, Ledger.empty] using hp.symm

end Progression.Rule
