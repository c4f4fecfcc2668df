import Progression.Proofs.Subrules

/-!
# What the tests of a rule ask for

Connectives and negations put a rule together from tests.  Resolving a rule resolves its tests
from left to right and stops at the first error, so besides its formula it does what its tests
do, one after the other.

A test can have two effects that go beyond itself.  It may call a template, whose body is then
resolved in its place, or it may ask for a subrule, which is then registered.  Which of the two
it does can be read off the test before anything is resolved.  All other tests declare events at
most, and never find calls nested too deep.

## Main definitions

* `Term.tests` — the tests that a term is put together from.
* `Invocation` — a call of a template.
* `Request`, `Lexicon.request?` — what a test asks for beyond itself.
* `Quiet` — an action that registers no subrule and does not find calls nested too deep.
* `effect` — an action without its result.

## Main results

* `effect_conditionAt` — a term does what its tests do, one after the other.
* `conditionAt_of_invoke` — a test that calls a template is resolved as its body.
* `condition_of_subrule` — a test that asks for a subrule registers it.
* `depth_induction` — induction along the calls of templates.
* `exists_quiet` — **all other tests are quiet, and do the same however calls are expanded.**
-/

namespace Progression.Rule

/-! ### Tests -/

namespace Term

mutual

/-- The tests that a term in the place of a condition is put together from. -/
def tests : Term → List Term
  | .group _ operands => testsOf operands
  | .not operand => tests operand
  | .name word => [.name word]
  | .str s => [.str s]
  | .int n => [.int n]
  | .decimal digits => [.decimal digits]
  | .bool b => [.bool b]
  | .tuple items => [.tuple items]
  | .call func args => [.call func args]
  | .subscript table key => [.subscript table key]
  | .compare left rest => [.compare left rest]
  | .arith op left right => [.arith op left right]
  | .neg operand => [.neg operand]

/-- The tests of a list of terms. -/
def testsOf : List Term → List Term
  | [] => []
  | t :: ts => tests t ++ testsOf ts

end

/-- Whether a term is neither a connective nor a negation. -/
def isTest : Term → Bool
  | .group .. | .not _ => false
  | _ => true

theorem tests_of_isTest {t : Term} (h : t.isTest = true) : t.tests = [t] := by
  cases t with
  | group | not => cases h
  | _ => rfl

theorem isTest_of_mem_tests (term : Term) : ∀ t ∈ term.tests, t.isTest = true := by
  induction term using Term.induction with
  | group op ts ih =>
    intro t ht
    rw [tests] at ht
    induction ts with
    | nil => cases ht
    | cons s ts ihs =>
      obtain ⟨hs, hts⟩ := List.forall_mem_cons.1 ih
      rw [testsOf, List.mem_append] at ht
      exact ht.elim (hs t) (ihs hts)
  | not operand ih => exact ih
  | _ =>
    intro t ht
    rw [List.mem_singleton.1 ht]
    rfl

end Term

/-! ### Requests -/

/-- A call of a template. -/
structure Invocation where
  template : Template
  args : List Term
  /-- The call as it is written. -/
  term : Term

namespace Invocation

/-- Whether there are as many arguments as parameters. -/
def Fits (c : Invocation) : Prop := c.args.length = c.template.params.length

/-- What is resolved in the place of the call. -/
def body (c : Invocation) : Term := c.template.instantiate c.args

end Invocation

/-- What a test asks for beyond itself. -/
inductive Request where
  | invoke (c : Invocation)
  | subrule (region : String) (body : Term)

/-- The names of the built-in tests that no template takes part in. -/
def builtinNames : List String :=
  ["has", "has_any_of", "has_all_of", "has_bottle", "has_hearts", "has_medallions", "has_stones",
    "has_dungeon_rewards", "has_ocarina_buttons", "has_all_notes_for_song", "has_all_item_goals",
    "won", "can_live_dmg", "had_night_start", "region_has_shortcuts", "item_count", "heart_count"]

namespace Lexicon

variable (lx : Lexicon)

/-- What a call of that name asks for, if it is that of a template. -/
def invocation? (name : String) (args : List Term) (term : Term) : Option Request :=
  (lx.templates.get? name).map fun t => .invoke ⟨t, args, term⟩

/-- What a test of the time of day asks for: night tokens call a template. -/
def dayRequest? : DayTest → Option Request
  | .night =>
    if isNightToken lx then
      lx.invocation? "can_play" [.name "Suns_Song"] (.call "can_play" [.name "Suns_Song"])
    else none
  | .day | .gravekeeper => none

/-- What a name asks for. -/
def nameRequest? (word : String) : Option Request :=
  match DayTest.ofName? word with
  | some test => lx.dayRequest? test
  | none =>
    if isRuntimeName word ∨ word ∈ builtinNames then none
    else lx.invocation? word [] (.name word)

/-- What a call asks for. -/
def callRequest? (func : String) (args : List Term) : Option Request :=
  match DayTest.ofName? func with
  | some test => if args = [] then lx.dayRequest? test else none
  | none =>
    if func = "at" then
      match args with
      | [.str region, body] => some (.subrule region (subruleBody body))
      | _ => none
    else if func = "here" then
      match args, lx.anchor with
      | [body], some anchor => some (.subrule anchor.region (subruleBody body))
      | _, _ => none
    else if func ∈ builtinNames ∨ (func = "guarantee_hint" ∧ args ≠ []) then none
    else lx.invocation? func args (.call func args)

/-- What a test asks for beyond itself: the template that it calls, or the subrule that it
stands for, of which a quoted rule is read. -/
def request? : Term → Option Request
  | .name word => lx.nameRequest? word
  | .call func args => lx.callRequest? func args
  | _ => none

end Lexicon

/-! ### Quiet actions -/

/-- Whether an error says that calls are nested too deep. -/
def RuleError.isLimit : RuleError → Bool
  | .recursionLimit .. => true
  | _ => false

/-- An action that registers no subrule, whether or not it fails, and does not find calls nested
too deep. -/
structure Quiet {α : Type} (act : Resolve α) : Prop where
  run : ∀ r, (Action.result act r).2.ledger.registered = r.ledger.registered ∧
    (Action.result act r).2.ledger.pending = r.ledger.pending ∧
    ∀ e, (Action.result act r).1 = .error e → e.isLimit = false

namespace Quiet

variable {α β : Type}

theorem pure (a : α) : Quiet (Pure.pure a : Resolve α) := ⟨fun _ => ⟨rfl, rfl, nofun⟩⟩

theorem get : Quiet (MonadState.get : Resolve Registry) := ⟨fun _ => ⟨rfl, rfl, nofun⟩⟩

theorem throw {e : RuleError} (h : e.isLimit = false) :
    Quiet (MonadExcept.throw e : Resolve α) := by
  refine ⟨fun r => ⟨rfl, rfl, fun e' he => ?_⟩⟩
  cases he
  exact h

theorem lift {x : Except RuleError α} (h : ∀ e, x = .error e → e.isLimit = false) :
    Quiet (liftM x : Resolve α) :=
  ⟨fun _ => ⟨rfl, rfl, h⟩⟩

theorem declareEvent (name : String) :
    Quiet (modifyGet fun r => r.declareEvent name : Resolve ItemId) :=
  ⟨fun _ => ⟨rfl, rfl, nofun⟩⟩

theorem bind {act : Resolve α} {k : α → Resolve β} (hact : Quiet act) (hk : ∀ a, Quiet (k a)) :
    Quiet (act >>= k) := by
  refine ⟨fun r => ?_⟩
  obtain ⟨hreg, hpend, herror⟩ := hact.run r
  rw [Action.result_bind]
  generalize Action.result act r = p at hreg hpend herror
  obtain ⟨x, s⟩ := p
  cases x with
  | error e => exact ⟨hreg, hpend, fun e' he => herror e' (by cases he; rfl)⟩
  | ok a =>
    obtain ⟨hreg', hpend', herror'⟩ := (hk a).run s
    exact ⟨hreg'.trans hreg, hpend'.trans hpend, herror'⟩

theorem mapM {f : α → Resolve β} (hf : ∀ a, Quiet (f a)) (xs : List α) : Quiet (xs.mapM f) := by
  induction xs with
  | nil =>
    rw [List.mapM_nil]
    exact .pure []
  | cons x xs ih =>
    rw [List.mapM_cons]
    exact .bind (hf x) fun b => .bind ih fun bs => .pure (b :: bs)

end Quiet

section Tests

variable {lx : Lexicon}

/-! ### Items and arguments -/

theorem quiet_itemOrEvent (name : String) : Quiet (itemOrEvent name) := by
  refine .bind .get fun r => ?_
  split
  · exact .pure _
  · exact .declareEvent name

theorem quiet_itemNamed (word : String) (term : Term) : Quiet (itemNamed lx word term) := by
  refine .bind .get fun r => ?_
  split
  · exact .pure _
  · split
    · exact .declareEvent _
    · exact .throw rfl

theorem quiet_itemArgument (func : String) (arg term : Term) :
    Quiet (itemArgument lx func arg term) := by
  unfold itemArgument
  split
  · exact quiet_itemNamed ..
  · exact quiet_itemOrEvent _
  · exact .throw rfl

/-! ### Constants -/

/-- A computation does not find calls nested too deep. -/
def Unlimited {α : Type} (x : Except RuleError α) : Prop :=
  ∀ e, x = .error e → e.isLimit = false

namespace Unlimited

variable {α β : Type}

theorem ok (a : α) : Unlimited (.ok a) := nofun

theorem error {e : RuleError} (h : e.isLimit = false) :
    Unlimited (.error e : Except RuleError α) := by
  intro e' he
  cases he
  exact h

theorem bind {x : Except RuleError α} {k : α → Except RuleError β} (hx : Unlimited x)
    (hk : ∀ a, Unlimited (k a)) : Unlimited (x >>= k) := by
  cases x with
  | error e => exact .error (hx e rfl)
  | ok a => exact hk a

end Unlimited

theorem unlimited_literals {ts : List Term} (h : ∀ t ∈ ts, Unlimited (lx.literal? t)) :
    Unlimited (lx.literals? ts) := by
  induction ts with
  | nil => exact .ok _
  | cons t ts ih =>
    obtain ⟨ht, hts⟩ := List.forall_mem_cons.1 h
    refine .bind ht fun v => ?_
    cases v with
    | none => exact .ok _
    | some v => exact .bind (ih hts) fun vs => .ok _

/-- Working out a constant expands no calls. -/
theorem unlimited_literal (term : Term) : Unlimited (lx.literal? term) := by
  induction term using Term.induction with
  | name | str | int | decimal | bool | call | group | not | compare => exact .ok _
  | tuple items ih => exact .bind (unlimited_literals ih) fun vs => .ok _
  | subscript table key ih =>
    unfold Lexicon.literal?
    cases lx.constant? table with
    | none => exact .error rfl
    | some container =>
      cases lx.bareKey? key with
      | some v =>
        refine .bind (.ok v) fun v => ?_
        dsimp only
        split
        · exact .ok _
        · exact .error rfl
      | none =>
        refine .bind ih fun v => ?_
        cases v with
        | none => exact .error rfl
        | some v =>
          refine .bind (.ok v) fun v => ?_
          dsimp only
          split
          · exact .ok _
          · exact .error rfl
  | neg operand ih =>
    refine .bind ih fun v => ?_
    split
    · split
      · split
        · exact .ok _
        · exact .error rfl
      · exact .error rfl
    · exact .error rfl
  | arith op left right ihl ihr =>
    refine .bind ihl fun l => .bind ihr fun r => ?_
    split
    · split
      · split
        · exact .ok _
        · exact .error rfl
      · exact .error rfl
    · exact .error rfl

theorem quiet_literal (term : Term) : Quiet (liftM (lx.literal? term) : Resolve (Option Value)) :=
  .lift (unlimited_literal term)

theorem quiet_integerArgument (func : String) (arg term : Term) :
    Quiet (integerArgument lx func arg term) := by
  refine .bind (quiet_literal arg) fun v => ?_
  split
  · exact .pure _
  · exact .throw rfl

theorem quiet_nameArgument (func : String) (arg term : Term) :
    Quiet (nameArgument lx func arg term) := by
  unfold nameArgument
  split
  · exact .pure _
  · exact .pure _
  · exact .throw rfl

theorem quiet_checkArity (name : String) (args : List Term) (due : Nat) (term : Term) :
    Quiet (checkArity lx name args due term) := by
  unfold checkArity
  split
  · exact .pure _
  · exact .throw rfl

theorem quiet_onlyArgument (name : String) (args : List Term) (term : Term) :
    Quiet (onlyArgument lx name args term) := by
  unfold onlyArgument
  split
  · exact .pure _
  · exact .throw rfl

theorem quiet_heartsArgument (name : String) (arg term : Term) :
    Quiet (heartsArgument lx name arg term) := by
  unfold heartsArgument
  split
  · exact .pure _
  · refine .bind (quiet_literal _) fun v => ?_
    split
    · exact .pure _
    · exact .throw rfl

/-! ### Counts and comparisons -/

theorem quiet_countTest (id : ItemId) (count term : Term) :
    Quiet (countTest lx id count term) := by
  unfold countTest
  split
  · exact .pure _
  · split
    · exact .pure _
    · exact .throw rfl
  · exact .throw rfl

theorem quiet_countCondition (items : List Term) (term : Term) :
    Quiet (countCondition lx items term) := by
  unfold countCondition
  split
  · next item count =>
    cases item with
    | name word => exact .bind (quiet_itemNamed word term) fun id => quiet_countTest ..
    | str s => exact .bind (quiet_itemOrEvent s) fun id => quiet_countTest ..
    | _ => exact .bind (.throw rfl) fun id => quiet_countTest ..
  · exact .throw rfl

theorem quiet_operand (side term : Term) : Quiet (operand lx side term) := by
  unfold operand
  split
  · exact .pure _
  · split
    · exact .pure _
    · refine .bind .get fun r => ?_
      split
      · exact .pure _
      · exact .throw rfl
  · refine .bind (quiet_onlyArgument ..) fun arg => ?_
    exact .bind (quiet_itemArgument ..) fun id => .pure _
  · exact .bind (quiet_checkArity ..) fun _ => .pure _
  · refine .bind (quiet_literal _) fun v => ?_
    split
    · exact .pure _
    · exact .throw rfl

theorem unlimited_foldComparison (op : Comparator) (left right : Operand) (term : Term) :
    Unlimited (foldComparison lx op left right term) := by
  unfold foldComparison
  split
  · split
    · exact .ok _
    · exact .error rfl
  · exact .ok _

theorem quiet_chainConditions (term : Term) (left : Operand) (rest : List (Comparator × Term)) :
    Quiet (chainConditions lx term left rest) := by
  induction rest generalizing left with
  | nil => exact .pure _
  | cons link rest ih =>
    refine .bind (quiet_operand link.2 term) fun right => ?_
    refine .bind (.lift (unlimited_foldComparison _ _ _ _)) fun f => ?_
    exact .bind (ih right) fun fs => .pure _

theorem quiet_comparison (left : Term) (rest : List (Comparator × Term)) :
    Quiet (comparison lx left rest) := by
  have chain : Quiet (do
      let l ← operand lx left (.compare left rest)
      return Formula.group .and (← chainConditions lx (.compare left rest) l rest)) := by
    refine .bind (quiet_operand ..) fun l => ?_
    exact .bind (quiet_chainConditions ..) fun fs => .pure _
  unfold comparison
  split
  · split
    · exact .pure _
    · exact chain
  · split
    · exact .pure _
    · exact chain
  · exact chain

theorem quiet_constantCondition (term : Term) : Quiet (constantCondition lx term) := by
  refine .bind (quiet_literal term) fun v => ?_
  split
  · exact .pure _
  · exact .throw rfl

/-! ### Built-in tests -/

theorem quiet_plainCondition (name : String) (f : Formula) (args : List Term) (term : Term) :
    Quiet (plainCondition lx name f args term) :=
  .bind (quiet_checkArity ..) fun _ => .pure _

theorem quiet_tallyCondition (name : String) (tally : Tally) (args : List Term) (term : Term) :
    Quiet (tallyCondition lx name tally args term) := by
  refine .bind (quiet_onlyArgument ..) fun arg => ?_
  exact .bind (quiet_integerArgument ..) fun n => .pure _

theorem quiet_songCondition (name : String) (args : List Term) (term : Term) :
    Quiet (songCondition lx name args term) := by
  refine .bind (quiet_onlyArgument ..) fun arg => ?_
  refine .bind (quiet_nameArgument ..) fun song => ?_
  exact .bind .get fun r => .pure _

theorem quiet_damageCondition (name : String) (args : List Term) (term : Term) :
    Quiet (damageCondition lx name args term) := by
  refine .bind (quiet_onlyArgument ..) fun arg => ?_
  exact .bind (quiet_heartsArgument ..) fun hearts => .pure _

theorem quiet_shortcutCondition (name : String) (args : List Term) (term : Term) :
    Quiet (shortcutCondition lx name args term) := by
  refine .bind (quiet_onlyArgument ..) fun arg => ?_
  exact .bind (quiet_nameArgument ..) fun region => .pure _

theorem quiet_hasCondition (args : List Term) (term : Term) :
    Quiet (hasCondition lx args term) := by
  unfold hasCondition
  split
  · exact .bind (quiet_itemArgument ..) fun id => .pure _
  · refine .bind (quiet_itemArgument ..) fun id => ?_
    exact .bind (quiet_integerArgument ..) fun n => .pure _
  · exact .throw rfl

theorem quiet_itemsCondition (name : String) (test : List ItemId → Formula) (args : List Term)
    (term : Term) : Quiet (itemsCondition lx name test args term) := by
  have listed : Quiet (do
      return test (← (listedItems args).mapM fun item => itemArgument lx name item term)) :=
    .bind (.mapM (fun item => quiet_itemArgument name item term) _) fun ids => .pure _
  unfold itemsCondition
  dsimp only
  split
  · exact .bind (.throw rfl) fun _ => listed
  · exact listed

theorem quiet_sunSong : Quiet (sunSong lx) := by
  refine .bind (quiet_itemNamed ..) fun ocarina => ?_
  refine .bind (quiet_itemNamed ..) fun song => ?_
  exact .bind .get fun r => .pure _

theorem quiet_nonzeroCondition (term : Term) : Quiet (nonzeroCondition lx term) :=
  .bind (quiet_operand ..) fun _ => .pure _

/-! ### Tests that ask for nothing -/

/-- A quiet action that is the same however calls are expanded. -/
def QuietAlways (act : Expansion → Resolve Formula) : Prop :=
  ∃ quiet : Resolve Formula, Quiet quiet ∧ ∀ expand, act expand = quiet

theorem QuietAlways.of_quiet {act : Resolve Formula} (h : Quiet act) :
    QuietAlways fun _ => act :=
  ⟨act, h, fun _ => rfl⟩

theorem builtin_of_not_mem {name : String} (h : name ∉ builtinNames)
    (hhint : name ≠ "guarantee_hint") (expand : Expansion) (args : List Term) (term : Term) :
    builtin? lx expand name args term = none := by
  simp only [builtinNames, List.mem_cons, List.not_mem_nil, or_false, not_or] at h
  unfold builtin?
  split <;> first | rfl | simp_all

theorem builtin_of_mem (lx : Lexicon) {name : String} (h : name ∈ builtinNames) (args : List Term)
    (term : Term) :
    ∃ act, Quiet act ∧ ∀ expand, builtin? lx expand name args term = some act := by
  simp only [builtinNames, List.mem_cons, List.not_mem_nil, or_false] at h
  -- one case for each name, in the order of the definition
  rcases h with rfl | rfl | rfl | rfl | rfl | rfl | rfl | rfl | rfl | rfl | rfl | rfl | rfl | rfl |
    rfl | rfl | rfl
  · exact ⟨_, quiet_hasCondition .., fun _ => rfl⟩
  · exact ⟨_, quiet_itemsCondition .., fun _ => rfl⟩
  · exact ⟨_, quiet_itemsCondition .., fun _ => rfl⟩
  · exact ⟨_, quiet_plainCondition .., fun _ => rfl⟩
  · exact ⟨_, quiet_tallyCondition .., fun _ => rfl⟩
  · exact ⟨_, quiet_tallyCondition .., fun _ => rfl⟩
  · exact ⟨_, quiet_tallyCondition .., fun _ => rfl⟩
  · exact ⟨_, quiet_tallyCondition .., fun _ => rfl⟩
  · exact ⟨_, quiet_tallyCondition .., fun _ => rfl⟩
  · exact ⟨_, quiet_songCondition .., fun _ => rfl⟩
  · exact ⟨_, quiet_plainCondition .., fun _ => rfl⟩
  · exact ⟨_, quiet_plainCondition .., fun _ => rfl⟩
  · exact ⟨_, quiet_damageCondition .., fun _ => rfl⟩
  · exact ⟨_, quiet_plainCondition .., fun _ => rfl⟩
  · exact ⟨_, quiet_shortcutCondition .., fun _ => rfl⟩
  · exact ⟨_, quiet_nonzeroCondition _, fun _ => rfl⟩
  · exact ⟨_, quiet_nonzeroCondition _, fun _ => rfl⟩

theorem quietAlways_dayCondition {test : DayTest} (h : lx.dayRequest? test = none) :
    QuietAlways fun expand => dayCondition lx expand test := by
  cases test with
  | day =>
    simp only [dayCondition]
    split
    · exact .of_quiet (.bind quiet_sunSong fun song => .pure _)
    · exact .of_quiet (.pure _)
  | night =>
    simp only [dayCondition, Lexicon.dayRequest?] at h ⊢
    split
    · next htoken =>
      rw [if_pos htoken, Lexicon.invocation?, Option.map_eq_none_iff] at h
      simp only [templateCall, h]
      exact .of_quiet (.throw rfl)
    · split
      · exact .of_quiet (.bind quiet_sunSong fun song => .pure _)
      · exact .of_quiet (.pure _)
  | gravekeeper =>
    simp only [dayCondition]
    split
    · exact .of_quiet (.pure _)
    · exact .of_quiet (.pure _)

theorem quietAlways_nameCondition {word : String} (h : lx.nameRequest? word = none) :
    QuietAlways fun expand => nameCondition lx expand word := by
  unfold Lexicon.nameRequest? at h
  simp only [nameCondition]
  cases htest : DayTest.ofName? word with
  | some test =>
    simp only [htest] at h ⊢
    exact quietAlways_dayCondition h
  | none =>
    simp only [htest] at h ⊢
    by_cases hruntime : isRuntimeName word = true
    · simp only [hruntime, if_true]
      exact ⟨throw _, .throw rfl, fun _ => rfl⟩
    · simp only [hruntime, Bool.false_eq_true, if_false]
      by_cases hbuiltin : word ∈ builtinNames
      · obtain ⟨act, hact, hsame⟩ := builtin_of_mem lx hbuiltin [] (.name word)
        simp only [hsame]
        exact .of_quiet hact
      · rw [if_neg (not_or.2 ⟨hruntime, hbuiltin⟩), Lexicon.invocation?,
          Option.map_eq_none_iff] at h
        by_cases hhint : word = "guarantee_hint"
        · subst hhint
          simp only [builtin?, h]
          exact .of_quiet (.bind (quiet_checkArity ..) fun _ => .throw rfl)
        · simp only [builtin_of_not_mem hbuiltin hhint, h]
          refine .of_quiet (.bind .get fun r => ?_)
          split
          · exact .pure _
          · split
            · exact .pure _
            · exact .bind (quiet_itemNamed ..) fun id => .pure _

theorem quietAlways_callCondition {func : String} {args : List Term}
    (h : lx.callRequest? func args = none) :
    QuietAlways fun expand => callCondition lx expand func args := by
  unfold Lexicon.callRequest? at h
  simp only [callCondition]
  cases htest : DayTest.ofName? func with
  | some test =>
    simp only [htest] at h ⊢
    by_cases hargs : args = []
    · subst hargs
      rw [if_pos rfl] at h
      obtain ⟨act, hact, hsame⟩ := quietAlways_dayCondition h
      simp only [hsame]
      exact .of_quiet (.bind (quiet_checkArity ..) fun _ => hact)
    · -- the number of arguments is wrong
      have hlength : args.length ≠ 0 := fun hzero => hargs (List.length_eq_zero_iff.1 hzero)
      simp only [checkArity, if_neg hlength]
      exact ⟨throw _, .throw rfl, fun _ => rfl⟩
  | none =>
    simp only [htest] at h ⊢
    by_cases hat : func = "at"
    · simp only [if_pos hat] at h ⊢
      refine .of_quiet ?_
      split
      · next region body =>
        cases region with
        | str region => cases h
        | _ => exact .throw rfl
      · exact .throw rfl
    · by_cases hhere : func = "here"
      · simp only [if_neg hat, if_pos hhere] at h ⊢
        rcases args with _ | ⟨body, _ | ⟨t, ts⟩⟩
        · exact ⟨throw _, .throw rfl, fun _ => rfl⟩
        · cases hanchor : lx.anchor with
          | some anchor =>
            rw [hanchor] at h
            cases h
          | none => exact ⟨throw _, .throw rfl, fun _ => rfl⟩
        · exact ⟨throw _, .throw rfl, fun _ => rfl⟩
      · simp only [if_neg hat, if_neg hhere] at h ⊢
        by_cases hbuiltin : func ∈ builtinNames
        · obtain ⟨act, hact, hsame⟩ := builtin_of_mem lx hbuiltin args (.call func args)
          simp only [hsame]
          exact .of_quiet hact
        · by_cases hhint : func = "guarantee_hint"
          · subst hhint
            by_cases hargs : args = []
            · subst hargs
              simp only [hbuiltin, ne_eq, not_true_eq_false, and_false, or_self, if_false,
                Lexicon.invocation?, Option.map_eq_none_iff] at h
              simp only [builtin?, h]
              exact .of_quiet (.bind (quiet_checkArity ..) fun _ => .throw rfl)
            · have hlength : args.length ≠ 0 := fun hzero => hargs (List.length_eq_zero_iff.1 hzero)
              simp only [builtin?, checkArity, if_neg hlength]
              exact ⟨throw _, .throw rfl, fun _ => rfl⟩
          · simp only [hbuiltin, hhint, false_and, or_self, if_false, Lexicon.invocation?,
              Option.map_eq_none_iff] at h
            simp only [builtin_of_not_mem hbuiltin hhint, templateCall, h]
            exact .of_quiet (.throw rfl)

/-- **A test that asks for nothing is quiet, and does the same however calls are expanded.** -/
theorem exists_quiet {t : Term} (ht : t.isTest = true) (h : lx.request? t = none) :
    ∃ act, Quiet act ∧ ∀ expand, condition lx expand t = act := by
  cases t with
  | bool | int => exact ⟨_, .pure _, fun _ => rfl⟩
  | str s => exact ⟨_, .bind (quiet_itemOrEvent s) fun id => .pure _, fun _ => rfl⟩
  | name word => exact quietAlways_nameCondition h
  | tuple items => exact ⟨_, quiet_countCondition items _, fun _ => rfl⟩
  | call func args => exact quietAlways_callCondition h
  | group | not => cases ht
  | compare left rest => exact ⟨_, quiet_comparison left rest, fun _ => rfl⟩
  | decimal | subscript | arith | neg => exact ⟨_, quiet_constantCondition _, fun _ => rfl⟩

/-! ### Tests that ask for something -/

theorem dayCondition_of_invoke {test : DayTest} {c : Invocation}
    (h : lx.dayRequest? test = some (.invoke c)) (expand : Expansion) :
    dayCondition lx expand test = expand c.template c.args c.term := by
  cases test with
  | day | gravekeeper => cases h
  | night =>
    simp only [Lexicon.dayRequest?] at h
    split at h
    · next htoken =>
      obtain ⟨t, ht, hc⟩ := Option.map_eq_some_iff.1 h
      cases hc
      simp only [dayCondition, htoken, if_true, templateCall, ht]
    · cases h

theorem nameCondition_of_invoke {word : String} {c : Invocation}
    (h : lx.nameRequest? word = some (.invoke c)) (expand : Expansion) :
    nameCondition lx expand word = expand c.template c.args c.term := by
  unfold Lexicon.nameRequest? at h
  simp only [nameCondition]
  cases htest : DayTest.ofName? word with
  | some test =>
    simp only [htest] at h ⊢
    exact dayCondition_of_invoke h expand
  | none =>
    simp only [htest] at h ⊢
    split at h
    · cases h
    · next hname =>
      obtain ⟨hruntime, hbuiltin⟩ := not_or.1 hname
      obtain ⟨t, ht, hc⟩ := Option.map_eq_some_iff.1 h
      cases hc
      simp only [hruntime, Bool.false_eq_true, if_false]
      by_cases hhint : word = "guarantee_hint"
      · subst hhint
        simp only [builtin?, ht]
        rfl
      · simp only [builtin_of_not_mem hbuiltin hhint, ht]

theorem callCondition_of_invoke {func : String} {args : List Term} {c : Invocation}
    (h : lx.callRequest? func args = some (.invoke c)) (expand : Expansion) :
    callCondition lx expand func args = expand c.template c.args c.term := by
  unfold Lexicon.callRequest? at h
  simp only [callCondition]
  cases htest : DayTest.ofName? func with
  | some test =>
    simp only [htest] at h ⊢
    split at h
    · next hargs =>
      subst hargs
      exact dayCondition_of_invoke h expand
    · cases h
  | none =>
    simp only [htest] at h ⊢
    split at h
    · split at h <;> cases h
    · next hat =>
      split at h
      · split at h <;> cases h
      · next hhere =>
        split at h
        · cases h
        · next hname =>
          obtain ⟨hbuiltin, hhint⟩ := not_or.1 hname
          obtain ⟨t, ht, hc⟩ := Option.map_eq_some_iff.1 h
          cases hc
          simp only [if_neg hat, if_neg hhere]
          by_cases hname : func = "guarantee_hint"
          · have hargs : args = [] :=
              Classical.byContradiction fun hargs => hhint ⟨hname, hargs⟩
            subst hname hargs
            simp only [builtin?, ht]
            rfl
          · simp only [builtin_of_not_mem hbuiltin hname, templateCall, ht]

/-- A test that calls a template does what the call expands to. -/
theorem condition_of_invoke {t : Term} {c : Invocation} (h : lx.request? t = some (.invoke c))
    (expand : Expansion) : condition lx expand t = expand c.template c.args c.term := by
  cases t with
  | name word => exact nameCondition_of_invoke h expand
  | call func args => exact callCondition_of_invoke h expand
  | _ => cases h

theorem invocation_ne_subrule {name : String} {args : List Term} {term : Term} {region : String}
    {body : Term} : lx.invocation? name args term ≠ some (.subrule region body) := by
  intro h
  obtain ⟨_, -, hc⟩ := Option.map_eq_some_iff.1 h
  cases hc

theorem dayRequest_ne_subrule {test : DayTest} {region : String} {body : Term} :
    lx.dayRequest? test ≠ some (.subrule region body) := by
  intro h
  cases test with
  | day | gravekeeper => cases h
  | night =>
    simp only [Lexicon.dayRequest?] at h
    split at h
    · exact invocation_ne_subrule h
    · cases h

theorem nameRequest_ne_subrule {word : String} {region : String} {body : Term} :
    lx.nameRequest? word ≠ some (.subrule region body) := by
  intro h
  unfold Lexicon.nameRequest? at h
  split at h
  · exact dayRequest_ne_subrule h
  · split at h
    · cases h
    · exact invocation_ne_subrule h

/-- A test that asks for a subrule registers it, and stands for its item. -/
theorem condition_of_subrule {t : Term} {region : String} {body : Term}
    (h : lx.request? t = some (.subrule region body)) (expand : Expansion) :
    condition lx expand t = (do
      return .item (← modifyGet fun r => r.registerSubrule region body)) := by
  cases t with
  | name word => exact absurd h nameRequest_ne_subrule
  | call func args =>
    simp only [Lexicon.request?, Lexicon.callRequest?] at h
    simp only [condition, callCondition]
    cases htest : DayTest.ofName? func with
    | some test =>
      simp only [htest] at h
      split at h
      · exact absurd h dayRequest_ne_subrule
      · cases h
    | none =>
      simp only [htest] at h ⊢
      split at h
      · next hat =>
        rw [if_pos hat]
        split at h
        · cases h
          rfl
        · cases h
      · next hat =>
        rw [if_neg hat]
        split at h
        · next hhere =>
          rw [if_pos hhere]
          split at h
          · next anchor hanchor =>
            cases h
            simp only [hanchor]
            rfl
          · cases h
        · split at h
          · cases h
          · exact absurd h invocation_ne_subrule
  | _ => cases h

end Tests

/-! ### Effects -/

/-- An action without its result. -/
def effect {α : Type} (act : Resolve α) : Resolve Unit := do
  let _ ← act
  return ()

theorem result_effect {α : Type} (act : Resolve α) (r : Registry) :
    Action.result (effect act) r =
      ((Action.result act r).1.map fun _ => (), (Action.result act r).2) := by
  unfold effect
  rw [Action.result_bind]
  generalize Action.result act r = p
  obtain ⟨_ | _, s⟩ := p <;> rfl

theorem effect_bind_pure {α β : Type} (act : Resolve α) (f : α → β) :
    effect (do return f (← act)) = effect act := by
  simp only [effect, bind_assoc, pure_bind]

variable (lx : Lexicon)

theorem effect_conditions (expand : Expansion) {terms : List Term}
    (h : ∀ t ∈ terms, effect (condition lx expand t) =
      t.tests.forM fun s => effect (condition lx expand s)) :
    effect (conditions lx expand terms) =
      (Term.testsOf terms).forM fun s => effect (condition lx expand s) := by
  induction terms with
  | nil => rfl
  | cons t ts ih =>
    obtain ⟨ht, hts⟩ := List.forall_mem_cons.1 h
    have hlist : effect (conditions lx expand (t :: ts)) =
        (do effect (condition lx expand t); effect (conditions lx expand ts)) := by
      simp only [conditions, effect, bind_assoc, pure_bind]
    rw [hlist, ht, ih hts, Term.testsOf]
    exact (List.forM_append).symm

theorem effect_condition (expand : Expansion) (term : Term) :
    effect (condition lx expand term) =
      term.tests.forM fun t => effect (condition lx expand t) := by
  have test : ∀ t : Term, t.isTest = true → effect (condition lx expand t) =
      t.tests.forM fun s => effect (condition lx expand s) := by
    intro t ht
    rw [Term.tests_of_isTest ht]
    exact (bind_pure _).symm
  induction term using Term.induction with
  | group op ts ih =>
    rw [condition, effect_bind_pure, effect_conditions lx expand ih]
    rfl
  | not operand ih =>
    rw [condition, effect_bind_pure, ih]
    rfl
  | _ => exact test _ rfl

/-! ### Nested calls -/

theorem exists_expansion (depth : Nat) :
    ∃ expand, ∀ term, conditionAt lx depth term = condition lx expand term :=
  ⟨_, fun _ => by unfold conditionAt; rfl⟩

/-- Besides its formula, a term does what its tests do, one after the other. -/
theorem effect_conditionAt (depth : Nat) (term : Term) :
    effect (conditionAt lx depth term) =
      term.tests.forM fun t => effect (conditionAt lx depth t) := by
  obtain ⟨expand, hexpand⟩ := exists_expansion lx depth
  simp only [hexpand]
  exact effect_condition lx expand term

variable {lx}

theorem checkArity_of_fits {c : Invocation} (h : c.Fits) :
    checkArity lx c.template.name c.args c.template.params.length c.term = pure () :=
  if_pos h

theorem checkArity_of_not_fits {c : Invocation} (h : ¬ c.Fits) :
    checkArity lx c.template.name c.args c.template.params.length c.term =
      throw (.arity lx.spot c.template.name c.template.params.length c.args.length c.term) :=
  if_neg h

/-- A test that calls a template with the wrong number of arguments is an error. -/
theorem conditionAt_of_not_fits {depth : Nat} {t : Term} {c : Invocation}
    (h : lx.request? t = some (.invoke c)) (hfits : ¬ c.Fits) :
    conditionAt lx depth t = throw (.arity lx.spot c.template.name c.template.params.length
      c.args.length c.term) := by
  unfold conditionAt
  rw [condition_of_invoke h, checkArity_of_not_fits hfits]
  rfl

/-- A call that is nested too deep is an error. -/
theorem conditionAt_zero_of_invoke {t : Term} {c : Invocation}
    (h : lx.request? t = some (.invoke c)) (hfits : c.Fits) :
    conditionAt lx 0 t = throw (.recursionLimit lx.spot expansionLimit c.term) := by
  unfold conditionAt
  rw [condition_of_invoke h, checkArity_of_fits hfits]
  rfl

/-- A test that calls a template is resolved as the body, one level deeper. -/
theorem conditionAt_of_invoke {depth : Nat} {t : Term} {c : Invocation}
    (h : lx.request? t = some (.invoke c)) (hfits : c.Fits) :
    conditionAt lx (depth + 1) t = conditionAt lx depth c.body := by
  rw [conditionAt, condition_of_invoke h, checkArity_of_fits hfits]
  rfl

/-- Induction over the depth that is left, along the calls of templates: from the tests of a term
to the term, and from the body of a call to the call. -/
@[elab_as_elim]
theorem depth_induction {motive : Nat → Term → Prop}
    (tests : ∀ depth term, (∀ t, t.isTest = true → motive depth t) → motive depth term)
    (plain : ∀ depth t, t.isTest = true → (∀ c, lx.request? t ≠ some (.invoke c)) →
      motive depth t)
    (misfit : ∀ depth t c, t.isTest = true → lx.request? t = some (.invoke c) → ¬ c.Fits →
      motive depth t)
    (tooDeep : ∀ t c, t.isTest = true → lx.request? t = some (.invoke c) → c.Fits → motive 0 t)
    (body : ∀ depth t c, t.isTest = true → lx.request? t = some (.invoke c) → c.Fits →
      motive depth c.body → motive (depth + 1) t)
    (depth : Nat) (term : Term) : motive depth term := by
  induction depth generalizing term with
  | zero =>
    refine tests 0 term fun t ht => ?_
    by_cases hreq : ∃ c, lx.request? t = some (.invoke c)
    · obtain ⟨c, hreq⟩ := hreq
      by_cases hfits : c.Fits
      · exact tooDeep t c ht hreq hfits
      · exact misfit 0 t c ht hreq hfits
    · exact plain 0 t ht fun c hc => hreq ⟨c, hc⟩
  | succ depth ih =>
    refine tests (depth + 1) term fun t ht => ?_
    by_cases hreq : ∃ c, lx.request? t = some (.invoke c)
    · obtain ⟨c, hreq⟩ := hreq
      by_cases hfits : c.Fits
      · exact body depth t c ht hreq hfits (ih c.body)
      · exact misfit (depth + 1) t c ht hreq hfits
    · exact plain (depth + 1) t ht fun c hc => hreq ⟨c, hc⟩

end Progression.Rule
