import Progression.Proofs.Actions
import Progression.Proofs.Folding
import Progression.Rule.Compile

/-!
# What resolving a rule can do

Resolving a rule changes the registry in two ways only: it declares events, and it
registers subrules.  Whatever both of these keep is therefore kept by every
resolution, also by one that fails.  And the formula is put together from a few tests by
folding, so it has what the tests have and folding keeps.  In particular, it asks of the time
of day only what the built-in tests ask.

## Main definitions

* `Registry.Stable` — a property of registries that both changes keep.
* `KeptByResolving` — a property of formulas that the tests have and folding keeps.

## Main results

* `keeps_of_kept` — **resolving a rule keeps what both changes keep, and its formula has what
  the tests have and folding keeps.**
* `keeps_resolve` — so it tests for day or night only.
-/

namespace Progression.Rule

/-- A property of registries that is kept when an event is declared and when a subrule
is registered. -/
structure Registry.Stable (P : Registry → Prop) : Prop where
  declareEvent : ∀ r name, P r → P (r.declareEvent name).2
  registerSubrule : ∀ r region body, P r → P (r.registerSubrule region body).2

/-- Whether a side of a comparison is known before the rule is evaluated. -/
def Operand.isLiteral : Operand → Bool
  | .literal _ => true
  | _ => false

theorem Operand.exists_of_isLiteral {v : Operand} (h : v.isLiteral = true) :
    ∃ value, v = .literal value := by
  cases v with
  | literal value => exact ⟨value, rfl⟩
  | _ => cases h

/-- A value that the name of a count can stand for: that of a constant of the name, or the
display name of an item. -/
def Lexicon.StandsForCount (lx : Lexicon) (value : Value) : Prop :=
  (∃ word, (word = "item_count" ∨ word = "heart_count") ∧ lx.constant? word = some value) ∨
    ∃ s, value = .str s

/-- A number that a rule can ask to be more than zero by naming a count. -/
def Lexicon.Counts (lx : Lexicon) (v : Operand) : Prop :=
  ∀ value, v = .literal value → lx.StandsForCount value

/-- A property of formulas that the tests of rules have and that folding keeps. -/
structure KeptByResolving (lx : Lexicon) (Q : Formula → Prop) : Prop where
  const : ∀ b, Q (.const b)
  item : ∀ id, Q (.item id)
  has : ∀ id n, Q (.has id n)
  bottle : Q .bottle
  atLeast : ∀ tally n, Q (.atLeast tally n)
  allGoals : Q .allGoals
  won : Q .won
  compare : ∀ op left right, (left.isLiteral && right.isLiteral) = false →
    Q (.compare op left right)
  nonzero : ∀ v, lx.Counts v → Q (.compare .gt v (.literal (.int 0)))
  day : ∀ song, Q song → Q (timeOrSong .atDay song)
  night : ∀ song, Q song → Q (timeOrSong .atNight song)
  gravekeeper : Q (.time .atNight none)
  group : ∀ op fs, (∀ f ∈ fs, Q f) → Q (.group op fs)
  negate : ∀ f, Q f → Q f.negate

namespace KeptByResolving

variable {lx : Lexicon} {Q : Formula → Prop} (hQ : KeptByResolving lx Q)
include hQ

theorem items (op : Connective) (ids : List ItemId) : Q (.group op (ids.map .item)) := by
  refine hQ.group op _ fun f hf => ?_
  obtain ⟨id, -, rfl⟩ := List.mem_map.1 hf
  exact hQ.item id

theorem songButtons (catalog : Catalog) (song : String) :
    Q (songButtons lx catalog song) := by
  unfold Rule.songButtons
  split
  · exact hQ.atLeast ..
  · split
    · exact hQ.items .and _
    · exact hQ.const true

theorem foldComparison {op : Comparator} {left right : Operand} {term : Term}
    {f : Formula} (h : foldComparison lx op left right term = .ok f) : Q f := by
  unfold Rule.foldComparison at h
  split at h
  · split at h <;> cases h
    exact hQ.const _
  · next hne =>
    cases h
    refine hQ.compare op left right (Bool.eq_false_iff.2 fun hboth => ?_)
    rw [Bool.and_eq_true] at hboth
    obtain ⟨a, rfl⟩ := Operand.exists_of_isLiteral hboth.1
    obtain ⟨b, rfl⟩ := Operand.exists_of_isLiteral hboth.2
    exact hne a b rfl rfl

end KeptByResolving

section Keeping

variable {P : Registry → Prop} {Q : Formula → Prop} {lx : Lexicon}

/-! ### Items and arguments -/

section Items

variable (hP : Registry.Stable P)
include hP

theorem keeps_itemOrEvent (name : String) : Keeps P (fun _ => True) (itemOrEvent name) := by
  refine .bind .get fun r _ => ?_
  split
  · exact .pure trivial
  · exact .modifyGet fun r hr => ⟨hP.declareEvent r name hr, trivial⟩

theorem keeps_itemNamed (word : String) (term : Term) :
    Keeps P (fun _ => True) (itemNamed lx word term) := by
  refine .bind .get fun r _ => ?_
  split
  · exact .pure trivial
  · split
    · exact .modifyGet fun r hr => ⟨hP.declareEvent r _ hr, trivial⟩
    · exact .throw _

theorem keeps_itemArgument (func : String) (arg term : Term) :
    Keeps P (fun _ => True) (itemArgument lx func arg term) := by
  unfold itemArgument
  split
  · exact keeps_itemNamed hP ..
  · exact keeps_itemOrEvent hP ..
  · exact .throw _

end Items

theorem keeps_integerArgument (func : String) (arg term : Term) :
    Keeps P (fun _ => True) (integerArgument lx func arg term) := by
  refine .bind (.lift _) fun v _ => ?_
  split
  · exact .pure trivial
  · exact .throw _

theorem keeps_nameArgument (func : String) (arg term : Term) :
    Keeps P (fun _ => True) (nameArgument lx func arg term) := by
  unfold nameArgument
  split
  · exact .pure trivial
  · exact .pure trivial
  · exact .throw _

theorem keeps_checkArity (name : String) (args : List Term) (due : Nat) (term : Term) :
    Keeps P (fun _ => True) (checkArity lx name args due term) := by
  unfold checkArity
  split
  · exact .pure trivial
  · exact .throw _

theorem keeps_onlyArgument (name : String) (args : List Term) (term : Term) :
    Keeps P (fun _ => True) (onlyArgument lx name args term) := by
  unfold onlyArgument
  split
  · exact .pure trivial
  · exact .throw _

theorem keeps_heartsArgument (name : String) (arg term : Term) :
    Keeps P (fun _ => True) (heartsArgument lx name arg term) := by
  unfold heartsArgument
  split
  · exact .pure trivial
  · refine .bind (.lift _) fun v _ => ?_
    split
    · exact .pure trivial
    · exact .throw _

/-! ### Tests -/

section Tests

variable (hP : Registry.Stable P) (hQ : KeptByResolving lx Q)

theorem keeps_operand (hP : Registry.Stable P) (side term : Term) :
    Keeps P (fun _ => True) (operand lx side term) := by
  unfold operand
  split
  · exact .pure trivial
  · split
    · exact .pure trivial
    · refine .bind .get fun r _ => ?_
      split
      · exact .pure trivial
      · exact .throw _
  · refine .bind (keeps_onlyArgument ..) fun arg _ => ?_
    refine .bind (keeps_itemArgument hP ..) fun id _ => ?_
    exact .pure trivial
  · refine .bind (keeps_checkArity ..) fun _ _ => ?_
    exact .pure trivial
  · refine .bind (.lift _) fun v _ => ?_
    split
    · exact .pure trivial
    · exact .throw _

/-- The bare name of a count asks for no count, but for what else has that name. -/
theorem counts_name {name : String} (hname : name = "item_count" ∨ name = "heart_count")
    (term : Term) : Keeps P lx.Counts (operand lx (.name name) term) := by
  have hage : name ≠ "age" := by rcases hname with rfl | rfl <;> decide
  unfold operand
  split
  · next heq => exact absurd (Term.name.inj heq) hage
  · next word _ heq =>
    cases heq
    split
    · next v hv =>
      refine .pure fun value hvalue => .inl ⟨name, hname, ?_⟩
      cases hvalue
      exact hv
    · refine .bind .get fun r _ => ?_
      split
      · next e _ =>
        refine .pure fun value hvalue => .inr ⟨e.name, ?_⟩
        cases hvalue
        rfl
      · exact .throw _
  · next heq => cases heq
  · next heq => cases heq
  · next hne _ _ => exact absurd rfl (hne name)

/-- A call of a count is no literal. -/
theorem counts_call (hP : Registry.Stable P) {name : String}
    (hname : name = "item_count" ∨ name = "heart_count") (args : List Term) (term : Term) :
    Keeps P lx.Counts (operand lx (.call name args) term) := by
  rcases hname with rfl | rfl
  · refine .bind (keeps_onlyArgument ..) fun arg _ => ?_
    exact .bind (keeps_itemArgument hP ..) fun id _ => .pure nofun
  · exact .bind (keeps_checkArity ..) fun _ _ => .pure nofun

section Registering

include hQ

theorem keeps_countTest (id : ItemId) (count term : Term) :
    Keeps P Q (countTest lx id count term) := by
  unfold countTest
  split
  · exact .pure (hQ.has ..)
  · split
    · exact .pure (hQ.has ..)
    · exact .throw _
  · exact .throw _

include hP

theorem keeps_countCondition (items : List Term) (term : Term) :
    Keeps P Q (countCondition lx items term) := by
  unfold countCondition
  split
  · next item count =>
    cases item with
    | name word => exact .bind (keeps_itemNamed hP word term) fun id _ => keeps_countTest hQ ..
    | str s => exact .bind (keeps_itemOrEvent hP s) fun id _ => keeps_countTest hQ ..
    | _ => exact .bind (.throw _) fun id (_ : True) => keeps_countTest hQ ..
  · exact .throw _

theorem keeps_chainConditions (term : Term) (left : Operand) (rest : List (Comparator × Term)) :
    Keeps P (fun fs => ∀ f ∈ fs, Q f) (chainConditions lx term left rest) := by
  induction rest generalizing left with
  | nil => exact .pure (List.forall_mem_nil _)
  | cons link rest ih =>
    refine .bind (keeps_operand hP link.2 term) fun right _ => ?_
    refine .bind (.liftOk fun _ h => hQ.foldComparison h) fun f hf => ?_
    refine .bind (ih right) fun fs hfs => ?_
    exact .pure (List.forall_mem_cons.2 ⟨hf, hfs⟩)

theorem keeps_comparison (left : Term) (rest : List (Comparator × Term)) :
    Keeps P Q (comparison lx left rest) := by
  have chain : Keeps P Q (do
      let l ← operand lx left (.compare left rest)
      return Formula.group .and (← chainConditions lx (.compare left rest) l rest)) := by
    refine .bind (keeps_operand hP ..) fun l _ => ?_
    refine .bind (keeps_chainConditions hP hQ ..) fun fs hfs => ?_
    exact .pure (hQ.group .and fs hfs)
  unfold comparison
  split
  · split
    · exact .pure (hQ.const _)
    · exact chain
  · split
    · exact .pure (hQ.const _)
    · exact chain
  · exact chain

omit hP

theorem keeps_constantCondition (term : Term) : Keeps P Q (constantCondition lx term) := by
  refine .bind (.lift _) fun v _ => ?_
  split
  · exact .pure (hQ.const _)
  · exact .throw _

omit hQ in
theorem keeps_plainCondition (name : String) {f : Formula} (hf : Q f)
    (args : List Term) (term : Term) : Keeps P Q (plainCondition lx name f args term) := by
  refine .bind (keeps_checkArity ..) fun _ _ => ?_
  exact .pure hf

theorem keeps_tallyCondition (name : String) (tally : Tally) (args : List Term) (term : Term) :
    Keeps P Q (tallyCondition lx name tally args term) := by
  refine .bind (keeps_onlyArgument ..) fun arg _ => ?_
  refine .bind (keeps_integerArgument ..) fun n _ => .pure ?_
  split
  · exact hQ.const true
  · exact hQ.atLeast ..

theorem keeps_songCondition (name : String) (args : List Term) (term : Term) :
    Keeps P Q (songCondition lx name args term) := by
  refine .bind (keeps_onlyArgument ..) fun arg _ => ?_
  refine .bind (keeps_nameArgument ..) fun song _ => ?_
  refine .bind .get fun r _ => ?_
  exact .pure (hQ.songButtons ..)

theorem keeps_damageCondition (name : String) (args : List Term) (term : Term) :
    Keeps P Q (damageCondition lx name args term) := by
  refine .bind (keeps_onlyArgument ..) fun arg _ => ?_
  refine .bind (keeps_heartsArgument ..) fun hearts _ => ?_
  exact .pure (hQ.const _)

theorem keeps_shortcutCondition (name : String) (args : List Term) (term : Term) :
    Keeps P Q (shortcutCondition lx name args term) := by
  refine .bind (keeps_onlyArgument ..) fun arg _ => ?_
  refine .bind (keeps_nameArgument ..) fun region _ => ?_
  exact .pure (hQ.const _)

include hP

theorem keeps_subruleCondition (region : String) (body : Term) :
    Keeps P Q (subruleCondition region body) := by
  have registered : Keeps P (fun _ : ItemId => True)
      (modifyGet fun r => r.registerSubrule region (subruleBody body) : Resolve ItemId) :=
    .modifyGet fun r hr => ⟨hP.registerSubrule r region _ hr, trivial⟩
  exact .bind registered fun id _ => .pure (hQ.item id)

theorem keeps_hasCondition (args : List Term) (term : Term) :
    Keeps P Q (hasCondition lx args term) := by
  unfold hasCondition
  split
  · refine .bind (keeps_itemArgument hP ..) fun id _ => ?_
    exact .pure (hQ.item id)
  · refine .bind (keeps_itemArgument hP ..) fun id _ => ?_
    refine .bind (keeps_integerArgument ..) fun n _ => ?_
    exact .pure (hQ.has ..)
  · exact .throw _

theorem keeps_itemsCondition (name : String) (op : Connective) (args : List Term) (term : Term) :
    Keeps P Q (itemsCondition lx name (fun ids => .group op (ids.map .item)) args term) := by
  have listed : Keeps P Q (do
      return .group op
        ((← (listedItems args).mapM fun item => itemArgument lx name item term).map .item)) := by
    refine .bind (.mapM _ fun item _ => keeps_itemArgument hP name item term) fun ids _ => ?_
    exact .pure (hQ.items op ids)
  unfold itemsCondition
  dsimp only
  split
  · exact .bind (.throw _) fun _ (_ : True) => listed
  · exact listed

theorem keeps_sunSong : Keeps P Q (sunSong lx) := by
  refine .bind (keeps_itemNamed hP ..) fun ocarina _ => ?_
  refine .bind (keeps_itemNamed hP ..) fun song _ => ?_
  refine .bind .get fun r _ => .pure (hQ.group .and _ ?_)
  have hitems : Q (.hasAll [ocarina, song]) := hQ.items .and _
  exact List.forall_mem_cons.2 ⟨hitems, List.forall_mem_singleton.2 (hQ.songButtons ..)⟩

theorem keeps_nonzeroCondition {name : String}
    (hname : name = "item_count" ∨ name = "heart_count") {args : List Term} {term : Term}
    (hterm : term = .name name ∨ term = .call name args) :
    Keeps P Q (nonzeroCondition lx term) := by
  have counts : Keeps P lx.Counts (operand lx term term) := by
    rcases hterm with rfl | rfl
    · exact counts_name hname _
    · exact counts_call hP hname args _
  exact .bind counts fun v hv => .pure (hQ.nonzero v hv)

end Registering

/-! ### Conditions -/

section Conditions

variable {expand : Expansion} (hexpand : ∀ t args call, Keeps P Q (expand t args call))

include hexpand

theorem keeps_templateCall (func : String) (args : List Term) (term : Term) :
    Keeps P Q (templateCall lx expand func args term) := by
  unfold templateCall
  split
  · exact hexpand ..
  · exact .throw _

include hP hQ

theorem keeps_builtin {name : String} {args : List Term} {term : Term} {act : Resolve Formula}
    (hterm : term = .name name ∨ term = .call name args)
    (h : builtin? lx expand name args term = some act) : Keeps P Q act := by
  unfold builtin? at h
  -- one case for each name, in the order of the definition
  split at h <;> cases h
  · exact keeps_hasCondition hP hQ ..
  · exact keeps_itemsCondition hP hQ _ .or ..
  · exact keeps_itemsCondition hP hQ _ .and ..
  · exact keeps_plainCondition _ hQ.bottle ..
  · exact keeps_tallyCondition hQ ..
  · exact keeps_tallyCondition hQ ..
  · exact keeps_tallyCondition hQ ..
  · exact keeps_tallyCondition hQ ..
  · exact keeps_tallyCondition hQ ..
  · exact keeps_songCondition hQ ..
  · exact keeps_plainCondition _ hQ.allGoals ..
  · exact keeps_plainCondition _ hQ.won ..
  · exact keeps_damageCondition hQ ..
  · exact keeps_plainCondition _ (hQ.const _) ..
  · exact keeps_shortcutCondition hQ ..
  · refine .bind (keeps_checkArity ..) fun _ _ => ?_
    split
    · exact hexpand ..
    · exact .throw _
  · exact keeps_nonzeroCondition hP hQ (.inl rfl) hterm
  · exact keeps_nonzeroCondition hP hQ (.inr rfl) hterm

theorem keeps_dayCondition (test : DayTest) : Keeps P Q (dayCondition lx expand test) := by
  cases test with
  | day =>
    rw [dayCondition]
    split
    · exact .bind (keeps_sunSong hP hQ) fun song hs => .pure (hQ.day song hs)
    · exact .pure (hQ.const true)
  | night =>
    rw [dayCondition]
    split
    · exact keeps_templateCall hexpand ..
    · split
      · exact .bind (keeps_sunSong hP hQ) fun song hs => .pure (hQ.night song hs)
      · exact .pure (hQ.const true)
  | gravekeeper =>
    rw [dayCondition]
    split
    · exact .pure hQ.gravekeeper
    · exact .pure (hQ.const true)

theorem keeps_nameCondition (word : String) : Keeps P Q (nameCondition lx expand word) := by
  unfold nameCondition
  dsimp only
  split
  · exact keeps_dayCondition hP hQ hexpand _
  · split
    · exact .bind (.throw _) fun _ (h : False) => h.elim
    · split
      · next hf => exact keeps_builtin hP hQ hexpand (.inl rfl) hf
      · split
        · exact hexpand ..
        · refine .bind .get fun r _ => ?_
          split
          · exact .pure (hQ.item _)
          · split
            · exact .pure (hQ.const _)
            · exact .bind (keeps_itemNamed hP ..) fun id _ => .pure (hQ.item id)

theorem keeps_callCondition (func : String) (args : List Term) :
    Keeps P Q (callCondition lx expand func args) := by
  unfold callCondition
  dsimp only
  split
  · refine .bind (keeps_checkArity ..) fun _ _ => ?_
    exact keeps_dayCondition hP hQ hexpand _
  · split
    · split
      · split
        · exact keeps_subruleCondition hP hQ ..
        · exact .throw _
      · exact .throw _
    · split
      · refine .bind (keeps_onlyArgument ..) fun body _ => ?_
        split
        · exact keeps_subruleCondition hP hQ ..
        · exact .throw _
      · split
        · next hf => exact keeps_builtin hP hQ hexpand (.inr rfl) hf
        · exact keeps_templateCall hexpand ..

omit hP hQ hexpand in
theorem keeps_conditions {terms : List Term}
    (h : ∀ t ∈ terms, Keeps P Q (condition lx expand t)) :
    Keeps P (fun fs => ∀ f ∈ fs, Q f) (conditions lx expand terms) := by
  induction terms with
  | nil => exact .pure (List.forall_mem_nil _)
  | cons t ts ih =>
    obtain ⟨ht, hts⟩ := List.forall_mem_cons.1 h
    refine .bind ht fun f hf => ?_
    refine .bind (ih hts) fun fs hfs => ?_
    exact .pure (List.forall_mem_cons.2 ⟨hf, hfs⟩)

theorem keeps_condition (term : Term) : Keeps P Q (condition lx expand term) := by
  induction term using Term.induction with
  | bool | int => exact .pure (hQ.const _)
  | str s => exact .bind (keeps_itemOrEvent hP s) fun id _ => .pure (hQ.item id)
  | name word => exact keeps_nameCondition hP hQ hexpand word
  | tuple items _ => exact keeps_countCondition hP hQ items _
  | call func args _ => exact keeps_callCondition hP hQ hexpand func args
  | group op operands ih =>
    exact .bind (keeps_conditions ih) fun fs hfs => .pure (hQ.group op fs hfs)
  | not operand ih => exact .bind ih fun f hf => .pure (hQ.negate f hf)
  | compare left rest _ _ => exact keeps_comparison hP hQ left rest
  | decimal | subscript | arith | neg => exact keeps_constantCondition hQ _

end Conditions

/-! ### Rules -/

include hP hQ

theorem keeps_conditionAt (depth : Nat) : ∀ term, Keeps P Q (conditionAt lx depth term) := by
  induction depth with
  | zero =>
    intro term
    unfold conditionAt
    refine keeps_condition hP hQ (fun t args call => ?_) term
    exact .bind (keeps_checkArity ..) fun _ _ => .throw _
  | succ depth ih =>
    intro term
    unfold conditionAt
    refine keeps_condition hP hQ (fun t args call => ?_) term
    exact .bind (keeps_checkArity ..) fun _ _ => ih _

/-- **Resolving a rule keeps every property of the registry that declaring events and
registering subrules keep, and its formula has what the tests have and folding keeps.** -/
theorem keeps_of_kept (term : Term) : Keeps P Q (resolve lx term) :=
  keeps_conditionAt hP hQ expansionLimit term

end Tests

/-! ### The time of day -/

section Times

variable {p : TimeOfDay → Bool}

theorem eachTime_timeOrSong {times : TimeOfDay} {song : Formula} (ht : p times = true)
    (hs : song.eachTime p = true) : (timeOrSong times song).eachTime p = true := by
  unfold timeOrSong
  split
  · rfl
  · split
    · exact ht
    · rw [Formula.eachTime, ht, hs]
      rfl

theorem eachTime_kept (hday : p .atDay = true) (hnight : p .atNight = true) :
    KeptByResolving lx fun f => f.eachTime p = true where
  const _ := rfl
  item _ := rfl
  has _ _ := Formula.eachTime_has
  bottle := rfl
  atLeast _ _ := rfl
  allGoals := rfl
  won := rfl
  compare _ _ _ _ := rfl
  nonzero _ _ := rfl
  day _ h := eachTime_timeOrSong hday h
  night _ h := eachTime_timeOrSong hnight h
  gravekeeper := hnight
  group _ _ h := Formula.eachTime_group h
  negate _ h := Formula.eachTime_negate h

variable (hP : Registry.Stable P) (hday : p .atDay = true) (hnight : p .atNight = true)
include hP hday hnight

/-- The formula of a rule tests for day or night only. -/
theorem keeps_resolve (term : Term) :
    Keeps P (fun f => f.eachTime p = true) (resolve lx term) :=
  keeps_of_kept hP (eachTime_kept hday hnight) term

theorem keeps_resolveText (text : String) :
    Keeps P (fun f => f.eachTime p = true) (resolveText lx text) := by
  unfold resolveText
  split
  · exact .pure rfl
  · split
    · exact keeps_resolve hP hday hnight _
    · exact .throw _

end Times

end Keeping

/-- A rule is compiled by resolving it. -/
theorem result_of_compile {act : Resolve Formula} {w w' : Workshop} {g : Guard}
    (h : w.compile act = (.ok g, w')) :
    Action.result act w.registry = (.ok g.formula, w'.registry) := by
  unfold Workshop.compile Workshop.resolving at h
  unfold Action.result
  generalize act.run.run w.registry = p at h
  obtain ⟨_ | f, r⟩ := p <;> cases h
  rfl

end Progression.Rule
