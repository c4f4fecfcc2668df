import Progression.Proofs.Grouping
import Progression.Proofs.Recompiling

/-!
# Rules that say the same in another order

Rule text can be put in other parentheses, and its tests for items can be said in another order
or more than once.  The formula is the same, so the rule is found in the rulebook when it has
been compiled once, however much was compiled in between.  This is seen in the registry of the
later compilation, where all that the first text names is registered already, so that neither
text registers anything: there a connective resolves operand by operand, and the operands can be
rearranged as those of formulas can.

The rule of a subrule is another matter.  Its body is registered as it is written, not as what
it resolves to, so a body in other parentheses is another subrule.

## Main definitions

* `IsItemTest` — a name in the place of a condition that is that of an item.
* `Rearranged` — terms that differ in parentheses and tests for items only, outside the bodies of
  subrules.
* `formulaIn`, `Settled` — what a term resolves to where all that it names is registered.
* `Workshop.Within` — what compiling rules can add to a workshop.

## Main results

* `Rearranged.alike` — rearranged terms resolve to the same formula.
* `compile_rearranged` — **rearranged text gets the rule that the first text got.**
* `compile_subrules_apart` — the rearranged body of a subrule gets a rule of its own.
-/

namespace Progression.Rule

open Multiworld

/-! ### Rearranged terms -/

/-- A bare name is looked up among the items, and is not the name of a constant alone. -/
structure Lexicon.NamesItem (lx : Lexicon) (c : Catalog) (word : String) : Prop where
  day : DayTest.ofName? word = none
  runtime : isRuntimeName word = false
  builtin : ∀ expand, builtin? lx expand word [] (.name word) = none
  template : lx.templates.get? word = none
  constant : (lx.constant? word).isSome → (c.lookup word).isSome

/-- A called name is that of a template. -/
structure Lexicon.NamesTemplate (lx : Lexicon) (func : String) (t : Template) : Prop where
  day : DayTest.ofName? func = none
  subrule : func ≠ "at" ∧ func ≠ "here"
  builtin : ∀ expand args term, builtin? lx expand func args term = none
  found : lx.templates.get? func = some t

/-- A quoted or bare name that tests for an item. -/
inductive IsItemTest (lx : Lexicon) (c : Catalog) : Term → Prop where
  | str (s : String) : IsItemTest lx c (.str s)
  | name {word : String} (h : lx.NamesItem c word) : IsItemTest lx c (.name word)

/-- Terms that differ in the parentheses of connectives and in the order and repetition of tests
for items only, also inside templates once these are expanded.  The arguments of other calls, and
so the bodies of subrules, are the same. -/
inductive Rearranged (lx : Lexicon) (c : Catalog) : Term → Term → Prop where
  | refl (t : Term) : Rearranged lx c t t
  | symm {s t : Term} (h : Rearranged lx c s t) : Rearranged lx c t s
  | trans {s t u : Term} (h : Rearranged lx c s t) (h' : Rearranged lx c t u) :
    Rearranged lx c s u
  /-- The parentheses around some operands are left out. -/
  | parentheses (op : Connective) (xs ys zs : List Term) :
    Rearranged lx c (.group op (xs ++ [.group op ys] ++ zs)) (.group op (xs ++ ys ++ zs))
  /-- A test for an item changes places with what comes next. -/
  | order (op : Connective) (xs zs : List Term) {s : Term} (t : Term) (h : IsItemTest lx c s) :
    Rearranged lx c (.group op (xs ++ [s, t] ++ zs)) (.group op (xs ++ [t, s] ++ zs))
  /-- A test for an item is said twice. -/
  | repetition (op : Connective) (xs zs : List Term) {s : Term} (h : IsItemTest lx c s) :
    Rearranged lx c (.group op (xs ++ [s, s] ++ zs)) (.group op (xs ++ [s] ++ zs))
  /-- A test for an item that nothing else is said with needs no connective. -/
  | alone (op : Connective) {s : Term} (h : IsItemTest lx c s) :
    Rearranged lx c (.group op [s]) s
  | operand (op : Connective) (xs zs : List Term) {s t : Term} (h : Rearranged lx c s t) :
    Rearranged lx c (.group op (xs ++ [s] ++ zs)) (.group op (xs ++ [t] ++ zs))
  | not {s t : Term} (h : Rearranged lx c s t) : Rearranged lx c (.not s) (.not t)
  | call {func : String} {t : Template} {args args' : List Term} (ht : lx.NamesTemplate func t)
    (hargs : args'.length = args.length)
    (h : Rearranged lx c (t.instantiate args) (t.instantiate args')) :
    Rearranged lx c (.call func args) (.call func args')

/-! ### Terms whose names are all registered -/

/-- How calls of templates expand within a number of nested expansions. -/
def expandAt (lx : Lexicon) (depth : Nat) : Expansion := fun t args call => do
  checkArity lx t.name args t.params.length call
  match depth with
  | 0 => throw (.recursionLimit lx.spot expansionLimit call)
  | depth + 1 => conditionAt lx depth (t.instantiate args)

theorem conditionAt_eq (lx : Lexicon) (depth : Nat) (term : Term) :
    conditionAt lx depth term = condition lx (expandAt lx depth) term := by
  unfold conditionAt
  rfl

/-- The formula that a term resolves to in a registry. -/
def formulaIn (lx : Lexicon) (R : Registry) (depth : Nat) (term : Term) : Formula :=
  (Action.result (conditionAt lx depth term) R).1.toOption.getD default

/-- A term resolves in a registry without registering anything. -/
def Settled (lx : Lexicon) (R : Registry) (depth : Nat) (term : Term) : Prop :=
  Action.result (conditionAt lx depth term) R = (.ok (formulaIn lx R depth term), R)

section Settling

variable {lx : Lexicon} {R : Registry} {depth : Nat} {c : Catalog}

theorem settled_iff {term : Term} {f : Formula} :
    Action.result (conditionAt lx depth term) R = (.ok f, R) ↔
      Settled lx R depth term ∧ formulaIn lx R depth term = f := by
  constructor
  · intro h
    have hformula : formulaIn lx R depth term = f := by
      rw [formulaIn, h]
      rfl
    exact ⟨by rw [Settled, hformula, h], hformula⟩
  · rintro ⟨h, rfl⟩
    exact h

/-- What can be repeated in a registry and does not lead out of it leaves it alone. -/
theorem Rereads.eq_of_within {α : Type} {p : Prop} {act : Resolve α} (hact : Repeats R R p act)
    {a : α} {r : Registry} (h : Action.result act R = (.ok a, r)) (hr : r.Within R) : r = R := by
  obtain ⟨a', ha', -⟩ := hact.again R a r (.refl R) h hr
  rw [h] at ha'
  exact (Prod.mk.inj ha').2

/-- A sequence of actions leaves a registry alone just when each of them does. -/
theorem Rereads.result_bind_iff {α β : Type} {p : Prop} {act : Resolve α} {k : α → Resolve β}
    (hact : Repeats R R p act) (hk : ∀ a, Repeats R R p (k a)) {b : β} :
    Action.result (act >>= k) R = (.ok b, R) ↔
      ∃ a, Action.result act R = (.ok a, R) ∧ Action.result (k a) R = (.ok b, R) := by
  rw [Action.result_bind_eq_ok_iff]
  constructor
  · rintro ⟨a, r, ha, hb⟩
    obtain rfl := eq_of_within hact ha ((hk a).within r b R hb)
    exact ⟨a, ha, hb⟩
  · rintro ⟨a, ha, hb⟩
    exact ⟨a, R, ha, hb⟩

/-- The result of an action is put into a value. -/
theorem Rereads.result_map_iff {α β : Type} {p : Prop} {act : Resolve α}
    (hact : Repeats R R p act) {f : α → β} {b : β} :
    Action.result (do return f (← act)) R = (.ok b, R) ↔
      ∃ a, Action.result act R = (.ok a, R) ∧ f a = b := by
  rw [hact.result_bind_iff fun a => .same (f a)]
  refine exists_congr fun a => and_congr_right fun _ => ?_
  rw [Action.result_pure, Prod.mk.injEq, Except.ok.injEq, and_iff_left rfl]

/-! ### Operands -/

theorem repeats_at (term : Term) :
    Repeats R R (lx.profile.Unshadowed R.catalog R.catalog)
      (condition lx (expandAt lx depth) term) := by
  rw [← conditionAt_eq]
  exact repeats_conditionAt depth term

theorem repeats_operands (lx : Lexicon) (R : Registry) (depth : Nat) (ts : List Term) :
    Repeats R R (lx.profile.Unshadowed R.catalog R.catalog)
      (conditions lx (expandAt lx depth) ts) :=
  repeats_conditions fun t _ => repeats_at t

/-- The operands of a connective resolve one by one. -/
theorem result_conditions_iff {ts : List Term} {fs : List Formula} :
    Action.result (conditions lx (expandAt lx depth) ts) R = (.ok fs, R) ↔
      (∀ t ∈ ts, Settled lx R depth t) ∧ ts.map (formulaIn lx R depth) = fs := by
  induction ts generalizing fs with
  | nil =>
    rw [conditions, Action.result_pure, Prod.mk.injEq, Except.ok.injEq, and_iff_left rfl]
    simp
  | cons t ts ih =>
    have hts := repeats_operands lx R depth ts
    rw [conditions, (repeats_at t).result_bind_iff fun f => hts.map _, List.forall_mem_cons,
      List.map_cons]
    constructor
    · rintro ⟨f, hf, hrest⟩
      obtain ⟨fs', hfs', rfl⟩ := hts.result_map_iff.1 hrest
      rw [← conditionAt_eq, settled_iff] at hf
      obtain ⟨hsettled, rfl⟩ := ih.1 hfs'
      exact ⟨⟨hf.1, hsettled⟩, congrArg (· :: _) hf.2⟩
    · rintro ⟨⟨ht, hsettled⟩, rfl⟩
      refine ⟨_, by rw [← conditionAt_eq]; exact ht, hts.result_map_iff.2 ⟨_, ?_, rfl⟩⟩
      exact ih.2 ⟨hsettled, rfl⟩

theorem result_group_iff {op : Connective} {ts : List Term} {f : Formula} :
    Action.result (conditionAt lx depth (.group op ts)) R = (.ok f, R) ↔
      (∀ t ∈ ts, Settled lx R depth t) ∧ Formula.group op (ts.map (formulaIn lx R depth)) = f := by
  rw [conditionAt_eq, condition, (repeats_operands lx R depth ts).result_map_iff]
  simp only [result_conditions_iff]
  constructor
  · rintro ⟨_, ⟨hsettled, rfl⟩, hf⟩
    exact ⟨hsettled, hf⟩
  · rintro ⟨hsettled, hf⟩
    exact ⟨_, ⟨hsettled, rfl⟩, hf⟩

theorem settled_group {op : Connective} {ts : List Term} :
    Settled lx R depth (.group op ts) ↔ ∀ t ∈ ts, Settled lx R depth t :=
  ⟨fun h => (result_group_iff.1 h).1, fun h => (settled_iff.1 (result_group_iff.2 ⟨h, rfl⟩)).1⟩

theorem formulaIn_group {op : Connective} {ts : List Term}
    (h : ∀ t ∈ ts, Settled lx R depth t) :
    formulaIn lx R depth (.group op ts) = .group op (ts.map (formulaIn lx R depth)) :=
  (settled_iff.1 (result_group_iff.2 ⟨h, rfl⟩)).2

theorem result_not_iff {t : Term} {f : Formula} :
    Action.result (conditionAt lx depth (.not t)) R = (.ok f, R) ↔
      Settled lx R depth t ∧ (formulaIn lx R depth t).negate = f := by
  rw [conditionAt_eq, condition, (repeats_at t).result_map_iff]
  simp only [← conditionAt_eq, settled_iff]
  constructor
  · rintro ⟨_, ⟨ht, rfl⟩, hf⟩
    exact ⟨ht, hf⟩
  · rintro ⟨ht, hf⟩
    exact ⟨_, ⟨ht, rfl⟩, hf⟩

/-- A call of a template resolves as its body does with the arguments in it. -/
theorem result_call_iff {func : String} {t : Template} (ht : lx.NamesTemplate func t)
    {args : List Term} {f : Formula} :
    Action.result (conditionAt lx depth (.call func args)) R = (.ok f, R) ↔
      args.length = t.params.length ∧ ∃ d, depth = d + 1 ∧
        Action.result (conditionAt lx d (t.instantiate args)) R = (.ok f, R) := by
  have hcall : conditionAt lx depth (.call func args) =
      expandAt lx depth t args (.call func args) := by
    rw [conditionAt_eq, condition]
    unfold callCondition
    simp only [ht.day, if_neg ht.subrule.1, if_neg ht.subrule.2, ht.builtin, templateCall,
      ht.found]
  rw [hcall]
  unfold expandAt
  rw [Action.result_bind]
  by_cases harity : args.length = t.params.length
  · rw [checkArity, if_pos harity, Action.result_pure]
    dsimp only
    cases depth with
    | zero => simp
    | succ d => simp [harity]
  · rw [checkArity, if_neg harity, Action.result_throw]
    simp [harity]

/-- A test for an item resolves to one. -/
theorem exists_item {s : Term} (h : IsItemTest lx c s) (hc : c.Extends R.catalog) {f : Formula}
    (hf : Action.result (conditionAt lx depth s) R = (.ok f, R)) : ∃ id, f = .item id := by
  rw [conditionAt_eq] at hf
  cases h with
  | str s =>
    rw [condition] at hf
    obtain ⟨id, _, -, hid⟩ := Action.result_bind_eq_ok_iff.1 hf
    exact ⟨id, (Except.ok.inj (Prod.mk.inj hid).1).symm⟩
  | @name word h =>
    rw [condition, nameCondition] at hf
    simp only [h.day, h.runtime, h.builtin, h.template, Bool.false_eq_true, if_false] at hf
    rw [Action.result_bind, Action.result_get] at hf
    dsimp only at hf
    split at hf
    · next id _ => exact ⟨id, (Except.ok.inj (Prod.mk.inj hf).1).symm⟩
    · next hnone =>
      split at hf
      · next v hv =>
        -- the name of a constant is also that of an item
        obtain ⟨id, hid⟩ := Option.isSome_iff_exists.1 (h.constant (Option.isSome_of_eq_some hv))
        rw [hc word id hid] at hnone
        cases hnone
      · obtain ⟨id, _, -, hid⟩ := Action.result_bind_eq_ok_iff.1 hf
        exact ⟨id, (Except.ok.inj (Prod.mk.inj hid).1).symm⟩

end Settling

/-! ### Rearranging -/

/-- Two terms resolve to the same formula in a registry where they register nothing. -/
def Alike (lx : Lexicon) (R : Registry) (depth : Nat) (s t : Term) : Prop :=
  ∀ f, Action.result (conditionAt lx depth s) R = (.ok f, R) ↔
    Action.result (conditionAt lx depth t) R = (.ok f, R)

namespace Alike

variable {lx : Lexicon} {R : Registry} {depth : Nat} {s t : Term}

theorem settled (h : Alike lx R depth s t) : Settled lx R depth s ↔ Settled lx R depth t :=
  ⟨fun hs => (settled_iff.1 ((h _).1 hs)).1, fun ht => (settled_iff.1 ((h _).2 ht)).1⟩

theorem formula_eq (h : Alike lx R depth s t) (hs : Settled lx R depth s) :
    formulaIn lx R depth t = formulaIn lx R depth s :=
  (settled_iff.1 ((h _).1 hs)).2

/-- Connectives are alike if their operands resolve together and make the same formula. -/
theorem group {op : Connective} {ts ts' : List Term}
    (hsettled : (∀ t ∈ ts, Settled lx R depth t) ↔ ∀ t ∈ ts', Settled lx R depth t)
    (hgroup : (∀ t ∈ ts, Settled lx R depth t) →
      Formula.group op (ts.map (formulaIn lx R depth)) =
        Formula.group op (ts'.map (formulaIn lx R depth))) :
    Alike lx R depth (.group op ts) (.group op ts') := by
  intro f
  rw [result_group_iff, result_group_iff, ← hsettled]
  exact and_congr_right fun h => by rw [hgroup h]

end Alike

/-- **Rearranged terms resolve to the same formula.** -/
theorem Rearranged.alike {lx : Lexicon} {c : Catalog} {R : Registry} {s t : Term}
    (h : Rearranged lx c s t) (hc : c.Extends R.catalog) : ∀ depth, Alike lx R depth s t := by
  have item : ∀ {depth s}, IsItemTest lx c s → Settled lx R depth s →
      ∃ id, formulaIn lx R depth s = .item id := fun h hs => exists_item h hc hs
  induction h with
  | refl t => exact fun depth f => Iff.rfl
  | symm _ ih => exact fun depth f => (ih depth f).symm
  | trans _ _ ih ih' => exact fun depth f => (ih depth f).trans (ih' depth f)
  | parentheses op xs ys zs =>
    intro depth
    refine .group ?_ fun hsettled => ?_
    · simp only [List.forall_mem_append, List.forall_mem_singleton, settled_group]
    · have hys : ∀ t ∈ ys, Settled lx R depth t :=
        settled_group.1 (hsettled (.group op ys) (by simp))
      simp only [List.map_append, List.map_cons, List.map_nil, formulaIn_group hys]
      exact Formula.group_parenthesized ..
  | @order op xs zs s t hs =>
    intro depth
    have hperm : (xs ++ [s, t] ++ zs).Perm (xs ++ [t, s] ++ zs) :=
      ((List.Perm.swap t s []).append_left xs).append_right zs
    refine .group (forall_congr' fun u => by rw [hperm.mem_iff]) fun hsettled => ?_
    obtain ⟨id, hid⟩ := item hs (hsettled s (by simp))
    have hitem : (formulaIn lx R depth s).isItem = true := by rw [hid]; rfl
    refine Formula.group_congr_items op ?_ fun id' => (hperm.map _).mem_iff
    simp [List.filter_cons, hitem]
  | @repetition op xs zs s hs =>
    intro depth
    refine .group (forall_congr' fun u => by simp) fun hsettled => ?_
    obtain ⟨id, hid⟩ := item hs (hsettled s (by simp))
    have hitem : (formulaIn lx R depth s).isItem = true := by rw [hid]; rfl
    refine Formula.group_congr_items op ?_ fun id' => by simp
    simp [hitem]
  | @alone op s hs =>
    intro depth f
    rw [result_group_iff, settled_iff, List.forall_mem_singleton]
    refine and_congr_right fun hsettled => ?_
    obtain ⟨id, hid⟩ := item hs hsettled
    have hgroup : Formula.group op [.item id] = .item id := by cases op <;> rfl
    rw [List.map_singleton, hid, hgroup]
  | operand op xs zs _ ih =>
    intro depth
    refine .group ?_ fun hsettled => ?_
    · simp only [List.forall_mem_append, List.forall_mem_singleton, (ih depth).settled]
    · simp only [List.map_append, List.map_cons, List.map_nil,
        (ih depth).formula_eq (hsettled _ (by simp))]
  | not _ ih =>
    intro depth f
    rw [result_not_iff, result_not_iff, ← (ih depth).settled]
    exact and_congr_right fun hs => by rw [(ih depth).formula_eq hs]
  | call ht hargs _ ih =>
    intro depth f
    rw [result_call_iff ht, result_call_iff ht, hargs]
    exact and_congr_right fun _ => exists_congr fun d => and_congr_right fun _ => ih d f

/-! ### Texts -/

theorem scanFrom_of_blank {cs : List Char} (h : Text.isBlankText (cs.takeWhile (· != '#')) = true)
    (offset : Nat) : scanFrom offset cs = .ok [] := by
  induction cs generalizing offset with
  | nil => rw [scanFrom]
  | cons c cs ih =>
    rw [scanFrom]
    by_cases hc : c = '#'
    · rw [hc, if_neg (by decide), if_pos rfl]
    · rw [List.takeWhile_cons_of_pos (by simpa using hc), Text.isBlankText, List.all_cons,
        Bool.and_eq_true] at h
      rw [if_pos h.1]
      exact ih h.2 _

/-- Text that is read as a term says something. -/
theorem isBlankRule_of_parse {text : String} {t : Term} (h : parse text = .ok t) :
    isBlankRule text = false := by
  refine Bool.eq_false_iff.2 fun hblank => ?_
  rw [parse, scan, scanFrom_of_blank hblank] at h
  -- no lexemes are no term
  cases hterm : readTerm [] with
  | ok p => exact absurd p.fewer (Nat.not_lt_zero _)
  | error e =>
    have hnone : parseLexemes [] = .error e := by
      rw [parseLexemes, hterm]
      rfl
    change Except.mapError _ (parseLexemes []) = _ at h
    rw [hnone] at h
    cases h

theorem resolveText_of_parse {lx : Lexicon} {text : String} {t : Term}
    (h : parse text = .ok t) : resolveText lx text = resolve lx t := by
  rw [resolveText, isBlankRule_of_parse h, h]
  rfl

namespace Workshop

/-- What compiling rules can add to a workshop. -/
structure Within (w w' : Workshop) : Prop where
  registry : w.registry.Within w'.registry
  number : w'.book.number = w.book.number
  formulas : ∀ f ∈ w.book.formulas, f ∈ w'.book.formulas

namespace Within

theorem refl (w : Workshop) : w.Within w := ⟨.refl _, rfl, fun _ h => h⟩

theorem trans {w w' w'' : Workshop} (h : w.Within w') (h' : w'.Within w'') : w.Within w'' :=
  ⟨h.registry.trans h'.registry, h'.number.trans h.number,
    fun f hf => h'.formulas f (h.formulas f hf)⟩

/-- Compiling rules only adds to a workshop, whether or not it succeeds. -/
theorem compile (w : Workshop) (lx : Lexicon) (text : String) :
    w.Within (w.compile (resolveText lx text)).2 := by
  have hregistry : ∀ {e r}, Action.result (resolveText lx text) w.registry = (e, r) →
      w.registry.Within r :=
    .of_keeps (keeps_resolveText (p := fun _ => true) (Registry.Within.stable w.registry) rfl rfl
      text)
  cases h : Action.result (resolveText lx text) w.registry with
  | mk result r =>
    cases result with
    | error e =>
      rw [compile_of_error h]
      exact ⟨hregistry h, rfl, fun _ hf => hf⟩
    | ok f =>
      rw [compile_of_ok h]
      exact ⟨hregistry h, number_issue _ _, fun _ hf => mem_issue.2 (.inr hf)⟩

end Within

end Workshop

/-- **Operands can be put in parentheses and tests for items be said in another order and more
than once, and rearranged text gets the rule that the first text got**, however much was compiled
in between, as long as that has made no item of the name of a constant.  Nothing is added for the
second text. -/
theorem compile_rearranged :
    (∀ op xs ys zs,
        Formula.group op (xs ++ [.group op ys] ++ zs) = .group op (xs ++ ys ++ zs)) ∧
      (∀ op xs ys, xs.filter (!·.isItem) = ys.filter (!·.isItem) →
        (∀ id, .item id ∈ xs ↔ .item id ∈ ys) → Formula.group op xs = .group op ys) ∧
      ∀ lx (w : Workshop) a b s t, parse a = .ok s → parse b = .ok t →
        Rearranged lx w.registry.catalog s t →
        ∀ g w₁ w₂, w.compile (resolveText lx a) = (.ok g, w₁) → w₁.Within w₂ →
          lx.profile.Unshadowed w.registry.catalog w₂.registry.catalog →
            w₂.compile (resolveText lx b) = (.ok g, w₂) := by
  refine ⟨Formula.group_parenthesized, fun op xs ys => Formula.group_congr_items op, ?_⟩
  intro lx w a b s t ha hb hst g w₁ w₂ hg hwithin hunshadowed
  have hfirst := result_of_compile hg
  have hrepeats : Repeats w.registry w₂.registry
      (lx.profile.Unshadowed w.registry.catalog w₂.registry.catalog) (resolve lx s) :=
    repeats_conditionAt expansionLimit s
  rw [resolveText_of_parse ha] at hfirst
  have hcatalog : w.registry.catalog.Extends w₂.registry.catalog :=
    ((hrepeats.within _ _ _ hfirst).trans hwithin.registry).catalog.names
  -- the first text resolves again where all its names are registered, and so does the second one
  obtain ⟨f, hf, hsame⟩ := hrepeats.again _ _ _ (.refl _) hfirst hwithin.registry
  obtain rfl := hsame hunshadowed
  have hsecond : Action.result (resolve lx t) w₂.registry = (.ok g.formula, w₂.registry) :=
    (hst.alike hcatalog expansionLimit _).1 hf
  -- its formula is in the book, under the number of the book
  rw [resolveText_of_parse ha, Workshop.compile_of_ok hfirst, Prod.mk.injEq, Except.ok.injEq] at hg
  obtain ⟨hguard, hbook⟩ := hg
  have hbook : w₁.book = (w.book.issue g.formula).2 := by rw [← hbook]
  have hmem : g.formula ∈ w₂.book.formulas :=
    hwithin.formulas _ (hbook ▸ mem_issue.2 (.inl rfl))
  have hnumber : w₂.book.number = w.book.number := by
    rw [hwithin.number, hbook, number_issue]
  rw [resolveText_of_parse hb, Workshop.compile_of_ok hsecond, issue_of_mem hmem, hnumber, hguard]

/-- The bow and the hookshot are asked for by one rule, however this is put. -/
theorem compile_rearranged_bow :
    let w : Workshop := ⟨⟨.empty, .empty⟩, .blank 0⟩
    let lx : Lexicon := ⟨.plain, .empty, none⟩
    ∃ g w₁, w.compile (resolveText lx "Bow and (Hookshot and Bow)") = (.ok g, w₁) ∧
      w₁.compile (resolveText lx "Hookshot and Bow") = (.ok g, w₁) := by
  intro w lx
  have item : ∀ word ∈ ["Bow", "Hookshot"], IsItemTest lx w.registry.catalog (.name word) := by
    intro word hword
    refine .name ⟨?_, ?_, fun expand => ?_, ?_, ?_⟩
    · revert word; decide
    · revert word; decide
    · rcases List.mem_pair.1 hword with rfl | rfl <;> rfl
    · rfl
    · revert word; decide
  have hrearranged : Rearranged lx w.registry.catalog
      (.group .and [.name "Bow", .group .and [.name "Hookshot", .name "Bow"]])
      (.group .and [.name "Hookshot", .name "Bow"]) :=
    .trans (.parentheses .and [.name "Bow"] [.name "Hookshot", .name "Bow"] []) <|
    .trans (.order .and [] [.name "Bow"] (.name "Hookshot") (item "Bow" (by simp))) <|
    .repetition .and [.name "Hookshot"] [] (item "Bow" (by simp))
  have hok : (w.compile (resolveText lx "Bow and (Hookshot and Bow)")).1 =
      .ok ⟨.all [⟨0⟩, ⟨1⟩], some 0⟩ := by decide +kernel
  refine ⟨_, _, Prod.ext hok rfl, ?_⟩
  exact compile_rearranged.2.2 lx w "Bow and (Hookshot and Bow)" "Hookshot and Bow" _ _
    (by decide +kernel) (by decide +kernel) hrearranged _ _ _ (Prod.ext hok rfl) (.refl _)
    fun word hword => (by cases hword)

/-- The body of a subrule is registered as it is written: in other parentheses it is another
subrule, and asked for by another rule. -/
theorem compile_subrules_apart :
    let lx : Lexicon := ⟨.plain, .empty, none⟩
    let first := Workshop.compile ⟨⟨.empty, .empty⟩, .blank 0⟩
      (resolveText lx "at('Cave', Bow and (Hookshot and Boomerang))")
    let second := first.2.compile (resolveText lx "at('Cave', Bow and Hookshot and Boomerang)")
    parse "at('Cave', Bow and (Hookshot and Boomerang))" = .ok (.call "at" [.str "Cave",
        .group .and [.name "Bow", .group .and [.name "Hookshot", .name "Boomerang"]]]) ∧
      parse "at('Cave', Bow and Hookshot and Boomerang)" = .ok (.call "at" [.str "Cave",
        .group .and [.name "Bow", .name "Hookshot", .name "Boomerang"]]) ∧
      first.1 = .ok ⟨.item ⟨0⟩, some 0⟩ ∧ second.1 = .ok ⟨.item ⟨1⟩, some 0⟩ := by
  decide +kernel

end Progression.Rule
