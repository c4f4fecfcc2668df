import Progression.Proofs.Reading
import Progression.Proofs.Resolving

/-!
# Formulas say what rules say

Resolving a rule simplifies as it goes: it flattens and merges connectives, folds
constants, settles comparisons of literals and expands templates into formulas.  A rule
that it accepts has a reading nevertheless, which leaves the same registry, and the
formula is true wherever the rule reads true.

The proof goes along the text of resolving: each of its steps is shown to be *tracked* by
the step of the reading, that is, wherever the step gives a formula, the reading gives the
truth of that formula.

## Main results

* `means_condition` — resolving a term is tracked by its reading.
* `reading_of_compile` — **the rule that a term is compiled to is true just when the
  term reads true**.
-/

namespace Progression.Rule

/-! ### Items -/

section Items

variable {lx : Lexicon}

theorem itemOrEvent_eq (name : String) : itemOrEvent name = Reading.quotedItem name := by
  unfold itemOrEvent Reading.quotedItem
  congr 1
  funext r
  cases r.catalog.lookup name <;> rfl

theorem itemNamed_eq (word : String) (term : Term) :
    itemNamed lx word term = Reading.item lx word term := by
  unfold itemNamed Reading.item
  congr 1
  funext r
  cases r.catalog.lookup word with
  | some id => rfl
  | none => cases isEventName word <;> rfl

theorem itemArgument_eq (func : String) (arg term : Term) :
    itemArgument lx func arg term = Reading.itemArgument lx func arg term := by
  unfold itemArgument Reading.itemArgument
  cases arg with
  | name word => exact itemNamed_eq word term
  | str s => exact itemOrEvent_eq s
  | _ => rfl

end Items

/-! ### Formulas and their truth -/

section Truth

variable {answers : Query → Bool} {cx : Situation}

theorem has_eq_reaches (inv : Inventory) (id : ItemId) {n : Int} (h : 0 ≤ n) :
    inv.has id (Count.clamp n) = Reading.reaches n (inv.count id) := by
  rw [Inventory.has, Reading.reaches, decide_eq_decide, UInt32.le_iff_toNat_le,
    Count.toNat_clamp]
  omega

theorem any_le_eq_totalReaches (total : Option Count) {n : Int} (h : 0 < n) :
    total.any (Count.clamp n ≤ ·) = Reading.totalReaches n total := by
  have hreaches : (fun count => decide (Count.clamp n ≤ count)) = Reading.reaches n := by
    funext count
    rw [Reading.reaches, decide_eq_decide, UInt32.le_iff_toNat_le, Count.toNat_clamp]
    omega
  rw [Reading.totalReaches, decide_eq_false (Int.not_le.2 h), Bool.false_or, hreaches]

theorem reaches_of_nonpos (count : Count) {n : Int} (h : n ≤ 0) :
    Reading.reaches n count = true := by
  rw [Reading.reaches, decide_eq_true_iff]
  omega

theorem holdsGiven_has (id : ItemId) (n : Int) :
    (Formula.has id n).holdsGiven answers cx = Reading.reaches n (cx.inventory.count id) := by
  unfold Formula.has
  split
  · next h => exact (reaches_of_nonpos _ h).symm
  · split
    · next h =>
      subst h
      exact has_eq_reaches cx.inventory id (n := 1) (by decide)
    · exact has_eq_reaches cx.inventory id (by omega)

theorem holdsGiven_items (op : Connective) (ids : List ItemId) :
    (Formula.group op (ids.map .item)).holdsGiven answers cx =
      op.among (ids.map fun id => cx.inventory.has id 1) := by
  rw [Formula.holdsGiven_group, List.map_map]
  rfl

theorem holdsGiven_songButtons (lx : Lexicon) (catalog : Catalog) (song : String) :
    (songButtons lx catalog song).holdsGiven answers cx = Reading.canPlay lx cx catalog song := by
  unfold songButtons Reading.canPlay
  split
  · exact any_le_eq_totalReaches _ (n := 2) (by decide)
  · cases lx.profile.songs.find? song with
    | none => rfl
    | some notes => exact Formula.holdsGiven_hasAll _

end Truth

/-! ### Tests -/

/-- The resolution `act` is tracked by the reading `act'`: wherever it gives a formula,
the reading gives its truth. -/
abbrev Means (answers : Query → Bool) (cx : Situation) (act : Resolve Formula)
    (act' : Resolve Bool) : Prop :=
  Tracks (fun f => f.holdsGiven answers cx) act act'

section Tests

variable {lx : Lexicon} {answers : Query → Bool} {cx : Situation}

theorem means_countTest (id : ItemId) (count term : Term) :
    Means answers cx (countTest lx id count term) (Reading.countTest lx cx id count term) := by
  unfold countTest Reading.countTest
  cases count with
  | int n => exact .pure (holdsGiven_has ..)
  | name word =>
    dsimp only
    cases (lx.constant? word).bind Value.int? with
    | some n => exact .pure (holdsGiven_has ..)
    | none => exact .throw _ _
  | _ => exact .throw _ _

theorem means_countCondition (items : List Term) (term : Term) :
    Means answers cx (countCondition lx items term) (Reading.countPair lx cx items term) := by
  unfold countCondition Reading.countPair
  split
  · next item count =>
    cases item with
    | name word => exact .bind_same (itemNamed_eq word term) fun id => means_countTest ..
    | str s => exact .bind_same (itemOrEvent_eq s) fun id => means_countTest ..
    | _ => exact .bind_same rfl fun id => means_countTest ..
  · exact .throw _ _

theorem operand_name {word : String} (h : word ≠ "age") (term : Term) :
    operand lx (.name word) term = (match lx.constant? word with
      | some v => return .literal v
      | none => do
        let r ← get
        match (r.catalog.lookup word).bind r.catalog.get? with
        | some e => return .literal (.str e.name)
        | none => throw (.unknownName lx.spot word term)) := by
  unfold operand
  split
  · next hw => exact absurd (Term.name.inj hw) h
  · next hw =>
    cases hw
    rfl
  · contradiction
  · contradiction
  · next hw _ _ => exact absurd rfl (hw word)

theorem tracks_operandName (word : String) (term : Term) :
    Tracks (Operand.value cx) (operand lx (.name word) term)
      (Reading.operand lx cx (.name word) term) := by
  refine ⟨fun s a t ha => ?_⟩
  rw [Reading.operand, Action.result_bind, Action.result_get]
  by_cases hage : word = "age"
  · subst hage
    cases ha
    rfl
  · rw [operand_name hage, Lexicon.constant?, Profile.constant?] at ha
    dsimp only
    rw [if_neg hage, Reading.firstOf_none]
    cases hs : lx.profile.settings.get? word with
    | some v =>
      rw [hs] at ha
      cases ha
      rfl
    | none =>
      cases hv : lx.profile.attributes.get? word with
      | some v =>
        rw [hs, hv] at ha
        cases ha
        rfl
      | none =>
        rw [hs, hv, Option.none_or] at ha
        dsimp only at ha
        rw [Action.result_bind, Action.result_get] at ha
        dsimp only at ha
        cases he : (s.catalog.lookup word).bind s.catalog.get? with
        | some e =>
          rw [he] at ha
          cases ha
          rfl
        | none =>
          rw [he] at ha
          cases ha

theorem tracks_operand (side term : Term) :
    Tracks (Operand.value cx) (operand lx side term) (Reading.operand lx cx side term) := by
  have literal : Tracks (Operand.value cx)
      (do
        match ← (lx.literal? side : Resolve (Option Value)) with
        | some v => return Operand.literal v
        | none => throw (RuleError.unsupported lx.spot .operandDue term))
      (do
        match ← (lx.literal? side : Resolve (Option Value)) with
        | some v => return Scalar.ofValue v
        | none => throw (RuleError.unsupported lx.spot .operandDue term)) := by
    refine .bind_same rfl fun v => ?_
    cases v with
    | some v => exact .pure rfl
    | none => exact .throw _ _
  cases side with
  | name word => exact tracks_operandName word term
  | call func args =>
    unfold operand Reading.operand
    split
    · contradiction
    · contradiction
    · next h =>
      cases h
      refine .bind_same rfl fun arg => ?_
      refine .bind (.of_eq (itemArgument_eq ..)) fun id => ?_
      exact .pure rfl
    · next h =>
      cases h
      refine .bind_same rfl fun _ => ?_
      exact .pure rfl
    · next hcount hhearts =>
      split
      · contradiction
      · next h => exact absurd h (hcount _)
      · next h => exact absurd h (hhearts _)
      · exact literal
  | _ => exact literal

theorem foldComparison_holds {op : Comparator} {left right : Operand} {term : Term} {f : Formula}
    (h : foldComparison lx op left right term = .ok f) :
    f.holdsGiven answers cx = (op.holds? (left.value cx) (right.value cx)).getD false := by
  unfold foldComparison at h
  split at h
  · next a b =>
    split at h
    · next result hr =>
      cases h
      change result = (op.holds? (.ofValue a) (.ofValue b)).getD false
      rw [hr]
      rfl
    · cases h
  · cases h
    rfl

theorem tracks_chainConditions (term : Term) (left : Operand) (rest : List (Comparator × Term)) :
    Tracks (List.map (Formula.holdsGiven answers cx)) (chainConditions lx term left rest)
      (Reading.links lx cx term (left.value cx) rest) := by
  induction rest generalizing left with
  | nil => exact .pure rfl
  | cons link rest ih =>
    refine .bind (tracks_operand link.2 term) fun right => ⟨fun s fs u h => ?_⟩
    -- the reading compares what folding may have settled already
    rw [Action.result_bind, Action.result_lift] at h
    cases hf : foldComparison lx link.1 left right term with
    | error e =>
      rw [hf] at h
      cases h
    | ok f =>
      rw [hf] at h
      refine (Tracks.bind (ih right) fun gs => ?_).run s fs u h
      refine .pure ?_
      rw [List.map_cons, foldComparison_holds hf]

theorem means_comparison (left : Term) (rest : List (Comparator × Term)) :
    Means answers cx (comparison lx left rest) (Reading.comparison lx cx left rest) := by
  have chain : Means answers cx
      (do
        let l ← operand lx left (.compare left rest)
        return .group .and (← chainConditions lx (.compare left rest) l rest))
      (do
        let l ← Reading.operand lx cx left (.compare left rest)
        return Connective.and.among (← Reading.links lx cx (.compare left rest) l rest)) := by
    refine .bind (tracks_operand ..) fun l => ?_
    exact .bind (tracks_chainConditions ..) fun fs => .pure (Formula.holdsGiven_group ..)
  unfold Reading.comparison
  dsimp only
  split
  · exact .ite (.pure rfl) chain
  · exact .ite (.pure rfl) chain
  · next heq hne =>
    unfold comparison
    dsimp only
    split
    · exact absurd rfl (heq _ _ rfl)
    · exact absurd rfl (hne _ _ rfl)
    · exact chain

theorem means_constantCondition (term : Term) :
    Means answers cx (constantCondition lx term) (Reading.constant lx term) := by
  refine .bind_same rfl fun v => ?_
  cases v with
  | some v => exact .pure rfl
  | none => exact .throw _ _

theorem means_subruleCondition (region : String) (body : Term) :
    Means answers cx (subruleCondition region body) (Reading.subrule cx region body) :=
  .bind_same rfl fun _ => .pure rfl

/-! ### The song and the time of day -/

/-- The formula for the song asks for two items at least, so it is not constantly true. -/
theorem sunSong_ne_true :
    Keeps (fun _ => True) (fun song => song ≠ .const true) (sunSong lx) := by
  refine .bind (.trivially _) fun ocarina _ => ?_
  refine .bind (.trivially _) fun song _ => ?_
  refine .bind .get fun r _ => .pure ?_
  intro h
  -- with an empty inventory it is false
  have hfalse := congrArg (Formula.holdsGiven (fun _ => false) default) h
  rw [Formula.holdsGiven_group, List.map_cons, Formula.holdsGiven_hasAll] at hfalse
  cases hfalse

theorem means_sunSong : Means answers cx (sunSong lx) (Reading.sunSong lx cx) := by
  refine .bind_same (itemNamed_eq ..) fun ocarina => ?_
  refine .bind_same (itemNamed_eq ..) fun song => ?_
  refine .bind_same rfl fun r => .pure ?_
  rw [Formula.holdsGiven_group, List.map_cons, List.map_cons, List.map_nil,
    Formula.holdsGiven_hasAll, holdsGiven_songButtons]
  simp [Connective.among, Inventory.hasAll, Bool.and_assoc]

theorem timeOrSong_holds {times : TimeOfDay} {song : Formula} (h : song ≠ .const true) :
    (timeOrSong times song).holdsGiven answers cx =
      Reading.timed answers cx times (song.holdsGiven answers cx) := by
  unfold timeOrSong Reading.timed
  rw [if_neg h]
  split
  · next hs => rw [hs, Formula.holdsGiven_time_none, Formula.holdsGiven_const, Bool.false_or]
  · exact Formula.holdsGiven_time_some ..

theorem means_timeOrSong (times : TimeOfDay) :
    Means answers cx (do return timeOrSong times (← sunSong lx))
      (do return Reading.timed answers cx times (← Reading.sunSong lx cx)) := by
  have hsong : Means answers cx (sunSong lx) (Reading.sunSong lx cx) := means_sunSong
  refine .bind_of_keeps sunSong_ne_true hsong fun song h => ?_
  exact .pure (timeOrSong_holds h)

/-! ### Built-in tests -/

theorem means_hasCondition (args : List Term) (term : Term) :
    Means answers cx (hasCondition lx args term) (Reading.has lx cx args term) := by
  unfold hasCondition Reading.has
  split
  · refine .bind_same (itemArgument_eq ..) fun id => ?_
    exact .pure rfl
  · refine .bind_same (itemArgument_eq ..) fun id => ?_
    refine .bind_same rfl fun n => ?_
    exact .pure (holdsGiven_has id n)
  · exact .throw _ _

theorem means_itemsCondition (name : String) {test : List ItemId → Formula} {op : Connective}
    (htest : ∀ ids, (test ids).holdsGiven answers cx =
      op.among (ids.map fun id => cx.inventory.has id 1)) (args : List Term) (term : Term) :
    Means answers cx (itemsCondition lx name test args term)
      (Reading.items lx cx name op args term) := by
  have args_eq : (fun arg => itemArgument lx name arg term) =
      fun arg => Reading.itemArgument lx name arg term := by
    funext arg
    exact itemArgument_eq name arg term
  unfold itemsCondition Reading.items
  dsimp only
  rw [args_eq]
  split
  · exact .bind_same rfl fun _ => .bind_same rfl fun ids => .pure (htest ids)
  · exact .bind_same rfl fun ids => .pure (htest ids)

theorem means_plainCondition (name : String) {f : Formula} {b : Bool}
    (h : f.holdsGiven answers cx = b) (args : List Term) (term : Term) :
    Means answers cx (plainCondition lx name f args term) (Reading.plain lx name b args term) :=
  .bind_same rfl fun _ => .pure h

theorem means_tallyCondition (name : String) (tally : Tally) (args : List Term) (term : Term) :
    Means answers cx (tallyCondition lx name tally args term)
      (Reading.tally lx name (tally.value cx.inventory) args term) := by
  refine .bind_same rfl fun arg => ?_
  refine .bind_same rfl fun n => .pure ?_
  split
  · next h => rw [Reading.totalReaches, decide_eq_true h, Bool.true_or]; rfl
  · next h => exact any_le_eq_totalReaches _ (Int.not_le.1 h)

theorem means_songCondition (name : String) (args : List Term) (term : Term) :
    Means answers cx (songCondition lx name args term) (Reading.song lx cx name args term) := by
  refine .bind_same rfl fun arg => ?_
  refine .bind_same rfl fun song => ?_
  refine .bind_same rfl fun r => ?_
  exact .pure (holdsGiven_songButtons ..)

theorem means_nonzeroCondition (term : Term) :
    Means answers cx (nonzeroCondition lx term) (Reading.nonzero lx cx term) := by
  refine .bind (tracks_operand term term) fun value => ?_
  exact .pure rfl

variable {expand : Expansion} {expand' : Reading.Expansion}
  (hexpand : ∀ t args call, Means answers cx (expand t args call) (expand' t args call))
include hexpand

/-- A name has a built-in test just when that test can be read. -/
theorem means_builtin (name : String) (args : List Term) (term : Term) :
    Option.Rel (Means answers cx) (builtin? lx expand name args term)
      (Reading.builtin? lx cx expand' name args term) := by
  unfold builtin?
  -- one case for each name, in the order of the definition
  split
  · exact .some (means_hasCondition ..)
  · exact .some (means_itemsCondition _ (holdsGiven_items .or) ..)
  · exact .some (means_itemsCondition _ (holdsGiven_items .and) ..)
  · exact .some (means_plainCondition _ rfl ..)
  · exact .some (means_tallyCondition ..)
  · exact .some (means_tallyCondition ..)
  · exact .some (means_tallyCondition ..)
  · exact .some (means_tallyCondition ..)
  · exact .some (means_tallyCondition ..)
  · exact .some (means_songCondition ..)
  · exact .some (means_plainCondition _ rfl ..)
  · exact .some (means_plainCondition _ rfl ..)
  · exact .some (.bind_same rfl fun _ => .bind_same rfl fun _ => .pure rfl)
  · exact .some (means_plainCondition _ rfl ..)
  · exact .some (.bind_same rfl fun _ => .bind_same rfl fun _ => .pure rfl)
  · refine .some (.bind_same rfl fun _ => ?_)
    cases lx.templates.get? _ with
    | some t => exact hexpand t [] term
    | none => exact .throw _ _
  · exact .some (means_nonzeroCondition term)
  · exact .some (means_nonzeroCondition term)
  · -- the name of no built-in test is that of a reading either
    unfold Reading.builtin?
    split <;> first | exact .none | exact absurd rfl (by assumption)

theorem means_templateCall (func : String) (args : List Term) (term : Term) :
    Means answers cx (templateCall lx expand func args term)
      (Reading.template lx expand' func args term) := by
  unfold templateCall Reading.template
  cases lx.templates.get? func with
  | some t => exact hexpand t args term
  | none => exact .throw _ _

theorem means_dayCondition (test : DayTest) :
    Means answers cx (dayCondition lx expand test) (Reading.day lx answers cx expand' test) := by
  cases test with
  | day =>
    rw [dayCondition, Reading.day]
    exact .ite (means_timeOrSong _) (.pure rfl)
  | night =>
    rw [dayCondition, Reading.day]
    exact .ite (means_templateCall hexpand ..) (.ite (means_timeOrSong _) (.pure rfl))
  | gravekeeper =>
    rw [dayCondition, Reading.day]
    split
    · exact .pure (Formula.holdsGiven_time_none ..)
    · exact .pure rfl

/-! ### Conditions -/

omit hexpand in
/-- What is left of the list of meanings once a name has none of the first four: an item,
a constant or a new event. -/
theorem means_itemOrConstant (word : String) (s : Registry) {f : Formula} {t : Registry}
    (h : Action.result (do
      let r ← get
      match r.catalog.lookup word with
      | some id => return .item id
      | none =>
        match lx.constant? word with
        | some v => return .const v.truthy
        | none => return .item (← itemNamed lx word (.name word))) s = (.ok f, t)) :
    Action.result (Reading.firstOf
      [(s.catalog.lookup word).map fun id => pure (cx.inventory.has id 1),
        (lx.profile.settings.get? word).map fun v => pure v.truthy,
        (lx.profile.attributes.get? word).map fun v => pure v.truthy,
        if isEventName word then
          some do return cx.inventory.has (← Reading.event (Name.unescape word)) 1
        else none]
      (throw (.unknownName lx.spot word (.name word)))) s =
        (.ok (f.holdsGiven answers cx), t) := by
  rw [Action.result_bind, Action.result_get] at h
  dsimp only at h
  cases hid : s.catalog.lookup word with
  | some id =>
    rw [hid] at h
    cases h
    rfl
  | none =>
    rw [hid, Lexicon.constant?, Profile.constant?] at h
    cases hs : lx.profile.settings.get? word with
    | some v =>
      rw [hs] at h
      cases h
      rfl
    | none =>
      cases hv : lx.profile.attributes.get? word with
      | some v =>
        rw [hs, hv] at h
        cases h
        rfl
      | none =>
        rw [hs, hv, Option.none_or, itemNamed_eq] at h
        dsimp only [Reading.item] at h
        rw [Action.result_bind, Action.result_bind, Action.result_get] at h
        dsimp only at h
        rw [hid] at h
        cases he : isEventName word with
        | true =>
          rw [he] at h
          cases h
          rfl
        | false =>
          rw [he] at h
          cases h

theorem means_nameCondition (word : String) :
    Means answers cx (nameCondition lx expand word) (Reading.name lx answers cx expand' word) := by
  refine ⟨fun s f t h => ?_⟩
  unfold nameCondition at h
  rw [Reading.name, Action.result_bind, Action.result_get]
  dsimp only at h ⊢
  cases hday : DayTest.ofName? word with
  | some test =>
    rw [hday] at h
    exact (means_dayCondition hexpand test).run s f t h
  | none =>
    rw [hday] at h
    dsimp only at h
    by_cases hrun : isRuntimeName word = true
    · rw [if_pos hrun, Action.result_bind] at h
      cases h
    · rw [if_neg hrun] at h
      rw [if_neg hrun, Option.map_none, Reading.firstOf_none, Reading.firstOf_none]
      have hb : Option.Rel _ (builtin? lx expand word [] (.name word)) _ :=
        means_builtin hexpand word [] (.name word)
      generalize builtin? lx expand word [] (.name word) = b at h hb
      generalize Reading.builtin? lx cx expand' word [] (.name word) = b' at hb
      cases hb with
      | some hb => exact hb.run s f t h
      | none =>
        cases ht : lx.templates.get? word with
        | some template =>
          rw [ht] at h
          exact (hexpand template [] (.name word)).run s f t h
        | none =>
          rw [ht] at h
          exact means_itemOrConstant word s h

theorem means_callCondition (func : String) (args : List Term) :
    Means answers cx (callCondition lx expand func args)
      (Reading.call lx answers cx expand' func args) := by
  unfold callCondition Reading.call
  dsimp only
  cases DayTest.ofName? func with
  | some test => exact .bind_same rfl fun _ => means_dayCondition hexpand test
  | none =>
    refine .ite ?_ (.ite ?_ ?_)
    · split
      · split
        · exact means_subruleCondition ..
        · exact .throw _ _
      · exact .throw _ _
    · refine .bind_same rfl fun body => ?_
      cases lx.anchor with
      | some anchor => exact means_subruleCondition ..
      | none => exact .throw _ _
    · have hb : Option.Rel _ (builtin? lx expand func args (.call func args)) _ :=
        means_builtin hexpand func args (.call func args)
      generalize builtin? lx expand func args (.call func args) = b at hb
      generalize Reading.builtin? lx cx expand' func args (.call func args) = b' at hb
      cases hb with
      | some hb => exact hb
      | none => exact means_templateCall hexpand func args _

omit hexpand in
theorem tracks_conditions {terms : List Term}
    (h : ∀ t ∈ terms, Means answers cx (condition lx expand t)
      (Reading.condition lx answers cx expand' t)) :
    Tracks (List.map (Formula.holdsGiven answers cx)) (conditions lx expand terms)
      (Reading.conditions lx answers cx expand' terms) := by
  induction terms with
  | nil => exact .pure rfl
  | cons t ts ih =>
    obtain ⟨ht, hts⟩ := List.forall_mem_cons.1 h
    refine .bind ht fun f => ?_
    refine .bind (ih hts) fun fs => ?_
    exact .pure rfl

/-- Resolving a term is tracked by its reading. -/
theorem means_condition (term : Term) :
    Means answers cx (condition lx expand term) (Reading.condition lx answers cx expand' term) := by
  induction term using Term.induction with
  | bool | int => exact .pure rfl
  | str s =>
    refine .bind_same (itemOrEvent_eq s) fun id => ?_
    exact .pure rfl
  | name word => exact means_nameCondition hexpand word
  | tuple items _ => exact means_countCondition items _
  | call func args _ => exact means_callCondition hexpand func args
  | group op operands ih =>
    refine .bind (tracks_conditions ih) fun fs => ?_
    exact .pure (Formula.holdsGiven_group op fs)
  | not operand ih =>
    refine .bind ih fun f => ?_
    exact .pure (Formula.holdsGiven_negate f)
  | compare left rest _ _ => exact means_comparison left rest
  | decimal | subscript | arith | neg => exact means_constantCondition _

end Tests

/-! ### Rules -/

section Rules

variable {lx : Lexicon} {answers : Query → Bool} {cx : Situation}

theorem means_conditionAt (depth : Nat) :
    ∀ term : Term, Means answers cx (conditionAt lx depth term)
      (Reading.conditionAt lx answers cx depth term) := by
  induction depth with
  | zero =>
    intro term
    unfold conditionAt Reading.conditionAt
    refine means_condition (fun t args call => ?_) term
    exact .bind_same rfl fun _ => .throw _ _
  | succ depth ih =>
    intro term
    unfold conditionAt Reading.conditionAt
    refine means_condition (fun t args call => ?_) term
    exact .bind_same rfl fun _ => ih _

theorem means_resolve (term : Term) :
    Means answers cx (resolve lx term) (Reading.rule lx answers cx term) :=
  means_conditionAt expansionLimit term

/-- **The rule that a term is compiled to says what the term says.**  If the compilation
succeeds, the term can be read in the same registry, with the same one afterwards, and
under every oracle that gives the answers `answers`, whatever it remembers, the rule is
true just when the term reads true. -/
theorem reading_of_compile {σ : Type} {ask : Query → σ → Bool × σ}
    (hask : ∀ q s, (ask q s).1 = answers q) {w w' : Workshop} {term : Term} {g : Guard}
    (h : w.compile (resolve lx term) = (.ok g, w')) (s : σ) :
    Action.result (Reading.rule lx answers cx term) w.registry =
      (.ok (g.formula.holds ask cx s).1, w'.registry) := by
  have htruth : (g.formula.holds ask cx s).1 = g.formula.holdsGiven answers cx :=
    (Formula.holds_eq_holdsGiven (p := fun _ => true) (P := fun _ => True)
      (fun q s _ _ => ⟨hask q s, trivial⟩) g.formula s (Formula.eachTime_true _) trivial).1
  rw [htruth]
  exact (means_resolve term).run _ _ _ (result_of_compile h)

/-- A rule whose items are new: they become events, one after the other. -/
theorem reading_of_new_events :
    ∃ g w', (Workshop.compile ⟨⟨.empty, .empty⟩, .blank 0⟩
        (resolve ⟨.plain, .empty, none⟩ (.group .and [.str "Bow", .not (.name "Hookshot")]))) =
          (.ok g, w') ∧
      Action.result (Reading.rule ⟨.plain, .empty, none⟩ (fun _ => false) default
        (.group .and [.str "Bow", .not (.name "Hookshot")])) ⟨.empty, .empty⟩ =
          (.ok (g.formula.holds (fun _ s => (false, s)) default ()).1, w'.registry) := by
  have hok : (Workshop.compile ⟨⟨.empty, .empty⟩, .blank 0⟩
      (resolve ⟨.plain, .empty, none⟩
        (.group .and [.str "Bow", .not (.name "Hookshot")]))).1.isOk = true := by
    decide
  generalize hp : Workshop.compile _ _ = p at hok
  obtain ⟨_ | g, w'⟩ := p
  · cases hok
  · exact ⟨g, w', rfl, @reading_of_compile _ (fun _ => false) default Unit
      (fun _ s => (false, s)) (fun _ _ => rfl) _ _ _ _ hp ()⟩

end Rules

end Progression.Rule
