import Progression.Proofs.Naming
import Progression.Proofs.Resolving

/-!
# Resolving a rule again

Resolving a rule registers the events and subrules that the rule names.  Once they are all
registered, resolving the rule again registers nothing: an event is found as an item by its
name, and a subrule by its region and body.  The formula is the same as well, but for one
thing.  Items come before constants, so a name that stood for a constant stands for an item
from the moment on that an item of that name is registered.

## Main definitions

* `Registry.Within` — the registries that further resolutions can lead to.
* `Profile.Unshadowed` — no constant has become the name of an item.
* `Rereads r₀ R p act act'` — what `act` does on the way from `r₀` to `R`, `act'` does in `R`.
* `Repeats r₀ R p act` — the same of one action.

## Main results

* `repeats_resolveText` — **a rule that was resolved on the way to a registry resolves there
  without registering anything, and to the same formula if no item shadows a constant.**
-/

namespace Progression

open Rule

namespace Name

/-- Reading an identifier as a display name keeps what it names. -/
theorem escape_unescape (word : String) : escape (unescape word) = escape word := by
  have hchar : ∀ c : Char, joinWords (if c = '_' then ' ' else c) = joinWords c := by
    intro c
    by_cases hc : c = '_'
    · simp [joinWords, hc]
    · rw [if_neg hc]
  simp [escape, unescape, escapeChars, Function.comp_def, hchar]

end Name

/-! ### Growing catalogs and registries -/

/-- Names and items keep their entries, and no entry that plays a note is added. -/
structure Catalog.Within (c c' : Catalog) : Prop where
  names : c.Extends c'
  entries : ∀ id e, c.get? id = some e → c'.get? id = some e
  buttons : ∀ note, c'.ocarinaButton? note = c.ocarinaButton? note

namespace Catalog.Within

theorem refl (c : Catalog) : c.Within c := ⟨.refl c, fun _ _ h => h, fun _ => rfl⟩

theorem trans {a b c : Catalog} (hab : a.Within b) (hbc : b.Within c) : a.Within c where
  names := hab.names.trans hbc.names
  entries id e h := hbc.entries id e (hab.entries id e h)
  buttons note := (hbc.buttons note).trans (hab.buttons note)

theorem declareEvent (c : Catalog) (name : String) : c.Within (c.declareEvent name).2 := by
  refine ⟨extends_declareEvent c name, ?_, ?_⟩ <;> unfold Catalog.declareEvent
  · intro id e h
    split
    · exact h
    · have hlt : id.index < c.size := (Array.getElem?_eq_some_iff.1 h).1
      rwa [get?_add, if_neg (Nat.ne_of_lt hlt)]
  · intro note
    split
    · rfl
    · simp [ocarinaButton?, add, Array.find?_push, freshEntry]

end Catalog.Within

namespace Rule

/-- The second registry has grown from the first one: the catalog was only added to, and
registered subrules are found as before. -/
structure Registry.Within (r r' : Registry) : Prop where
  catalog : r.catalog.Within r'.catalog
  subrules : ∀ region body s, r.ledger.find? region body = some s →
    r'.ledger.find? region body = some s

namespace Registry.Within

theorem refl (r : Registry) : r.Within r := ⟨.refl _, fun _ _ _ h => h⟩

theorem trans {a b c : Registry} (hab : a.Within b) (hbc : b.Within c) : a.Within c where
  catalog := hab.catalog.trans hbc.catalog
  subrules region body s h := hbc.subrules region body s (hab.subrules region body s h)

theorem declareEvent (r : Registry) (name : String) : r.Within (r.declareEvent name).2 :=
  ⟨.declareEvent r.catalog name, fun _ _ _ h => h⟩

theorem registerSubrule (r : Registry) (region : String) (body : Term) :
    r.Within (r.registerSubrule region body).2 := by
  unfold Registry.registerSubrule
  split
  · exact .refl r
  · next hnew =>
    refine ⟨.declareEvent r.catalog _, fun region' body' s hs => ?_⟩
    -- the rule that is added is none of those that were found before
    rw [Ledger.find?, List.find?_cons]
    split
    · next heq =>
      rw [Bool.and_eq_true, beq_iff_eq, beq_iff_eq] at heq
      obtain ⟨hregion, hbody⟩ := heq
      dsimp only at hregion hbody
      rw [← hregion, ← hbody, hnew] at hs
      cases hs
    · exact hs

theorem stable (r : Registry) : Registry.Stable r.Within where
  declareEvent r' name h := h.trans (declareEvent r' name)
  registerSubrule r' region body h := h.trans (registerSubrule r' region body)

/-- A registry grows under an action that keeps whatever it has grown from. -/
theorem of_keeps {α : Type} {Q : α → Prop} {act : Resolve α} {r r₁ : Registry}
    {e : Except RuleError α} (hact : Keeps r.Within Q act)
    (h : Action.result act r = (e, r₁)) : r.Within r₁ := by
  have hrun := (hact.run r (.refl r)).1
  rwa [h] at hrun

end Registry.Within

/-- A registry only grows when a rule is resolved. -/
theorem within_resolve (lx : Lexicon) (term : Term) (r : Registry) :
    r.Within (Action.result (resolve lx term) r).2 :=
  .of_keeps (keeps_resolve (p := fun _ => true) (Registry.Within.stable r) rfl rfl term) rfl

/-- A registered subrule is found again. -/
theorem find_registerSubrule (r : Registry) (region : String) (body : Term) :
    ∃ s, (r.registerSubrule region body).2.ledger.find? region body = some s ∧
      s.item = (r.registerSubrule region body).1 := by
  unfold Registry.registerSubrule
  split
  · next s hs => exact ⟨s, hs, rfl⟩
  · exact ⟨_, List.find?_cons_of_pos (by simp), rfl⟩

theorem registerSubrule_of_find {r : Registry} {region : String} {body : Term} {s : Subrule}
    (h : r.ledger.find? region body = some s) : r.registerSubrule region body = (s.item, r) := by
  rw [Registry.registerSubrule, h]

end Rule

/-- No constant of a profile has become the name of an item. -/
def Profile.Unshadowed (p : Profile) (c c' : Catalog) : Prop :=
  ∀ word, (p.constant? word).isSome → c.lookup word = none → c'.lookup word = none

namespace Profile.Unshadowed

theorem refl (p : Profile) (c : Catalog) : p.Unshadowed c c := fun _ _ h => h

/-- It may be asked from later on. -/
theorem mono {p : Profile} {c c₁ c' : Catalog} (h : p.Unshadowed c c') (hc : c.Extends c₁) :
    p.Unshadowed c₁ c' := by
  intro word hword hnone
  refine h word hword (Option.eq_none_iff_forall_ne_some.2 fun id hid => ?_)
  rw [hc word id hid] at hnone
  cases hnone

end Profile.Unshadowed

namespace Rule

/-! ### Repeating an action

Each rule of the judgement says what the parts of an action have to satisfy.  The results of
the two runs may differ unless `p` holds, so the second run goes its own way, `act'`. -/

/-- Whenever `act` succeeds on the way from `r₀` to `R`, the action `act'` succeeds in `R`
and leaves `R` as it is, with the same result if `p` holds. -/
structure Rereads {α : Type} (r₀ R : Registry) (p : Prop) (act act' : Resolve α) : Prop where
  within : ∀ r a r₁, Action.result act r = (.ok a, r₁) → r.Within r₁
  again : ∀ r a r₁, r₀.Within r → Action.result act r = (.ok a, r₁) → r₁.Within R →
    ∃ a', Action.result act' R = (.ok a', R) ∧ (p → a' = a)

/-- What an action does on the way from `r₀` to `R`, it does again in `R`. -/
abbrev Repeats {α : Type} (r₀ R : Registry) (p : Prop) (act : Resolve α) : Prop :=
  Rereads r₀ R p act act

namespace Rereads

variable {α β : Type} {r₀ R : Registry} {p q : Prop}

theorem pure {a a' : α} (h : p → a' = a) :
    Rereads r₀ R p (Pure.pure a : Resolve α) (Pure.pure a') := by
  refine ⟨fun r b r₁ hr => ?_, fun r b r₁ _ hr _ => ?_⟩
  · obtain ⟨-, rfl⟩ := Prod.mk.inj hr
    exact .refl r
  · obtain ⟨hb, -⟩ := Prod.mk.inj hr
    obtain rfl := Except.ok.inj hb
    exact ⟨a', rfl, h⟩

/-- The same value is returned again. -/
theorem same (a : α) : Repeats r₀ R p (Pure.pure a : Resolve α) :=
  .pure fun _ => rfl

theorem throw (e : RuleError) (act : Resolve α) :
    Rereads r₀ R p (MonadExcept.throw e : Resolve α) act := by
  refine ⟨fun r a r₁ hr => ?_, fun r a r₁ _ hr => ?_⟩
  · cases hr
  · cases hr

theorem lift (e : Except RuleError α) : Repeats r₀ R p (liftM e : Resolve α) := by
  cases e with
  | error e => exact .throw e _
  | ok a => exact .same a

/-- The state is read for a value that further growth does not change. -/
theorem reading {f : Registry → α} (h : ∀ r, r.Within R → f R = f r) :
    Repeats r₀ R p (do return f (← get)) := by
  refine ⟨fun r a r₁ hr => ?_, fun r a r₁ _ hr hR => ?_⟩
  · obtain ⟨-, rfl⟩ := Prod.mk.inj hr
    exact .refl r
  · obtain ⟨ha, rfl⟩ := Prod.mk.inj hr
    obtain rfl := Except.ok.inj ha
    exact ⟨f R, rfl, fun _ => h r hR⟩

theorem bind {act act' : Resolve α} {k k' : α → Resolve β} (hact : Rereads r₀ R q act act')
    (hk : ∀ a a', (q → a' = a) → Rereads r₀ R p (k a) (k' a')) :
    Rereads r₀ R p (act >>= k) (act' >>= k') := by
  have grow : ∀ a r b r₁, Action.result (k a) r = (.ok b, r₁) → r.Within r₁ :=
    fun a => (hk a a fun _ => rfl).within
  refine ⟨fun r b r₂ h => ?_, fun r b r₂ hr h hR => ?_⟩
  · obtain ⟨a, r₁, ha, hb⟩ := Action.result_bind_eq_ok_iff.1 h
    exact (hact.within r a r₁ ha).trans (grow a r₁ b r₂ hb)
  · obtain ⟨a, r₁, ha, hb⟩ := Action.result_bind_eq_ok_iff.1 h
    have hr₁ := hr.trans (hact.within r a r₁ ha)
    obtain ⟨a', ha', heq⟩ := hact.again r a r₁ hr ha ((grow a r₁ b r₂ hb).trans hR)
    obtain ⟨b', hb', heq'⟩ := (hk a a' heq).again r₁ b r₂ hr₁ hb hR
    exact ⟨b', Action.result_bind_eq_ok_iff.2 ⟨a', R, ha', hb'⟩, heq'⟩

/-- Both runs go on with the same value. -/
theorem bind_same {act act' : Resolve α} {k k' : α → Resolve β}
    (hact : Rereads r₀ R True act act') (hk : ∀ a, Rereads r₀ R p (k a) (k' a)) :
    Rereads r₀ R p (act >>= k) (act' >>= k') := by
  refine hact.bind fun a a' h => ?_
  rw [h trivial]
  exact hk a

/-- The result is put into a value. -/
theorem map {act act' : Resolve α} (hact : Rereads r₀ R p act act') (f : α → β) :
    Rereads r₀ R p (do return f (← act)) (do return f (← act')) :=
  hact.bind fun _ _ h => .pure fun hp => congrArg f (h hp)

theorem mapM {γ : Type} {f : γ → Resolve α} (xs : List γ)
    (h : ∀ x ∈ xs, Repeats r₀ R True (f x)) : Repeats r₀ R True (xs.mapM f) := by
  induction xs with
  | nil =>
    rw [List.mapM_nil]
    exact .same []
  | cons x xs ih =>
    obtain ⟨hx, hxs⟩ := List.forall_mem_cons.1 h
    rw [List.mapM_cons]
    refine hx.bind_same fun a => ?_
    exact (ih hxs).bind_same fun as => .same _

/-- What is looked up before it is registered is found in the end. -/
theorem of_lookup {act : Resolve ItemId} (word : String)
    (hwithin : ∀ r id r₁, Action.result act r = (.ok id, r₁) → r.Within r₁)
    (hnamed : ∀ r id r₁, Action.result act r = (.ok id, r₁) →
      r₁.catalog.lookup word = some id)
    (hfound : ∀ r id, r.catalog.lookup word = some id → Action.result act r = (.ok id, r)) :
    Repeats r₀ R p act := by
  refine ⟨hwithin, fun r id r₁ _ h hR => ⟨id, ?_, fun _ => rfl⟩⟩
  exact hfound R id (hR.catalog.names word id (hnamed r id r₁ h))

end Rereads

section Rereading

variable {r₀ R : Registry} {lx : Lexicon} {p : Prop}

/-! ### Items and arguments -/

theorem result_itemOrEvent (name : String) (r : Registry) :
    Action.result (itemOrEvent name) r =
      match r.catalog.lookup name with
      | some id => (.ok id, r)
      | none => (.ok (r.declareEvent name).1, (r.declareEvent name).2) := by
  rw [itemOrEvent, Action.result_bind, Action.result_get]
  dsimp only
  cases r.catalog.lookup name <;> rfl

theorem repeats_itemOrEvent (name : String) : Repeats r₀ R p (itemOrEvent name) := by
  refine .of_lookup name (fun r id r₁ h => ?_) (fun r id r₁ h => ?_) fun r id h => ?_
  · exact .of_keeps (keeps_itemOrEvent (Registry.Within.stable r) name) h
  · rw [result_itemOrEvent] at h
    split at h
    · next hid =>
      obtain ⟨heq, rfl⟩ := Prod.mk.inj h
      rwa [← Except.ok.inj heq]
    · obtain ⟨heq, rfl⟩ := Prod.mk.inj h
      rw [← Except.ok.inj heq]
      exact Catalog.lookup_declareEvent _ _
  · rw [result_itemOrEvent, h]

theorem result_itemNamed (word : String) (term : Term) (r : Registry) :
    Action.result (itemNamed lx word term) r =
      match r.catalog.lookup word with
      | some id => (.ok id, r)
      | none =>
        if isEventName word then
          (.ok (r.declareEvent (Name.unescape word)).1, (r.declareEvent (Name.unescape word)).2)
        else (.error (.unknownName lx.spot word term), r) := by
  rw [itemNamed, Action.result_bind, Action.result_get]
  dsimp only
  cases r.catalog.lookup word with
  | some id => rfl
  | none => cases isEventName word <;> rfl

theorem lookup_of_itemNamed {word : String} {term : Term} {r r₁ : Registry} {id : ItemId}
    (h : Action.result (itemNamed lx word term) r = (.ok id, r₁)) :
    r₁.catalog.lookup word = some id := by
  rw [result_itemNamed] at h
  split at h
  · next hid =>
    obtain ⟨heq, rfl⟩ := Prod.mk.inj h
    rwa [← Except.ok.inj heq]
  · split at h
    · obtain ⟨heq, rfl⟩ := Prod.mk.inj h
      rw [← Except.ok.inj heq, Catalog.lookup_congr _ (Name.escape_unescape word).symm]
      exact Catalog.lookup_declareEvent _ _
    · cases h

theorem repeats_itemNamed (word : String) (term : Term) :
    Repeats r₀ R p (itemNamed lx word term) := by
  refine .of_lookup word (fun r id r₁ h => ?_) (fun r id r₁ h => ?_) fun r id h => ?_
  · exact .of_keeps (keeps_itemNamed (Registry.Within.stable r) word term) h
  · exact lookup_of_itemNamed h
  · rw [result_itemNamed, h]

theorem repeats_itemArgument (func : String) (arg term : Term) :
    Repeats r₀ R p (itemArgument lx func arg term) := by
  unfold itemArgument
  split
  · exact repeats_itemNamed ..
  · exact repeats_itemOrEvent ..
  · exact .throw _ _

theorem repeats_integerArgument (func : String) (arg term : Term) :
    Repeats r₀ R p (integerArgument lx func arg term) := by
  refine .bind_same (.lift _) fun v => ?_
  split
  · exact .same _
  · exact .throw _ _

theorem repeats_nameArgument (func : String) (arg term : Term) :
    Repeats r₀ R p (nameArgument lx func arg term) := by
  unfold nameArgument
  split
  · exact .same _
  · exact .same _
  · exact .throw _ _

theorem repeats_checkArity (name : String) (args : List Term) (due : Nat) (term : Term) :
    Repeats r₀ R p (checkArity lx name args due term) := by
  unfold checkArity
  split
  · exact .same _
  · exact .throw _ _

theorem repeats_onlyArgument (name : String) (args : List Term) (term : Term) :
    Repeats r₀ R p (onlyArgument lx name args term) := by
  unfold onlyArgument
  split
  · exact .same _
  · exact .throw _ _

theorem repeats_heartsArgument (name : String) (arg term : Term) :
    Repeats r₀ R p (heartsArgument lx name arg term) := by
  unfold heartsArgument
  split
  · exact .same _
  · refine .bind_same (.lift _) fun v => ?_
    split
    · exact .same _
    · exact .throw _ _

/-! ### Counts and comparisons -/

theorem repeats_countTest (id : ItemId) (count term : Term) :
    Repeats r₀ R p (countTest lx id count term) := by
  unfold countTest
  split
  · exact .same _
  · split
    · exact .same _
    · exact .throw _ _
  · exact .throw _ _

theorem repeats_countCondition (items : List Term) (term : Term) :
    Repeats r₀ R p (countCondition lx items term) := by
  unfold countCondition
  split
  · next item count =>
    cases item with
    | name word => exact .bind_same (repeats_itemNamed ..) fun id => repeats_countTest ..
    | str s => exact .bind_same (repeats_itemOrEvent ..) fun id => repeats_countTest ..
    | _ => exact .throw _ _
  · exact .throw _ _

/-- The display name of a known item, as the side of a comparison. -/
theorem repeats_displayName (word : String) (e : RuleError) : Repeats r₀ R p
      (do
        let r ← get
        match (r.catalog.lookup word).bind r.catalog.get? with
        | some e => return Operand.literal (.str e.name)
        | none => throw e : Resolve Operand) := by
  constructor
  · intro r a r₁ h
    rw [Action.result_bind, Action.result_get] at h
    dsimp only at h
    split at h
    · obtain ⟨-, rfl⟩ := Prod.mk.inj h
      exact .refl r
    · cases h
  · intro r a r₁ _ h hR
    rw [Action.result_bind, Action.result_get] at h ⊢
    dsimp only at h ⊢
    split at h
    · next entry hentry =>
      obtain ⟨ha, rfl⟩ := Prod.mk.inj h
      obtain ⟨id, hid, hget⟩ := Option.bind_eq_some_iff.1 hentry
      rw [hR.catalog.names word id hid, Option.bind_some, hR.catalog.entries id entry hget]
      exact ⟨_, rfl, fun _ => Except.ok.inj ha⟩
    · cases h

theorem repeats_operand (side term : Term) : Repeats r₀ R p (operand lx side term) := by
  unfold operand
  split
  · exact .same _
  · split
    · exact .same _
    · exact repeats_displayName ..
  · refine .bind_same (repeats_onlyArgument ..) fun arg => ?_
    exact .map (repeats_itemArgument ..) _
  · exact .bind_same (repeats_checkArity ..) fun _ => .same _
  · refine .bind_same (.lift _) fun v => ?_
    split
    · exact .same _
    · exact .throw _ _

theorem repeats_chainConditions (term : Term) (left : Operand)
    (rest : List (Comparator × Term)) :
    Repeats r₀ R p (chainConditions lx term left rest) := by
  induction rest generalizing left with
  | nil => exact .same _
  | cons link rest ih =>
    refine .bind_same (repeats_operand ..) fun right => ?_
    refine .bind_same (.lift _) fun f => ?_
    exact (ih right).map _

theorem repeats_comparison (left : Term) (rest : List (Comparator × Term)) :
    Repeats r₀ R p (comparison lx left rest) := by
  have chain : Repeats r₀ R p
      (do
        let l ← operand lx left (.compare left rest)
        return Formula.group .and (← chainConditions lx (.compare left rest) l rest)) :=
    .bind_same (repeats_operand ..) fun l => (repeats_chainConditions ..).map _
  unfold comparison
  split
  · split
    · exact .same _
    · exact chain
  · split
    · exact .same _
    · exact chain
  · exact chain

/-! ### Tests -/

theorem repeats_constantCondition (term : Term) : Repeats r₀ R p (constantCondition lx term) := by
  refine .bind_same (.lift _) fun v => ?_
  split
  · exact .same _
  · exact .throw _ _

theorem repeats_subruleCondition (region : String) (body : Term) :
    Repeats r₀ R p (subruleCondition region body) := by
  refine Rereads.map ⟨fun r id r₁ h => ?_, fun r id r₁ _ h hR => ?_⟩ _
  · obtain ⟨-, rfl⟩ := Prod.mk.inj h
    exact .registerSubrule r region _
  · obtain ⟨hid, rfl⟩ := Prod.mk.inj h
    obtain ⟨s, hs, hitem⟩ := find_registerSubrule r region (subruleBody body)
    have hagain := registerSubrule_of_find (hR.subrules _ _ _ hs)
    refine ⟨s.item, ?_, fun _ => ?_⟩
    · rw [Action.result_modifyGet, hagain]
    · rw [hitem]
      exact Except.ok.inj hid

theorem songButtons_congr {c c' : Catalog} (h : c.Within c') (song : String) :
    songButtons lx c' song = songButtons lx c song := by
  have hbuttons : c'.ocarinaButton? = c.ocarinaButton? := funext h.buttons
  rw [songButtons, songButtons, hbuttons]

theorem repeats_sunSong : Repeats r₀ R p (sunSong lx) := by
  refine .bind_same (repeats_itemNamed ..) fun ocarina => ?_
  refine .bind_same (repeats_itemNamed ..) fun song => ?_
  exact .reading fun r hr => by rw [songButtons_congr hr.catalog]

theorem repeats_hasCondition (args : List Term) (term : Term) :
    Repeats r₀ R p (hasCondition lx args term) := by
  unfold hasCondition
  split
  · exact .map (repeats_itemArgument ..) _
  · refine .bind_same (repeats_itemArgument ..) fun id => ?_
    exact .map (repeats_integerArgument ..) _
  · exact .throw _ _

theorem repeats_itemsCondition (name : String) (test : List ItemId → Formula)
    (args : List Term) (term : Term) :
    Repeats r₀ R p (itemsCondition lx name test args term) := by
  have listed : Repeats r₀ R p
      (do return test (← (listedItems args).mapM fun item => itemArgument lx name item term)) :=
    .bind_same (.mapM _ fun item _ => repeats_itemArgument ..) fun ids => .same _
  unfold itemsCondition
  dsimp only
  split
  · exact .throw _ _
  · exact listed

theorem repeats_plainCondition (name : String) (f : Formula) (args : List Term) (term : Term) :
    Repeats r₀ R p (plainCondition lx name f args term) :=
  .bind_same (repeats_checkArity ..) fun _ => .same _

theorem repeats_tallyCondition (name : String) (tally : Tally) (args : List Term)
    (term : Term) :
    Repeats r₀ R p (tallyCondition lx name tally args term) := by
  refine .bind_same (repeats_onlyArgument ..) fun arg => ?_
  exact .bind_same (repeats_integerArgument ..) fun n => .same _

theorem repeats_songCondition (name : String) (args : List Term) (term : Term) :
    Repeats r₀ R p (songCondition lx name args term) := by
  refine .bind_same (repeats_onlyArgument ..) fun arg => ?_
  refine .bind_same (repeats_nameArgument ..) fun song => ?_
  exact .reading fun r hr => songButtons_congr hr.catalog song

theorem repeats_damageCondition (name : String) (args : List Term) (term : Term) :
    Repeats r₀ R p (damageCondition lx name args term) := by
  refine .bind_same (repeats_onlyArgument ..) fun arg => ?_
  exact .bind_same (repeats_heartsArgument ..) fun heavy => .same _

theorem repeats_shortcutCondition (name : String) (args : List Term) (term : Term) :
    Repeats r₀ R p (shortcutCondition lx name args term) := by
  refine .bind_same (repeats_onlyArgument ..) fun arg => ?_
  exact .bind_same (repeats_nameArgument ..) fun region => .same _

theorem repeats_nonzeroCondition (term : Term) : Repeats r₀ R p (nonzeroCondition lx term) :=
  .map (repeats_operand ..) _

/-! ### Conditions

From here on the two formulas may differ, unless no item shadows a constant. -/

section Conditions

variable {expand : Expansion}
  (hexpand : ∀ t args call, Repeats r₀ R (lx.profile.Unshadowed r₀.catalog R.catalog)
    (expand t args call))
include hexpand

theorem repeats_builtin {name : String} {args : List Term} {term : Term} {act : Resolve Formula}
    (h : builtin? lx expand name args term = some act) :
    Repeats r₀ R (lx.profile.Unshadowed r₀.catalog R.catalog) act := by
  unfold builtin? at h
  -- one case for each name, in the order of the definition
  split at h <;> cases h
  · exact repeats_hasCondition ..
  · exact repeats_itemsCondition ..
  · exact repeats_itemsCondition ..
  · exact repeats_plainCondition ..
  · exact repeats_tallyCondition ..
  · exact repeats_tallyCondition ..
  · exact repeats_tallyCondition ..
  · exact repeats_tallyCondition ..
  · exact repeats_tallyCondition ..
  · exact repeats_songCondition ..
  · exact repeats_plainCondition ..
  · exact repeats_plainCondition ..
  · exact repeats_damageCondition ..
  · exact repeats_plainCondition ..
  · exact repeats_shortcutCondition ..
  · refine .bind_same (repeats_checkArity ..) fun _ => ?_
    split
    · exact hexpand ..
    · exact .throw _ _
  · exact repeats_nonzeroCondition ..
  · exact repeats_nonzeroCondition ..

theorem repeats_templateCall (func : String) (args : List Term) (term : Term) :
    Repeats r₀ R (lx.profile.Unshadowed r₀.catalog R.catalog)
      (templateCall lx expand func args term) := by
  unfold templateCall
  split
  · exact hexpand ..
  · exact .throw _ _

theorem repeats_dayCondition (test : DayTest) :
    Repeats r₀ R (lx.profile.Unshadowed r₀.catalog R.catalog)
      (dayCondition lx expand test) := by
  cases test with
  | day =>
    rw [dayCondition]
    split
    · exact .map repeats_sunSong _
    · exact .same _
  | night =>
    rw [dayCondition]
    split
    · exact repeats_templateCall hexpand ..
    · split
      · exact .map repeats_sunSong _
      · exact .same _
  | gravekeeper =>
    rw [dayCondition]
    split
    · exact .same _
    · exact .same _

omit hexpand in
/-- The item of a name, or else its constant: the one place where a later item matters. -/
theorem repeats_itemOrConstant (word : String) (term : Term) :
    Repeats r₀ R (lx.profile.Unshadowed r₀.catalog R.catalog)
      (do
        let r ← get
        match r.catalog.lookup word with
        | some id => return Formula.item id
        | none =>
          match lx.constant? word with
          | some v => return .const v.truthy
          | none => return .item (← itemNamed lx word term)) := by
  have hnamed : Repeats r₀ R True (do return Formula.item (← itemNamed lx word term)) :=
    .map (repeats_itemNamed ..) _
  constructor
  · intro r f r₁ h
    rw [Action.result_bind, Action.result_get] at h
    dsimp only at h
    split at h
    · obtain ⟨-, rfl⟩ := Prod.mk.inj h
      exact .refl r
    · split at h
      · obtain ⟨-, rfl⟩ := Prod.mk.inj h
        exact .refl r
      · exact hnamed.within r f r₁ h
  · intro r f r₁ hr h hR
    rw [Action.result_bind, Action.result_get] at h ⊢
    dsimp only at h ⊢
    split at h
    · next id hid =>
      obtain ⟨hf, rfl⟩ := Prod.mk.inj h
      rw [hR.catalog.names word id hid]
      exact ⟨_, rfl, fun _ => Except.ok.inj hf⟩
    · next hnone =>
      split at h
      · next v hv =>
        obtain ⟨hf, rfl⟩ := Prod.mk.inj h
        cases hlookup : R.catalog.lookup word with
        | none => exact ⟨_, rfl, fun _ => Except.ok.inj hf⟩
        | some id =>
          -- the name of a constant that has become that of an item
          refine ⟨_, rfl, fun hunshadowed => ?_⟩
          rw [hunshadowed.mono hr.catalog.names word (Option.isSome_of_eq_some hv) hnone]
            at hlookup
          cases hlookup
      · obtain ⟨id, r₂, hid, hr₂⟩ := Action.result_bind_eq_ok_iff.1 h
        obtain ⟨hf, rfl⟩ := Prod.mk.inj hr₂
        rw [hR.catalog.names word id (lookup_of_itemNamed hid)]
        exact ⟨_, rfl, fun _ => Except.ok.inj hf⟩

theorem repeats_nameCondition (word : String) :
    Repeats r₀ R (lx.profile.Unshadowed r₀.catalog R.catalog)
      (nameCondition lx expand word) := by
  unfold nameCondition
  dsimp only
  split
  · exact repeats_dayCondition hexpand _
  · split
    · exact .throw _ _
    · split
      · next hf => exact repeats_builtin hexpand hf
      · split
        · exact hexpand ..
        · exact repeats_itemOrConstant ..

theorem repeats_callCondition (func : String) (args : List Term) :
    Repeats r₀ R (lx.profile.Unshadowed r₀.catalog R.catalog)
      (callCondition lx expand func args) := by
  unfold callCondition
  dsimp only
  split
  · refine .bind_same (repeats_checkArity ..) fun _ => ?_
    exact repeats_dayCondition hexpand _
  · split
    · split
      · split
        · exact repeats_subruleCondition ..
        · exact .throw _ _
      · exact .throw _ _
    · split
      · refine .bind_same (repeats_onlyArgument ..) fun body => ?_
        split
        · exact repeats_subruleCondition ..
        · exact .throw _ _
      · split
        · next hf => exact repeats_builtin hexpand hf
        · exact repeats_templateCall hexpand ..

omit hexpand in
theorem repeats_conditions {terms : List Term}
    (h : ∀ t ∈ terms, Repeats r₀ R p (condition lx expand t)) :
    Repeats r₀ R p (conditions lx expand terms) := by
  induction terms with
  | nil => exact .same _
  | cons t ts ih =>
    obtain ⟨ht, hts⟩ := List.forall_mem_cons.1 h
    refine ht.bind fun f f' hf => ?_
    refine (ih hts).bind fun fs fs' hfs => ?_
    exact .pure fun hp => by rw [hf hp, hfs hp]

theorem repeats_condition (term : Term) :
    Repeats r₀ R (lx.profile.Unshadowed r₀.catalog R.catalog) (condition lx expand term) := by
  induction term using Term.induction with
  | bool | int => exact .same _
  | str s => exact .map (repeats_itemOrEvent s) _
  | name word => exact repeats_nameCondition hexpand word
  | tuple items _ => exact repeats_countCondition items _
  | call func args _ => exact repeats_callCondition hexpand func args
  | group op operands ih => exact .map (repeats_conditions ih) _
  | not operand ih => exact .map ih _
  | compare left rest _ _ => exact repeats_comparison left rest
  | decimal | subscript | arith | neg => exact repeats_constantCondition _

end Conditions

/-! ### Rules -/

theorem repeats_conditionAt (depth : Nat) :
    ∀ term, Repeats r₀ R (lx.profile.Unshadowed r₀.catalog R.catalog)
      (conditionAt lx depth term) := by
  induction depth with
  | zero =>
    intro term
    unfold conditionAt
    refine repeats_condition (fun t args call => ?_) term
    exact .bind_same (repeats_checkArity ..) fun _ => .throw _ _
  | succ depth ih =>
    intro term
    unfold conditionAt
    refine repeats_condition (fun t args call => ?_) term
    exact .bind_same (repeats_checkArity ..) fun _ => ih _

/-- **A rule that was resolved on the way to a registry resolves there without registering
anything, and to the same formula if no item shadows a constant.** -/
theorem repeats_resolveText (text : String) :
    Repeats r₀ R (lx.profile.Unshadowed r₀.catalog R.catalog)
      (resolveText lx text) := by
  unfold resolveText
  split
  · exact .same _
  · split
    · exact repeats_conditionAt expansionLimit _
    · exact .throw _ _

end Rereading

end Rule

end Progression
