import Progression.Proofs.Compilations

/-!
# Compiling again

After a compilation that succeeds, another one succeeds as well and registers nothing: every
text resolves again, all exits are connected, and no subrule is pending.  But it may change
rules.  A name that stood for a constant when the text of a spot was resolved stands for an item
if a later text has named an event so, and then the spot gets another rule.  Once all rules have
been written with the names as they are in the end, nothing changes any more, so this happens in
the second compilation only.

## Main definitions

* `Multiworld.SameButRules` — the same worlds, but for the rules of spots.
* `Multiworld.RulesCurrent` — every rule is that of what its text resolves to now.

## Main results

* `Multiworld.Compiled.rulesCurrent` — rules are current if no item shadows a constant.
* `Multiworld.compileRules_again` — **a second compilation succeeds and changes nothing but
  rules, and those only if they are not current; a third one changes nothing at all.**
-/

namespace Progression

open Rule

namespace Multiworld

variable {m m₀ m' : Multiworld} {templates : Templates} {w : WorldId} {x : Spot}

/-! ### Work that is done already -/

theorem HasGuard.unique {guard guard' : Guard} (h : m.HasGuard x guard)
    (h' : m.HasGuard x guard') : guard = guard' := by
  cases x with
  | exit id =>
    have heq := congrArg Exit.guard (h.symm.trans h')
    exact heq
  | location id =>
    have heq := congrArg Location.guard (h.symm.trans h')
    exact heq

/-- Nothing changes when a spot is given the rule that it has. -/
theorem HasGuard.setGuard_eq {guard : Guard} (h : m.HasGuard x guard) :
    m.setGuard x guard = m := by
  cases x with
  | exit id => rw [Multiworld.setGuard, modifyExit, modify_eq_self (d := default) fun _ => h.symm]
  | location id =>
    rw [Multiworld.setGuard, modifyLocation, modify_eq_self (d := default) fun _ => h.symm]

/-- A resolution that registers nothing changes the rulebook at most. -/
theorem resolved_self (m : Multiworld) (w : WorldId) (f : Formula) :
    m.resolved w f (m.registry w) = { m with book := (m.book.issue f).2 } := by
  have hworld : { m.world w with ledger := (m.registry w).ledger } = m.world w := rfl
  rw [resolved, modifyWorld]
  dsimp only
  rw [modify_eq_self (d := default) fun _ => hworld]
  rfl

theorem issue_of_mem {b : Rulebook} {f : Formula} (h : f ∈ b.formulas) : (b.issue f).2 = b := by
  rw [Rulebook.issue, if_pos (List.contains_iff_mem.2 h)]

/-- Where nothing is pending, there is nothing to settle. -/
theorem result_finishRules_of_settled (h : ∀ w, (m.world w).ledger.pending = [])
    (rounds : Nat) : Action.result (finishRules templates rounds) m = (.ok true, m) := by
  have hrounds : ∀ w, Action.result (settleRounds templates w rounds) m = (.ok true, m) := by
    intro w
    cases rounds with
    | zero =>
      rw [result_settleRounds_zero, h]
      rfl
    | succ rounds =>
      rw [result_settleRounds_succ, h, emptied_of_nil (h w)]
      rfl
  rw [result_finishRules]
  induction m.worldIds with
  | nil => rfl
  | cons w ws ih =>
    rw [settleWorlds, Action.result_bind, hrounds]
    exact ih

/-! ### Changing nothing but rules -/

/-- The two have the same catalog, worlds and regions, and their exits and locations differ in
their rules at most.  The locations of subrules do not differ at all. -/
structure SameButRules (m m' : Multiworld) : Prop where
  catalog : m'.catalog = m.catalog
  worlds : m'.worlds = m.worlds
  regions : m'.regions = m.regions
  exits : m'.exits.size = m.exits.size
  exit : ∀ id, ∃ guard, m'.exit id = (m.exit id).withGuard guard
  locations : m'.locations.size = m.locations.size
  location : ∀ id, m'.location id = m.location id ∨
    ∃ guard, m'.location id = (m.location id).withGuard guard
  internal : ∀ id, (m.location id).internal = true → m'.location id = m.location id

namespace SameButRules

theorem refl (m : Multiworld) : SameButRules m m where
  catalog := rfl
  worlds := rfl
  regions := rfl
  exits := rfl
  exit id := ⟨(m.exit id).guard, rfl⟩
  locations := rfl
  location _ := .inl rfl
  internal _ _ := rfl

theorem registry (h : SameButRules m m') (w : WorldId) : m'.registry w = m.registry w := by
  rw [Multiworld.registry, Multiworld.registry, world, world, h.catalog, h.worlds]

/-- Further rules may be handed out. -/
theorem withBook (h : SameButRules m m') (book : Rulebook) :
    SameButRules m { m' with book } :=
  ⟨h.catalog, h.worlds, h.regions, h.exits, h.exit, h.locations, h.location, h.internal⟩

/-- A spot whose rules are compiled may get another rule. -/
theorem setGuard (h : SameButRules m m') (hx : x ∈ m.spotsIn w) (guard : Guard) :
    SameButRules m (m'.setGuard x guard) := by
  constructor
  case catalog => cases x <;> exact h.catalog
  case worlds => cases x <;> exact h.worlds
  case regions => cases x <;> exact h.regions
  case exits => cases x <;> simp [Multiworld.setGuard, modifyExit, modifyLocation, h.exits]
  case exit =>
    intro id
    obtain ⟨guard', hguard'⟩ := h.exit id
    rw [exit_setGuard, hguard']
    split
    · exact ⟨guard, rfl⟩
    · exact ⟨guard', rfl⟩
  case locations =>
    cases x <;> simp [Multiworld.setGuard, modifyExit, modifyLocation, h.locations]
  case location =>
    intro id
    rw [location_setGuard]
    split
    · refine .inr ⟨guard, ?_⟩
      rcases h.location id with hid | ⟨guard', hid⟩
      · rw [hid]
      · rw [hid]
        rfl
    · exact h.location id
  case internal =>
    intro id hid
    rw [location_setGuard, if_neg]
    · exact h.internal id hid
    · rintro ⟨rfl, -⟩
      rw [(location_mem_spotsIn.1 hx).2.2] at hid
      cases hid

end SameButRules

/-! ### The second compilation -/

/-- The rule of every spot is that of what its text resolves to now. -/
def RulesCurrent (templates : Templates) (m : Multiworld) : Prop :=
  ∀ w, w.index < m.worlds.size → ∀ x ∈ m.spotsIn w,
    ∃ f, Action.result (m.reading templates x) (m.registry w) = (.ok f, m.registry w) ∧
      m.HasGuard x ⟨f, some m.book.number⟩

namespace Compiled

/-- The text of a spot resolves again, and to the formula of its rule unless an item shadows a
constant. -/
theorem resolves (h : Compiled templates m₀ m) (hw : w.index < m.worlds.size)
    (hx : x ∈ m.spotsIn w) :
    ∃ f f', f ∈ m.book.formulas ∧ m.HasGuard x ⟨f, some m.book.number⟩ ∧
      Action.result (m.reading templates x) (m.registry w) = (.ok f', m.registry w) ∧
      ((m.world w).profile.Unshadowed m₀.catalog m.catalog → f' = f) := by
  obtain ⟨r, f, r₁, hr, hf, hr₁, hguard, hmem⟩ := h.written w hw x hx
  obtain ⟨f', hf', heq⟩ := (repeats_reading m templates x _ _).again r f r₁ hr hf hr₁
  rw [lexicon, world_brief hx] at heq
  rw [world_brief hx] at hf'
  exact ⟨f, f', hmem, hguard, hf', heq⟩

/-- **Rules are current if no item shadows a constant.** -/
theorem rulesCurrent (h : Compiled templates m₀ m)
    (hm : ∀ w, w.index < m.worlds.size →
      (m.world w).profile.Unshadowed m₀.catalog m.catalog) : m.RulesCurrent templates := by
  intro w hw x hx
  obtain ⟨f, f', -, hguard, hf', heq⟩ := h.resolves hw hx
  rw [heq (hm w hw)] at hf'
  exact ⟨f, hf', hguard⟩

/-- A spot is compiled again with no effect on anything but its rule, nor on that one if the
rules are current. -/
theorem compileSpot (h : Compiled templates m₀ m) (hw : w.index < m.worlds.size)
    (hx : x ∈ m.spotsIn w) {s : Multiworld} (hfurther : Furthers (fun _ => False) m s)
    (hsame : SameButRules m s) (hcurrent : m.RulesCurrent templates → s = m) :
    ∃ t, Action.result (compileSpot templates x) s = (.ok ⟨⟩, t) ∧
      Furthers (fun _ => False) m t ∧ SameButRules m t ∧
      (m.RulesCurrent templates → t = m) := by
  obtain ⟨f, f', hmem, hguard, hf', -⟩ := h.resolves hw hx
  have hxs : x ∈ s.spotsIn w := hfurther.spots w ▸ hx
  have hresult : Action.result (Multiworld.compileSpot templates x) s =
      (.ok ⟨⟩, (s.resolved w f' (s.registry w)).setGuard x ⟨f', some s.book.number⟩) := by
    refine result_compileSpot_eq_ok_iff.2 ⟨f', s.registry w, ?_, ?_⟩
    · rw [world_brief hxs, hfurther.reading hx, hsame.registry, hf']
    · rw [world_brief hxs]
  have hstep := (written_compileSpot (hfurther.worlds ▸ hw) hxs hresult).1
  refine ⟨_, hresult, hfurther.trans (hstep.mono nofun), ?_, fun hm => ?_⟩
  · rw [resolved_self]
    exact (hsame.withBook _).setGuard hx _
  · obtain ⟨f'', hf'', hguard''⟩ := hm w hw x hx
    rw [hf'] at hf''
    obtain rfl := Except.ok.inj (Prod.mk.inj hf'').1
    have hformula : f = f' := congrArg Guard.formula (hguard.unique hguard'')
    rw [hcurrent hm, resolved_self, issue_of_mem (hformula ▸ hmem)]
    exact hguard''.setGuard_eq

/-- A compilation can be repeated, with no effect on anything but rules, nor on rules that are
current. -/
theorem compileRules (h : Compiled templates m₀ m) :
    ∃ m', (∀ rounds, Action.result (compileRules templates rounds) m = (.ok true, m')) ∧
      SameButRules m m' ∧ (m.RulesCurrent templates → m' = m) := by
  have hconnect : Action.result connectExits m = (.ok ⟨⟩, m) := by
    have hexit : ∀ id ∈ m.exitIds, ∀ s, s = m →
        ∃ t, Action.result (connectExit id) s = (.ok ⟨⟩, t) ∧ t = m := by
      rintro id hid _ rfl
      exact ⟨_, (h.linked id hid).connectExit, rfl⟩
    obtain ⟨t, ht, rfl⟩ := Action.forM_succeeds hexit rfl
    exact ht
  have hworld : ∀ w ∈ m.worldIds, ∀ s, (Furthers (fun _ => False) m s ∧ SameButRules m s ∧
        (m.RulesCurrent templates → s = m)) →
      ∃ t, Action.result (compileWorld templates w) s = (.ok ⟨⟩, t) ∧
        Furthers (fun _ => False) m t ∧ SameButRules m t ∧
        (m.RulesCurrent templates → t = m) := by
    intro w hw s hs
    rw [compileWorld_eq, Action.result_bind, Action.result_get]
    dsimp only
    rw [hs.1.spots]
    exact Action.forM_succeeds
      (fun x hx s ⟨hfurther, hsame, hcurrent⟩ =>
        h.compileSpot (mem_worldIds.1 hw) hx hfurther hsame hcurrent) hs
  obtain ⟨m', hworlds, -, hsame, hcurrent⟩ := Action.forM_succeeds hworld
    ⟨.refl m, .refl m, fun _ => rfl⟩
  refine ⟨m', fun rounds => ?_, hsame, hcurrent⟩
  have hsettled : ∀ w, (m'.world w).ledger.pending = [] := by
    intro w
    rw [world, hsame.worlds]
    exact h.pending w
  rw [compileRules_eq, Action.result_bind_eq_ok_iff]
  refine ⟨⟨⟩, m', ?_, result_finishRules_of_settled hsettled rounds⟩
  exact Action.result_bind_eq_ok_iff.2 ⟨⟨⟩, m, hconnect, hworlds⟩

end Compiled

/-- **After a compilation that succeeds, a second one succeeds.  It changes nothing but rules,
and no rules either just when they are all current, which they are unless the first compilation
made an item of the name of a constant.  A third compilation changes nothing at all.** -/
theorem compileRules_again {rounds : Nat}
    (h : Action.result (compileRules templates rounds) m = (.ok true, m')) :
    ∃ m'', (∀ n, Action.result (compileRules templates n) m' = (.ok true, m'')) ∧
      SameButRules m' m'' ∧ (m'' = m' ↔ m'.RulesCurrent templates) ∧
      ((∀ w, w.index < m'.worlds.size →
        (m'.world w).profile.Unshadowed m.catalog m'.catalog) → m'' = m') ∧
      ∀ n, Action.result (compileRules templates n) m'' = (.ok true, m'') := by
  have hfirst := compiled_compileRules h
  obtain ⟨m'', hagain, hsame, hcurrent⟩ := hfirst.compileRules
  -- no item is new to the second compilation, so what it writes is current
  have hsecond := compiled_compileRules (hagain 0)
  have hcurrent₂ : m''.RulesCurrent templates := by
    refine hsecond.rulesCurrent fun w _ => ?_
    rw [hsame.catalog]
    exact .refl _ _
  obtain ⟨m₃, hthird, -, hcurrent₃⟩ := hsecond.compileRules
  refine ⟨m'', hagain, hsame, ⟨fun heq => heq ▸ hcurrent₂, hcurrent⟩, fun hm => ?_, fun n => ?_⟩
  · exact hcurrent (hfirst.rulesCurrent hm)
  · rw [hthird, hcurrent₃ hcurrent₂]

/-- A world in which a setting has the name that a later rule gives to an item. -/
def iceWorld : Multiworld :=
  let (w, m) := (Multiworld.empty .empty).addWorld
    { Profile.plain with settings := .ofList [("Ice", .bool true)] }
  let (_, m) := m.addLocation (m.root w) "Cavern" "Chest" "Ice"
  (m.addLocation (m.root w) "Glacier" "Chest" "has(Ice)").2

/-- At first the cavern is open because of the setting.  In the second compilation it gets the
rule that asks for the item. -/
theorem compileRules_iceWorld : ∃ m m',
    Action.result (compileRules .empty 1) iceWorld = (.ok true, m) ∧ ¬ m.RulesCurrent .empty ∧
      Action.result (compileRules .empty 1) m = (.ok true, m') ∧
      Action.result (compileRules .empty 1) m' = (.ok true, m') ∧
      (m.location ⟨0⟩).guard.formula = .const true ∧
      (m'.location ⟨0⟩).guard.formula = .item ⟨0⟩ := by
  let m := (Action.result (compileRules .empty 1) iceWorld).2
  have hok : Action.result (compileRules .empty 1) iceWorld = (.ok true, m) :=
    Prod.ext (by decide +kernel) rfl
  obtain ⟨m', hagain, -, hcurrent, -, hthird⟩ := compileRules_again hok
  have hopen : (m.location ⟨0⟩).guard.formula = .const true := by decide +kernel
  have hasked : (m'.location ⟨0⟩).guard.formula = .item ⟨0⟩ := by
    have hm' : m' = (Action.result (compileRules .empty 1) m).2 := by rw [hagain 1]
    rw [hm']
    decide +kernel
  refine ⟨m, m', hok, fun h => ?_, hagain 1, hthird 1, hopen, hasked⟩
  rw [hcurrent.2 h, hopen] at hasked
  cases hasked

end Multiworld

end Progression
