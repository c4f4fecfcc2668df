import Progression.Proofs.Parsing
import Progression.Proofs.Printing

/-!
# Parsing canonical text

A term that some tokens write is written by the tokens of its canonical text as well.  Its
operands stand there as values, calls and subscripts, or in parentheses, and such a phrase
belongs to every level; so each operand is one for its operator, whatever its level was in
the rule.  The names and literals of the term are tokens of the rule, and what the rule was
cut into can be written again.

## Main definitions

* `Rewrites` — the tokens of a term write this term, also as an operand.

## Main results

* `Derives.rewrites` — what any tokens write, its own tokens write.
* `Derives.atoms_subset` — the names and literals of a term are among its tokens.
* `parse_text` — **the canonical text of a parsed term is parsed as this term.**
-/

namespace Progression.Rule

/-! ### Tokens of a term -/

section Tokens

variable {l : Level} {us : List Token} {t : Term}

theorem intercalate_cons {α β : Type} (sep : α) (f : β → List α) (x : β) (xs : List β) :
    [sep].intercalate ((x :: xs).map f) = f x ++ xs.flatMap fun y => sep :: f y := by
  induction xs generalizing x with
  | nil => simp
  | cons y ys ih =>
    have htail := ih y
    simp only [List.map_cons] at htail ⊢
    rw [List.intercalate_cons_cons, htail, List.flatMap_cons]
    simp

theorem listed_intercalate (parts : List (List Token)) :
    Listed parts ([.comma].intercalate parts) := by
  induction parts with
  | nil => exact .nil
  | cons us parts ih =>
    cases parts with
    | nil => simpa using Listed.last us
    | cons vs parts =>
      have hcons := ih.cons us
      rw [List.intercalate_cons_cons]
      simpa using hcons

/-- A term that its tokens write is written also as an operand. -/
structure Rewrites (t : Term) : Prop where
  whole : Derives (.group .or) t.tokens t
  operand : Derives .applied t.operandTokens t

theorem rewrites_of_applied (ht : t.isCompound = false) (h : Derives .applied t.tokens t) :
    Rewrites t where
  whole := h.of_applied nofun
  operand := by
    rw [Term.operandTokens, Term.enclose, if_neg (by simp [ht])]
    exact h

theorem rewrites_of_group (ht : t.isCompound = true) (h : Derives (.group .or) t.tokens t) :
    Rewrites t where
  whole := h
  operand := by
    rw [Term.operandTokens, Term.enclose, if_pos ht]
    exact h.parens.unapplied

theorem Rewrites.at {l : Level} (h : Rewrites t) (hl : l ≠ .value) : Derives l t.operandTokens t :=
  h.operand.of_applied hl

theorem rewrites_value (ht : t.isCompound = false) (h : Derives .value t.tokens t) :
    Rewrites t :=
  rewrites_of_applied ht h.unapplied

/-- A term as a phrase of its own tokens. -/
def Term.phrase (t : Term) : Phrase := ⟨t.tokens, t⟩

/-- A term as a phrase of its tokens as an operand. -/
def Term.operandPhrase (t : Term) : Phrase := ⟨t.operandTokens, t⟩

theorem map_term_phrase (ts : List Term) : (ts.map Term.phrase).map Phrase.term = ts := by
  rw [List.map_map]
  exact List.map_id ts

theorem map_term_operandPhrase (ts : List Term) :
    (ts.map Term.operandPhrase).map Phrase.term = ts := by
  rw [List.map_map]
  exact List.map_id ts

theorem map_tokens_phrase (ts : List Term) :
    (ts.map Term.phrase).map Phrase.tokens = Term.tokensOf ts := by
  rw [List.map_map, Term.tokensOf_eq_map]
  rfl

theorem rewrites_joined {op : Connective} {ts : List Term} (ht : Rewrites t)
    (hts : ∀ t ∈ ts, Rewrites t) : Rewrites (joined op t ts) := by
  cases ts with
  | nil => exact ht
  | cons t' ts =>
    refine rewrites_of_group rfl ?_
    have hoperand : op.operand ≠ .value := by cases op <;> exact nofun
    have hgroup := @Derives.group op _ _ ((t' :: ts).map Term.operandPhrase) (ht.at hoperand)
      (List.forall_mem_map.2 fun t hmem => (hts t hmem).at hoperand)
    have htokens : (joined op t (t' :: ts)).tokens = t.operandTokens ++
        ((t' :: ts).map Term.operandPhrase).flatMap fun p => .ident op.word :: p.tokens := by
      rw [List.flatMap_map]
      have h := intercalate_cons (.ident op.word) Term.operandTokens t (t' :: ts)
      rw [← Term.operandTokensOf_eq_map] at h
      exact h
    rw [map_term_operandPhrase, ← htokens] at hgroup
    cases op with
    | or => exact hgroup
    | and => exact .group_of_operand hgroup

theorem chainTokens_eq_flatMap (rest : List (Comparator × Term)) :
    Term.chainTokens rest = rest.flatMap fun p => p.1.tokens ++ p.2.operandTokens := by
  induction rest with
  | nil => rfl
  | cons p rest ih => rw [List.flatMap_cons, ← ih]; rfl

theorem rewrites_chained {rest : List (Comparator × Term)} (ht : Rewrites t)
    (hrest : ∀ p ∈ rest, Rewrites p.2) : Rewrites (chained t rest) := by
  cases rest with
  | nil => exact ht
  | cons p rest =>
    refine rewrites_of_group rfl ?_
    have hchain := @Derives.comparison _ _
      ((p :: rest).map fun p => (p.1, p.2.operandPhrase)) (ht.at nofun)
      (List.forall_mem_map.2 fun p hmem => (hrest p hmem).at nofun)
    rw [List.flatMap_map, List.map_map] at hchain
    have hterm : ((fun p => (p.1, p.2.term)) ∘
        fun p : Comparator × Term => (p.1, p.2.operandPhrase)) = id := rfl
    rw [hterm, List.map_id] at hchain
    have htokens : (chained t (p :: rest)).tokens =
        t.operandTokens ++ (p :: rest).flatMap fun p => p.1.tokens ++ p.2.operandTokens := by
      rw [← chainTokens_eq_flatMap]
      rfl
    rw [htokens]
    exact hchain.unnegated.whole_of_negation

theorem rewrites_arith {op : ArithOp} {left right : Term} (hl : Rewrites left)
    (hr : Rewrites right) : Rewrites (.arith op left right) := by
  refine rewrites_of_group rfl ?_
  have hoperand : (arithPrecedence op).operand ≠ .value := by cases op <;> exact nofun
  have harith : Derives (.arith (arithPrecedence op)) (left.operandTokens ++
      [(op, right.operandPhrase)].flatMap fun p => arithToken p.1 :: p.2.tokens)
      (.arith op left right) :=
    .arith (hl.at hoperand) (by simp) (List.forall_mem_singleton.2 (hr.at hoperand))
  rw [List.flatMap_singleton] at harith
  exact harith.whole_of_arith

theorem rewrites_foldl {rest : List (ArithOp × Term)} (ht : Rewrites t)
    (hrest : ∀ p ∈ rest, Rewrites p.2) :
    Rewrites (rest.foldl (fun left p => .arith p.1 left p.2) t) := by
  induction rest generalizing t with
  | nil => exact ht
  | cons p rest ih =>
    obtain ⟨hp, hrest⟩ := List.forall_mem_cons.1 hrest
    exact ih (rewrites_arith ht hp) hrest

theorem Named.isName {w : String} (h : Named us w) : isName w = true := by
  induction h with
  | word hw => exact hw
  | parens _ ih => exact ih

theorem rewrites_call {w : String} {ts : List Term} (hw : isName w = true)
    (hts : ∀ t ∈ ts, Rewrites t) : Rewrites (.call w ts) := by
  have hlisted : Listed ((ts.map Term.phrase).map Phrase.tokens)
      ([.comma].intercalate (Term.tokensOf ts)) := by
    rw [map_tokens_phrase]
    exact listed_intercalate _
  have hcall := Derives.call (.word hw)
    (List.forall_mem_map.2 fun t hmem => (hts t hmem).whole) hlisted
  rw [map_term_phrase] at hcall
  exact rewrites_of_applied rfl hcall

theorem rewrites_tuple {ts : List Term} (ht : Rewrites t) (hts : ∀ t ∈ ts, Rewrites t) :
    Rewrites (.tuple (t :: ts)) := by
  have htuple : ∀ {vs}, Listed (Term.tokensOf ts) vs → Derives .value
      (.lparen :: (t.tokens ++ .comma :: (vs ++ [.rparen]))) (.tuple (t :: ts)) := by
    intro vs hlisted
    rw [← map_tokens_phrase] at hlisted
    have htuple := Derives.tuple ht.whole
      (List.forall_mem_map.2 fun t hmem => (hts t hmem).whole) hlisted
    rwa [map_term_phrase] at htuple
  cases ts with
  | nil => exact rewrites_value rfl (htuple .nil)
  | cons t' ts =>
    have hmore := htuple (listed_intercalate _)
    refine rewrites_value rfl ?_
    simpa [Term.tokens, Term.tokensOf, List.intercalate_cons_cons] using hmore

/-- A term that any tokens write is written by the tokens of its canonical text. -/
theorem Derives.rewrites (h : Derives l us t) : Rewrites t := by
  induction h with
  | group _ _ ih ihrest => exact rewrites_joined ih (List.forall_mem_map.2 ihrest)
  | not _ ih => exact rewrites_of_group rfl (Derives.not (ih.at nofun)).whole_of_negation
  | unnegated _ ih | unsigned _ ih | unapplied _ ih | parens _ ih => exact ih
  | comparison _ _ ih ihrest => exact rewrites_chained ih (List.forall_mem_map.2 ihrest)
  | @arith _ _ t rest _ _ _ ih ihrest =>
    have hfold := @rewrites_foldl t (rest.map fun p => (p.1, p.2.term)) ih
      (List.forall_mem_map.2 ihrest)
    rwa [List.foldl_map] at hfold
  | neg _ ih => exact rewrites_of_group rfl (Derives.neg (ih.at nofun)).whole_of_signed
  | call hname _ _ ih => exact rewrites_call hname.isName (List.forall_mem_map.2 ih)
  | subscript hname _ ih =>
    exact rewrites_of_applied rfl (.subscript (.word hname.isName) ih.whole)
  | int n => exact rewrites_value rfl (.int n)
  | decimal d => exact rewrites_value rfl (.decimal d)
  | str s => exact rewrites_value rfl (.str s)
  | yes => exact rewrites_value rfl .yes
  | no => exact rewrites_value rfl .no
  | name hw => exact rewrites_value rfl (.name hw)
  | unit => exact rewrites_value rfl .unit
  | tuple _ _ _ ih ihrest => exact rewrites_tuple ih (List.forall_mem_map.2 ihrest)

/-! ### Names and literals -/

theorem mem_atoms_joined {op : Connective} {ts : List Term} {u : Token}
    (h : u ∈ (joined op t ts).atoms) : u ∈ t.atoms ∨ ∃ t' ∈ ts, u ∈ t'.atoms := by
  cases ts with
  | nil => exact .inl h
  | cons t' ts => exact (List.mem_append.1 h).imp_right Term.mem_atomsOf.1

theorem mem_atoms_chained {rest : List (Comparator × Term)} {u : Token}
    (h : u ∈ (chained t rest).atoms) : u ∈ t.atoms ∨ ∃ p ∈ rest, u ∈ p.2.atoms := by
  cases rest with
  | nil => exact .inl h
  | cons p rest => exact (List.mem_append.1 h).imp_right Term.mem_chainAtoms.1

theorem mem_atoms_foldl {rest : List (ArithOp × Phrase)} {u : Token}
    (h : u ∈ (rest.foldl (fun left p => .arith p.1 left p.2.term) t).atoms) :
    u ∈ t.atoms ∨ ∃ p ∈ rest, u ∈ p.2.term.atoms := by
  induction rest generalizing t with
  | nil => exact .inl h
  | cons p rest ih =>
    rcases ih h with hfirst | ⟨q, hq, hu⟩
    · exact (List.mem_append.1 hfirst).imp_right fun hu => ⟨p, List.mem_cons_self, hu⟩
    · exact .inr ⟨q, List.mem_cons_of_mem p hq, hu⟩

theorem Named.mem {w : String} (h : Named us w) : .ident w ∈ us := by
  induction h with
  | word => exact List.mem_singleton_self _
  | parens _ ih => exact List.mem_cons_of_mem _ (List.mem_append_left _ ih)

theorem Listed.mem {parts : List (List Token)} {vs : List Token} (h : Listed parts vs)
    (hus : us ∈ parts) {u : Token} (hu : u ∈ us) : u ∈ vs := by
  induction h with
  | nil => cases hus
  | last =>
    rw [List.mem_singleton] at hus
    rwa [← hus]
  | cons vs _ ih =>
    rcases List.mem_cons.1 hus with rfl | hus
    · exact List.mem_append_left _ hu
    · exact List.mem_append_right _ (List.mem_cons_of_mem _ (ih hus))

/-- The names and literals of a term are among the tokens that write it. -/
theorem Derives.atoms_subset (h : Derives l us t) : ∀ u ∈ t.atoms, u ∈ us := by
  induction h with
  | group _ _ ih ihrest =>
    intro u hu
    rcases mem_atoms_joined hu with hu | ⟨_, hterm, hu⟩
    · exact List.mem_append_left _ (ih u hu)
    · obtain ⟨p, hp, rfl⟩ := List.mem_map.1 hterm
      exact List.mem_append_right _
        (List.mem_flatMap.2 ⟨p, hp, List.mem_cons_of_mem _ (ihrest p hp u hu)⟩)
  | comparison _ _ ih ihrest =>
    intro u hu
    rcases mem_atoms_chained hu with hu | ⟨_, hterm, hu⟩
    · exact List.mem_append_left _ (ih u hu)
    · obtain ⟨p, hp, rfl⟩ := List.mem_map.1 hterm
      exact List.mem_append_right _
        (List.mem_flatMap.2 ⟨p, hp, List.mem_append_right _ (ihrest p hp u hu)⟩)
  | arith _ _ _ ih ihrest =>
    intro u hu
    rcases mem_atoms_foldl hu with hu | ⟨p, hp, hu⟩
    · exact List.mem_append_left _ (ih u hu)
    · exact List.mem_append_right _
        (List.mem_flatMap.2 ⟨p, hp, List.mem_cons_of_mem _ (ihrest p hp u hu)⟩)
  | not _ ih | neg _ ih => exact fun u hu => List.mem_cons_of_mem _ (ih u hu)
  | unnegated _ ih | unsigned _ ih | unapplied _ ih => exact ih
  | call hname _ hlist ih =>
    intro u hu
    rcases List.mem_cons.1 hu with rfl | hu
    · exact List.mem_append_left _ hname.mem
    · obtain ⟨_, hterm, hu⟩ := Term.mem_atomsOf.1 hu
      obtain ⟨p, hp, rfl⟩ := List.mem_map.1 hterm
      have hmem := hlist.mem (List.mem_map_of_mem hp) (ih p hp u hu)
      exact List.mem_append_right _ (List.mem_cons_of_mem _ (List.mem_append_left _ hmem))
  | subscript hname _ ih =>
    intro u hu
    rcases List.mem_cons.1 hu with rfl | hu
    · exact List.mem_append_left _ hname.mem
    · exact List.mem_append_right _
        (List.mem_cons_of_mem _ (List.mem_append_left _ (ih u hu)))
  | parens _ ih =>
    exact fun u hu => List.mem_cons_of_mem _ (List.mem_append_left _ (ih u hu))
  | tuple _ _ hlist ih ihrest =>
    intro u hu
    refine List.mem_cons_of_mem _ ?_
    rcases List.mem_append.1 hu with hu | hu
    · exact List.mem_append_left _ (ih u hu)
    · obtain ⟨_, hterm, hu⟩ := Term.mem_atomsOf.1 hu
      obtain ⟨p, hp, rfl⟩ := List.mem_map.1 hterm
      have hmem := hlist.mem (List.mem_map_of_mem hp) (ihrest p hp u hu)
      exact List.mem_append_right _ (List.mem_cons_of_mem _ (List.mem_append_left _ hmem))
  | int | decimal | str | name => exact fun u hu => hu
  | yes | no | unit => exact fun u hu => nomatch hu

end Tokens

/-! ### Parsing what was printed -/

theorem parse_eq_ok_iff {text : String} {t : Term} :
    parse text = .ok t ↔ ∃ ls, scanFrom 0 text.toList = .ok ls ∧ parseLexemes ls = .ok t := by
  unfold parse scan
  cases scanFrom 0 text.toList with
  | error e =>
    constructor
    · intro h
      cases h
    · rintro ⟨_, hls, -⟩
      cases hls
  | ok ls =>
    refine ⟨fun h => ⟨ls, rfl, ?_⟩, ?_⟩
    · -- a fault only gets its offset
      change (parseLexemes ls).mapError _ = .ok t at h
      cases hparse : parseLexemes ls with
      | error c =>
        rw [hparse] at h
        cases h
      | ok u =>
        rw [hparse] at h
        cases h
        rfl
    · rintro ⟨_, ⟨⟩, hparse⟩
      change (parseLexemes ls).mapError _ = .ok t
      rw [hparse]
      rfl

/-- The canonical text of a term that was parsed is parsed as this term, unless a literal in it
has a quote or a backslash, which the canonical text does not escape. -/
theorem parse_text {text : String} {t : Term} (h : parse text = .ok t)
    (hstr : ∀ s, Token.str s ∈ t.atoms → '\'' ∉ s.toList ∧ '\\' ∉ s.toList) :
    parse t.text = .ok t := by
  obtain ⟨ls, hscan, hparse⟩ := parse_eq_ok_iff.1 h
  have hderives : Derives (.group .or) (tokens ls) t := (parseLexemes_eq_ok_iff ls t).1 hparse
  have hplain : ∀ u ∈ t.atoms, u.Plain := by
    intro u hu
    refine ⟨proper_of_scan hscan u (hderives.atoms_subset u hu), ?_⟩
    rintro s rfl
    exact hstr s hu
  obtain ⟨ls', hscan', htokens⟩ := writes_text t hplain apart_nil scans_nil 0
  rw [List.append_nil] at hscan' htokens
  refine parse_eq_ok_iff.2 ⟨ls', hscan', (parseLexemes_eq_ok_iff ls' t).2 ?_⟩
  rw [htokens]
  exact hderives.rewrites.whole

/-- A rule with a chain of comparisons, a call, a subscript and a tuple of one item. -/
def bridgeRule : String :=
  "not keys[(1)] <= (count)('small key', - 2.50, ) not  in (Bow ,) or x-y*3 >= 1_000"

/-- The term of this rule. -/
def bridgeTerm : Term :=
  .group .or [
    .not (.compare (.subscript "keys" (.int 1))
      [(.le, .call "count" [.str "small key", .neg (.decimal "2.50")]),
        (.notMem, .tuple [.name "Bow"])]),
    .compare (.arith .sub (.name "x") (.arith .mul (.name "y") (.int 3))) [(.ge, .int 1000)]]

theorem parse_text_bridgeTerm :
    parse bridgeRule = .ok bridgeTerm ∧
    parse "(not (keys[1] <= count('small key', -2.50) not in (Bow,))) or ((x - (y * 3)) >= 1000)"
      = .ok bridgeTerm := by
  have hparse : parse bridgeRule = .ok bridgeTerm := by decide +kernel
  have hstr : ∀ s, Token.str s ∈ bridgeTerm.atoms → '\'' ∉ s.toList ∧ '\\' ∉ s.toList := by
    intro s hs
    have hs : s = "small key" := by
      simpa [bridgeTerm, Term.atoms, Term.atomsOf, Term.chainAtoms] using hs
    subst hs
    decide
  have htext : bridgeTerm.text =
      "(not (keys[1] <= count('small key', -2.50) not in (Bow,))) or ((x - (y * 3)) >= 1000)" := by
    decide
  exact ⟨hparse, htext ▸ parse_text hparse hstr⟩

end Progression.Rule
