import Progression.Proofs.Operators

/-!
# Reading follows the grammar

The innermost reader takes values, and whatever stands in parentheses or brackets, where
whole terms are read again.  A closing mark or a comma ends every phrase, so nothing there
is ambiguous.  A name may be called or subscripted, and what is called is seen on the term
and not on the tokens: a phrase that writes a name is this name, perhaps in parentheses.
Whole terms are read again from fewer lexemes than there are, so all levels follow the
grammar by induction on their number.

## Main results

* `follows_value`, `follows_applied` — the innermost readers follow their levels.
* `follows_readTerm` — the reader of terms follows the grammar.
* `parseLexemes_derives` — **tokens that write a term are read as this term, and no other
  is written; tokens that write none are refused.**
-/

namespace Progression.Rule

variable {n : Nat} {inner : Reader n} {ts rest : List Lexeme} {t : Term}

/-! ### Lists and parentheses -/

section Lists

variable {terms : List Term}

theorem gives_list_close {t : Lexeme} {us : List Lexeme} {h : (t :: us).length < n}
    (ht : t.token = .rparen) :
    Gives (readList inner .rparen (t :: us) h) terms rest ↔ [] = terms ∧ us = rest := by
  rw [readList, if_pos ht, gives_ok]

theorem gives_list_term {h : ts.length < n} (hne : (tokens ts).head? ≠ some .rparen) :
    Gives (readList inner .rparen ts h) terms rest ↔
      ∃ v u us, inner.Reads ts v (u :: us) ∧
        ((u.token = .comma ∧ ∃ more, (∃ h, Gives (readList inner .rparen us h) more rest) ∧
          v :: more = terms) ∨
        (u.token = .rparen ∧ [v] = terms ∧ us = rest)) := by
  cases ts with
  | nil =>
    -- nothing is read off no lexemes
    refine ⟨fun hgives => absurd hgives.fewer (Nat.not_lt_zero _), ?_⟩
    rintro ⟨v, u, us, hv, -⟩
    exact absurd hv.fewer (Nat.not_lt_zero _)
  | cons t ts =>
    have ht : t.token ≠ .rparen := by simpa using hne
    rw [readList, if_neg ht, gives_bind]
    constructor
    · rintro ⟨first, hfirst, hgives⟩
      split at hgives
      · exact absurd hgives gives_error
      · next u us hmid =>
        have hv : inner.Reads (t :: ts) first.value (u :: us) := ⟨h, first, hfirst, rfl, hmid⟩
        refine ⟨first.value, u, us, hv, ?_⟩
        dsimp only at hgives
        split at hgives
        · next hcomma =>
          rw [gives_bind] at hgives
          obtain ⟨more, hmore, hgives⟩ := hgives
          obtain ⟨hterms, hrest⟩ := gives_ok.1 hgives
          exact .inl ⟨hcomma, more.value, ⟨_, more, hmore, rfl, hrest⟩, hterms⟩
        · split at hgives
          · next hclose => exact .inr ⟨hclose, gives_ok.1 hgives⟩
          · exact absurd hgives gives_error
    · rintro ⟨v, u, us, ⟨_, first, hfirst, rfl, hmid⟩, hcase⟩
      refine ⟨first, hfirst, ?_⟩
      split
      · next hnil =>
        rw [hmid] at hnil
        cases hnil
      · next u' us' hmid' =>
        rw [hmid] at hmid'
        cases hmid'
        dsimp only
        rcases hcase with ⟨hcomma, more, ⟨_, more', hmore, rfl, rfl⟩, rfl⟩ | ⟨hclose, rfl, rfl⟩
        · rw [if_pos hcomma, gives_bind]
          exact ⟨more', hmore, gives_ok.2 ⟨rfl, rfl⟩⟩
        · rw [if_neg (by simp [hclose]), if_pos hclose, gives_ok]
          exact ⟨rfl, rfl⟩

theorem list_sound (hinner : inner.Follows (.group .or)) {h : ts.length < n}
    (hgives : Gives (readList inner .rparen ts h) terms rest) :
    ∃ (ps : List Phrase) (vs : List Token),
      (∀ p ∈ ps, Derives (.group .or) p.tokens p.term) ∧ ps.map Phrase.term = terms ∧
      Listed (ps.map Phrase.tokens) vs ∧ tokens ts = vs ++ .rparen :: tokens rest := by
  induction hlength : ts.length using Nat.strongRecOn generalizing ts terms with
  | _ k ih =>
    by_cases hclose : (tokens ts).head? = some .rparen
    · obtain ⟨vs, hvs⟩ : ∃ vs, tokens ts = .rparen :: vs := by
        cases hts : tokens ts <;> simp_all
      obtain ⟨t, us, rfl, ht, -⟩ := tokens_eq_cons hvs
      obtain ⟨rfl, rfl⟩ := (gives_list_close ht).1 hgives
      exact ⟨[], [], by simp, rfl, .nil, by simp [ht]⟩
    · obtain ⟨v, u, us, hv, hcase⟩ := (gives_list_term hclose).1 hgives
      obtain ⟨ws, hws, hderives⟩ := hinner.sound hv
      have hfewer := hv.fewer
      rcases hcase with ⟨hcomma, more, ⟨_, hmore⟩, rfl⟩ | ⟨hu, rfl, rfl⟩
      · have hlt : us.length < k := by
          rw [List.length_cons] at hfewer
          omega
        obtain ⟨ps, vs, hps, rfl, hlisted, htail⟩ := ih us.length hlt hmore rfl
        refine ⟨⟨ws, v⟩ :: ps, ws ++ .comma :: vs, List.forall_mem_cons.2 ⟨hderives, hps⟩, rfl,
          hlisted.cons ws, ?_⟩
        simp [hws, hcomma, htail]
      · refine ⟨[⟨ws, v⟩], ws, by simpa using hderives, rfl, .last ws, ?_⟩
        simp [hws, hu]

theorem group_ends {u : Token} (hu : u.looseness = 7) (vs : List Token) :
    (Level.group .or).Ends (u :: vs) := by
  rw [Level.ends_cons, hu]
  decide

/-- No term begins with a closing parenthesis. -/
theorem head_ne_rparen {us vs : List Token} (h : Derives (.group .or) us t)
    (hts : tokens ts = us ++ vs) : (tokens ts).head? ≠ some .rparen := by
  obtain ⟨u, us', rfl, hu⟩ := h.begins
  rw [hts, List.cons_append, List.head?_cons]
  rintro ⟨⟩
  cases hu

theorem list_complete (hinner : inner.Follows (.group .or)) {ps : List Phrase}
    {vs ws : List Token} (hlisted : Listed (ps.map Phrase.tokens) vs)
    (hps : ∀ p ∈ ps, Derives (.group .or) p.tokens p.term) {ts : List Lexeme} (h : ts.length < n)
    (hts : tokens ts = vs ++ .rparen :: ws) :
    ∃ rest, tokens rest = ws ∧ Gives (readList inner .rparen ts h) (ps.map Phrase.term) rest := by
  generalize hparts : ps.map Phrase.tokens = parts at hlisted
  induction hlisted generalizing ps ts with
  | nil =>
    obtain rfl := List.map_eq_nil_iff.1 hparts
    obtain ⟨t, us, rfl, ht, hus⟩ := tokens_eq_cons hts
    exact ⟨us, hus, (gives_list_close ht).2 ⟨rfl, rfl⟩⟩
  | last us =>
    obtain ⟨p, rfl, rfl⟩ := List.map_eq_singleton_iff.1 hparts
    have hp := hps p List.mem_cons_self
    obtain ⟨mid, hmid, hreads⟩ := hinner.complete h hts hp (group_ends rfl ws)
    obtain ⟨u, rest, rfl, hu, hrest⟩ := tokens_eq_cons hmid
    exact ⟨rest, hrest, (gives_list_term (head_ne_rparen hp hts)).2
      ⟨p.term, u, rest, hreads, .inr ⟨hu, rfl, rfl⟩⟩⟩
  | @cons us parts vs _ ih =>
    obtain ⟨p, ps, rfl, rfl, rfl⟩ := List.map_eq_cons_iff.1 hparts
    obtain ⟨hp, hps⟩ := List.forall_mem_cons.1 hps
    rw [List.append_assoc, List.cons_append] at hts
    obtain ⟨mid, hmid, hreads⟩ := hinner.complete h hts hp (group_ends rfl _)
    obtain ⟨u, us, rfl, hu, hus⟩ := tokens_eq_cons hmid
    have hlt : us.length < n := Nat.lt_of_succ_lt (Nat.lt_trans hreads.fewer h)
    obtain ⟨rest, hrest, hmore⟩ := ih hps hlt hus rfl
    exact ⟨rest, hrest, (gives_list_term (head_ne_rparen hp hts)).2
      ⟨p.term, u, us, hreads, .inl ⟨hu, _, ⟨hlt, hmore⟩, rfl⟩⟩⟩

end Lists

/-! ### Values -/

theorem startsWith_iff {u : Token} : startsWith u ts = true ↔ (tokens ts).head? = some u := by
  cases ts <;> simp [startsWith]

/-- Nothing, a term, or a tuple stands in parentheses. -/
theorem gives_parenthesized_of_ne {h : ts.length < n} (hne : (tokens ts).head? ≠ some .rparen) :
    Gives (readParenthesized inner ts h) t rest ↔
      ∃ v u us, inner.Reads ts v (u :: us) ∧
        ((u.token = .rparen ∧ v = t ∧ us = rest) ∨
        (u.token = .comma ∧ ∃ items, (∃ h, Gives (readList inner .rparen us h) items rest) ∧
          .tuple (v :: items) = t)) := by
  rw [readParenthesized, dif_neg (by rwa [startsWith_iff]), gives_bind]
  constructor
  · rintro ⟨first, hfirst, hgives⟩
    split at hgives
    · exact absurd hgives gives_error
    · next u us hmid =>
      refine ⟨first.value, u, us, ⟨h, first, hfirst, rfl, hmid⟩, ?_⟩
      dsimp only at hgives
      split at hgives
      · next hclose => exact .inl ⟨hclose, gives_ok.1 hgives⟩
      · split at hgives
        · next hcomma =>
          rw [gives_bind] at hgives
          obtain ⟨items, hitems, hgives⟩ := hgives
          obtain ⟨ht, hrest⟩ := gives_ok.1 hgives
          exact .inr ⟨hcomma, items.value, ⟨_, items, hitems, rfl, hrest⟩, ht⟩
        · exact absurd hgives gives_error
  · rintro ⟨v, u, us, ⟨_, first, hfirst, rfl, hmid⟩, hcase⟩
    refine ⟨first, hfirst, ?_⟩
    split
    · next hnil =>
      rw [hmid] at hnil
      cases hnil
    · next u' us' hmid' =>
      rw [hmid] at hmid'
      cases hmid'
      dsimp only
      rcases hcase with ⟨hclose, rfl, rfl⟩ | ⟨hcomma, items, ⟨_, items', hitems, rfl, rfl⟩, rfl⟩
      · rw [if_pos hclose, gives_ok]
        exact ⟨rfl, rfl⟩
      · rw [if_neg (by simp [hcomma]), if_pos hcomma, gives_bind]
        exact ⟨items', hitems, gives_ok.2 ⟨rfl, rfl⟩⟩

theorem gives_parenthesized_close {u : Lexeme} {us : List Lexeme} {h : (u :: us).length < n}
    (hu : u.token = .rparen) :
    Gives (readParenthesized inner (u :: us) h) t rest ↔ .tuple [] = t ∧ us = rest := by
  rw [readParenthesized, dif_pos (by simp [startsWith_iff, hu]), gives_ok]
  rfl

theorem parenthesized_sound (hinner : inner.Follows (.group .or)) {h : ts.length < n}
    (hgives : Gives (readParenthesized inner ts h) t rest) :
    ∃ us, tokens ts = us ++ tokens rest ∧ Derives .value (.lparen :: us) t := by
  by_cases hclose : (tokens ts).head? = some .rparen
  · obtain ⟨vs, hvs⟩ := List.head?_eq_some_iff.1 hclose
    obtain ⟨u, us, rfl, hu, -⟩ := tokens_eq_cons hvs
    obtain ⟨rfl, rfl⟩ := (gives_parenthesized_close hu).1 hgives
    exact ⟨[.rparen], by simp [hu], .unit⟩
  · obtain ⟨v, u, us, hv, hcase⟩ := (gives_parenthesized_of_ne hclose).1 hgives
    obtain ⟨ws, hws, hderives⟩ := hinner.sound hv
    rcases hcase with ⟨hu, rfl, rfl⟩ | ⟨hu, items, ⟨_, hitems⟩, rfl⟩
    · exact ⟨ws ++ [.rparen], by simp [hws, hu], hderives.parens⟩
    · obtain ⟨ps, vs, hps, rfl, hlisted, htail⟩ := list_sound hinner hitems
      exact ⟨ws ++ .comma :: (vs ++ [.rparen]), by simp [hws, hu, htail],
        .tuple hderives hps hlisted⟩

theorem parenthesized_complete (hinner : inner.Follows (.group .or)) {us vs : List Token}
    (h : ts.length < n) (hts : tokens ts = us ++ vs) (hderives : Derives .value (.lparen :: us) t) :
    ∃ rest, tokens rest = vs ∧ Gives (readParenthesized inner ts h) t rest := by
  generalize hlparen : Token.lparen :: us = ws at hderives
  cases hderives with
  | unit =>
    cases hlparen
    obtain ⟨u, rest, rfl, hu, hrest⟩ := tokens_eq_cons hts
    exact ⟨rest, hrest, (gives_parenthesized_close hu).2 ⟨rfl, rfl⟩⟩
  | @parens ws _ hinside =>
    cases hlparen
    rw [List.append_assoc] at hts
    obtain ⟨mid, hmid, hreads⟩ := hinner.complete h hts hinside (group_ends rfl vs)
    obtain ⟨u, rest, rfl, hu, hrest⟩ := tokens_eq_cons hmid
    exact ⟨rest, hrest, (gives_parenthesized_of_ne (head_ne_rparen hinside hts)).2
      ⟨_, u, rest, hreads, .inl ⟨hu, rfl, rfl⟩⟩⟩
  | @tuple ws xs _ ps hfirst hps hlisted =>
    cases hlparen
    rw [List.append_assoc, List.cons_append] at hts
    obtain ⟨mid, hmid, hreads⟩ := hinner.complete h hts hfirst (group_ends rfl _)
    obtain ⟨u, us, rfl, hu, hus⟩ := tokens_eq_cons hmid
    have hlt : us.length < n := Nat.lt_of_succ_lt (Nat.lt_trans hreads.fewer h)
    rw [List.append_assoc] at hus
    obtain ⟨rest, hrest, hitems⟩ := list_complete hinner hlisted hps hlt hus
    exact ⟨rest, hrest, (gives_parenthesized_of_ne (head_ne_rparen hfirst hts)).2
      ⟨_, u, us, hreads, .inr ⟨hu, _, ⟨hlt, hitems⟩, rfl⟩⟩⟩
  | _ => cases hlparen

/-- Literals, names, and what stands in parentheses. -/
theorem follows_value (hinner : inner.Follows (.group .or)) : (readValue inner).Follows .value where
  sound {ts t rest} hreads := by
    obtain ⟨h, hgives⟩ := hreads
    cases ts with
    | nil => exact absurd hgives gives_error
    | cons u us =>
      obtain ⟨o, u⟩ := u
      cases u with
      | int k =>
        obtain ⟨rfl, rfl⟩ := gives_ok.1 hgives
        exact ⟨[.int k], rfl, .int k⟩
      | decimal digits =>
        obtain ⟨rfl, rfl⟩ := gives_ok.1 hgives
        exact ⟨[.decimal digits], rfl, .decimal digits⟩
      | str s =>
        obtain ⟨rfl, rfl⟩ := gives_ok.1 hgives
        exact ⟨[.str s], rfl, .str s⟩
      | ident word =>
        simp only [readValue] at hgives
        split at hgives
        · next hword =>
          obtain ⟨rfl, rfl⟩ := gives_ok.1 hgives
          exact ⟨[.ident word], rfl, hword ▸ .yes⟩
        · next hyes =>
          split at hgives
          · next hword =>
            obtain ⟨rfl, rfl⟩ := gives_ok.1 hgives
            exact ⟨[.ident word], rfl, hword ▸ .no⟩
          · next hno =>
            split at hgives
            · exact absurd hgives gives_error
            · next hkeyword =>
              obtain ⟨rfl, rfl⟩ := gives_ok.1 hgives
              exact ⟨[.ident word], rfl, .name (by simp [isName, hkeyword, hyes, hno])⟩
      | lparen =>
        simp only [readValue] at hgives
        obtain ⟨p, hp, rfl, rfl⟩ := gives_map.1 hgives
        obtain ⟨vs, hvs, hderives⟩ := parenthesized_sound hinner ⟨p, hp, rfl, rfl⟩
        exact ⟨.lparen :: vs, by simp [hvs], hderives⟩
      | _ => exact absurd hgives gives_error
  complete {ts us vs t} h hts hderives _ := by
    obtain ⟨u, us, rfl, hu⟩ := hderives.begins
    obtain ⟨⟨o, u⟩, ts, rfl, rfl, htail⟩ := tokens_eq_cons hts
    cases u with
    | int | decimal | str =>
      cases hderives
      exact ⟨ts, htail, h, gives_ok.2 ⟨rfl, rfl⟩⟩
    | ident word =>
      refine ⟨ts, ?_⟩
      cases hderives with
      | yes | no => exact ⟨htail, h, by simp [readValue]⟩
      | name hw =>
        simp only [isName, Bool.and_eq_true, Bool.not_eq_true', bne_iff_ne] at hw
        exact ⟨htail, h, by simp [readValue, hw]⟩
    | lparen =>
      have hlt : ts.length < n := Nat.lt_of_succ_lt_succ h
      obtain ⟨rest, hrest, p, hp, rfl, rfl⟩ := parenthesized_complete hinner hlt htail hderives
      refine ⟨p.rest, hrest, h, ?_⟩
      simp only [readValue]
      exact gives_map.2 ⟨p, hp, rfl, rfl⟩
    | _ => cases hu

/-! ### Calls and subscripts -/

theorem applied_ends_cons {u : Token} {vs : List Token} :
    Level.applied.Ends (u :: vs) ↔ ¬ (u = .lparen ∨ u = .lbracket) := by
  rw [Level.ends_cons]
  cases u with
  | ident word =>
    simp only [Token.looseness, reduceCtorEq, or_self, not_false_eq_true, iff_true]
    repeat' split
    all_goals decide
  | _ => simp [Level.looseness, Token.looseness]

theorem applied_ends_iff :
    Level.applied.Ends (tokens ts) ↔
      (startsWith .lparen ts || startsWith .lbracket ts) = false := by
  cases ts with
  | nil => simp [startsWith, Level.ends_nil]
  | cons u us => simp [startsWith, applied_ends_cons]

/-- What follows a name with arguments or a key. -/
inductive Applies (inner : Reader n) (w : String) (u : Token) (us : List Lexeme) :
    Term → List Lexeme → Prop where
  | call {args : List Term} {rest : List Lexeme} {h : us.length < n} (hu : u = .lparen)
    (hargs : Gives (readList inner .rparen us h) args rest)
    (hends : Level.applied.Ends (tokens rest)) : Applies inner w u us (.call w args) rest
  | subscript {key : Term} {u' : Lexeme} {rest : List Lexeme} (hu : u = .lbracket)
    (hkey : inner.Reads us key (u' :: rest)) (hu' : u'.token = .rbracket) :
    Applies inner w u us (.subscript w key) rest

/-- A value ends, or it is a name and is called or subscripted. -/
theorem applies_of_reads (hreads : (readPostfix inner).Reads ts t rest) :
    ∃ v mid, (readValue inner).Reads ts v mid ∧
      ((Level.applied.Ends (tokens mid) ∧ v = t ∧ mid = rest) ∨
      ∃ w u us, v = .name w ∧ mid = u :: us ∧ Applies inner w u.token us t rest) := by
  obtain ⟨h, hgives⟩ := hreads
  rw [readPostfix, gives_bind] at hgives
  obtain ⟨head, hhead, hgives⟩ := hgives
  have hv : (readValue inner).Reads ts head.value head.rest := ⟨h, head, hhead, rfl, rfl⟩
  refine ⟨head.value, head.rest, hv, ?_⟩
  split at hgives
  · next hnil =>
    obtain ⟨rfl, rfl⟩ := gives_ok.1 hgives
    exact .inl ⟨by rw [hnil]; exact Level.ends_nil _, rfl, rfl⟩
  · next u us hcons =>
    dsimp only at hgives
    split at hgives
    · next hopen =>
      split at hgives
      · next w hw =>
        refine .inr ⟨w, u, us, hw, hcons, ?_⟩
        split at hgives
        · next hu =>
          rw [gives_bind] at hgives
          obtain ⟨args, hargs, hgives⟩ := hgives
          split at hgives
          · exact absurd hgives gives_error
          · next hends =>
            obtain ⟨rfl, rfl⟩ := gives_ok.1 hgives
            exact .call hu ⟨args, hargs, rfl, rfl⟩ (applied_ends_iff.2 (by simpa using hends))
        · next hu =>
          rw [gives_bind] at hgives
          obtain ⟨key, hkey, hgives⟩ := hgives
          split at hgives
          · next hclose =>
            obtain ⟨rfl, rfl⟩ := gives_ok.1 hgives
            obtain ⟨_, hvs⟩ := List.head?_eq_some_iff.1 (startsWith_iff.1 hclose)
            obtain ⟨u', rest, hrest, hu', -⟩ := tokens_eq_cons hvs
            have hafter : key.rest = u' :: key.rest.tail := by rw [hrest, List.tail_cons]
            exact .subscript (hopen.resolve_left hu) ⟨_, key, hkey, rfl, hafter⟩ hu'
          · exact absurd hgives gives_error
      · exact absurd hgives gives_error
    · next hother =>
      obtain ⟨rfl, rfl⟩ := gives_ok.1 hgives
      exact .inl ⟨by rw [hcons]; exact applied_ends_cons.2 hother, rfl, rfl⟩

/-- A value stands alone if neither a call nor a subscript follows. -/
theorem reads_of_ends (hv : (readValue inner).Reads ts t rest)
    (hends : Level.applied.Ends (tokens rest)) : (readPostfix inner).Reads ts t rest := by
  obtain ⟨h, head, hhead, rfl, rfl⟩ := hv
  refine ⟨h, ?_⟩
  rw [readPostfix, gives_bind]
  refine ⟨head, hhead, ?_⟩
  split
  · exact gives_ok.2 ⟨rfl, rfl⟩
  · next u us hcons =>
    rw [hcons] at hends
    dsimp only
    rw [if_neg (applied_ends_cons.1 hends)]
    exact gives_ok.2 ⟨rfl, rfl⟩

/-- A name is called or subscripted if arguments or a key follow. -/
theorem reads_of_applies {w : String} {u : Lexeme} {us : List Lexeme}
    (hv : (readValue inner).Reads ts (.name w) (u :: us))
    (happlies : Applies inner w u.token us t rest) : (readPostfix inner).Reads ts t rest := by
  obtain ⟨h, head, hhead, hw, hmid⟩ := hv
  refine ⟨h, ?_⟩
  rw [readPostfix, gives_bind]
  refine ⟨head, hhead, ?_⟩
  split
  · next hnil =>
    rw [hmid] at hnil
    cases hnil
  · next u' us' hcons =>
    rw [hmid] at hcons
    cases hcons
    dsimp only
    cases happlies with
    | call hu hargs hends =>
      obtain ⟨args, hargs, rfl, rfl⟩ := hargs
      rw [if_pos (.inl hu)]
      split
      · next w' hw' =>
        rw [hw] at hw'
        cases hw'
        rw [if_pos hu, gives_bind]
        refine ⟨args, hargs, ?_⟩
        rw [applied_ends_iff.1 hends]
        exact gives_ok.2 ⟨rfl, rfl⟩
      · next hother => exact absurd hw (hother w)
    | subscript hu hkey hu' =>
      obtain ⟨_, key, hkey, rfl, hafter⟩ := hkey
      have hclose : startsWith .rbracket key.rest = true :=
        startsWith_iff.2 (by rw [hafter, tokens_cons, hu', List.head?_cons])
      rw [if_pos (.inr hu)]
      split
      · next w' hw' =>
        rw [hw] at hw'
        cases hw'
        rw [if_neg (by simp [hu]), gives_bind]
        refine ⟨key, hkey, ?_⟩
        rw [dif_pos hclose]
        have htail : key.rest.tail = _ := congrArg List.tail hafter
        exact gives_ok.2 ⟨rfl, htail⟩
      · next hother => exact absurd hw (hother w)

/-- A name is read up to a token that cannot go on with a value. -/
theorem reads_name (hinner : inner.Follows (.group .or)) {w : String} {v : Token}
    {us vs : List Token} (h : ts.length < n + 1) (hname : Named us w)
    (hts : tokens ts = us ++ v :: vs) (hends : Level.value.Ends (v :: vs)) :
    ∃ u rest, (readValue inner).Reads ts (.name w) (u :: rest) ∧ u.token = v ∧
      tokens rest = vs ∧ rest.length < n := by
  obtain ⟨mid, hmid, hreads⟩ := (follows_value hinner).complete h hts hname.derives hends
  obtain ⟨u, rest, rfl, hu, hrest⟩ := tokens_eq_cons hmid
  have hfewer := hreads.fewer
  rw [List.length_cons] at hfewer
  exact ⟨u, rest, hreads, hu, hrest, by omega⟩

/-- Values, and names that are called or subscripted. -/
theorem follows_applied (hinner : inner.Follows (.group .or)) :
    (readPostfix inner).Follows .applied where
  sound hreads := by
    obtain ⟨v, mid, hv, hcase⟩ := applies_of_reads hreads
    obtain ⟨us, hus, hderives⟩ := (follows_value hinner).sound hv
    rcases hcase with ⟨-, rfl, rfl⟩ | ⟨w, u, rest', rfl, rfl, happlies⟩
    · exact ⟨us, hus, hderives.unapplied⟩
    · have hname : Named us w := hderives.named rfl
      cases happlies with
      | call hu hargs _ =>
        obtain ⟨ps, vs, hps, rfl, hlisted, htail⟩ := list_sound hinner hargs
        exact ⟨us ++ .lparen :: (vs ++ [.rparen]), by simp [hus, hu, htail],
          .call hname hps hlisted⟩
      | subscript hu hkey hu' =>
        obtain ⟨vs, hvs, hderives⟩ := hinner.sound hkey
        exact ⟨us ++ .lbracket :: (vs ++ [.rbracket]), by simp [hus, hu, hvs, hu'],
          .subscript hname hderives⟩
  complete {ts us vs t} h hts hderives hends := by
    cases hderives with
    | unapplied hvalue =>
      obtain ⟨rest, rfl, hreads⟩ :=
        (follows_value hinner).complete h hts hvalue (hends.mono (by decide))
      exact ⟨rest, rfl, reads_of_ends hreads hends⟩
    | @call us ws w ps hname hps hlisted =>
      rw [List.append_assoc, List.cons_append, List.append_assoc] at hts
      obtain ⟨u, us, hreads, hu, hus, hlt⟩ :=
        reads_name hinner h hname hts (Level.ends_cons.2 (by decide))
      obtain ⟨rest, rfl, hargs⟩ := list_complete hinner hlisted hps hlt hus
      exact ⟨rest, rfl, reads_of_applies hreads (.call hu hargs hends)⟩
    | @subscript us ws w key hname hkey =>
      rw [List.append_assoc, List.cons_append, List.append_assoc] at hts
      obtain ⟨u, us, hreads, hu, hus, hlt⟩ :=
        reads_name hinner h hname hts (Level.ends_cons.2 (by decide))
      obtain ⟨mid, hmid, hkey⟩ := hinner.complete hlt hus hkey (group_ends rfl vs)
      obtain ⟨u', rest, rfl, hu', hrest⟩ := tokens_eq_cons hmid
      exact ⟨rest, hrest, reads_of_applies hreads (.subscript hu hkey hu')⟩

/-! ### Terms -/

/-- All levels over a reader of shorter terms. -/
theorem follows_levels (hinner : inner.Follows (.group .or)) :
    (readLevels inner).Follows (.group .or) := by
  have hsigned : (readSigned (readPostfix inner)).Follows .signed :=
    follows_signed (follows_applied hinner)
  have hsum : (readArith additive? (readArith multiplicative?
      (readSigned (readPostfix inner)))).Follows (.arith .additive) :=
    follows_arith .additive (follows_arith .multiplicative hsigned)
  exact follows_group .or (follows_group .and (follows_negated (follows_comparison hsum)))

/-- The reader of terms, on lists of fewer lexemes than a bound. -/
def below (n : Nat) : Reader n := fun ts _ => readTerm ts

/-- Terms are read by the levels over the reader of terms with fewer lexemes. -/
theorem follows_readTerm (n : Nat) : (below n).Follows (.group .or) := by
  induction n using Nat.strongRecOn with
  | _ n ih =>
    have hlevels : ∀ ts : List Lexeme, ts.length < n →
        (readLevels (below ts.length)).Follows (.group .or) :=
      fun ts h => follows_levels (ih ts.length h)
    have hreads : ∀ ts t rest, (below n).Reads ts t rest ↔
        ts.length < n ∧ (readLevels (below ts.length)).Reads ts t rest := by
      intro ts t rest
      unfold Reader.Reads below
      rw [readTerm]
      constructor
      · rintro ⟨h, hgives⟩
        exact ⟨h, _, hgives⟩
      · rintro ⟨h, _, hgives⟩
        exact ⟨h, hgives⟩
    refine ⟨fun {ts t rest} h => ?_, fun {ts us vs t} h hts hderives hends => ?_⟩
    · obtain ⟨hlt, h⟩ := (hreads ts t rest).1 h
      exact (hlevels ts hlt).sound h
    · obtain ⟨rest, hrest, hr⟩ :=
        (hlevels ts h).complete (Nat.lt_succ_self _) hts hderives hends
      exact ⟨rest, hrest, (hreads ts t rest).2 ⟨h, hr⟩⟩

/-- A list of lexemes is read as a term exactly if its tokens write the term. -/
theorem parseLexemes_eq_ok_iff (ts : List Lexeme) (t : Term) :
    parseLexemes ts = .ok t ↔ Derives (.group .or) (tokens ts) t := by
  have hfollows := follows_readTerm (ts.length + 1)
  have hlt : ts.length < ts.length + 1 := Nat.lt_succ_self _
  constructor
  · intro h
    cases hp : readTerm ts with
    | error c =>
      rw [parseLexemes, hp] at h
      cases h
    | ok p =>
      obtain ⟨us, hus, hderives⟩ := hfollows.sound ⟨hlt, p, hp, rfl, rfl⟩
      simp only [parseLexemes, hp, bind, Except.bind] at h
      split at h
      · next hnil =>
        cases h
        rw [hnil, tokens_nil, List.append_nil] at hus
        rwa [hus]
      · cases h
  · intro h
    obtain ⟨rest, hrest, _, p, hp, rfl, rfl⟩ :=
      hfollows.complete hlt (List.append_nil _).symm h (Level.ends_nil _)
    have hnil : p.rest = [] := List.map_eq_nil_iff.1 hrest
    have hread : readTerm ts = .ok p := hp
    simp only [parseLexemes, hread, bind, Except.bind, hnil]

/-- Some term is read, and it is the one that the tokens write; or the tokens are no rule. -/
theorem parseLexemes_derives (ts : List Lexeme) :
    (∃ t, parseLexemes ts = .ok t ∧ ∀ u, Derives (.group .or) (tokens ts) u ↔ u = t) ∨
      (∃ c, parseLexemes ts = .error c ∧ ∀ u, ¬ Derives (.group .or) (tokens ts) u) := by
  cases hread : parseLexemes ts with
  | ok t =>
    refine .inl ⟨t, rfl, fun u => ?_⟩
    rw [← parseLexemes_eq_ok_iff, hread, Except.ok.injEq, eq_comm]
  | error c =>
    refine .inr ⟨c, rfl, fun u => ?_⟩
    rw [← parseLexemes_eq_ok_iff, hread]
    exact nofun

end Progression.Rule
