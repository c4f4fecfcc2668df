import Progression.Proofs.Grammar

/-!
# Reading operators

Every reader follows one level of the grammar, and the reader of a level follows it if the
reader of its operands follows theirs.  It is sound: what it takes is a phrase that writes
its term.  And it is complete: if the tokens start with a phrase, and what comes next cannot
go on with it, it takes this phrase and no more.  What comes after an operand is an operator
of its level, which cannot go on with a phrase so tight, or it is what ends the whole phrase.

## Main definitions

* `Gives`, `Reader.Reads` — what is read and what is left.
* `Reader.Follows` — a reader is sound and complete for a level.

## Main results

* `follows_group`, `follows_negated`, `follows_comparison`, `follows_arith`,
  `follows_signed` — the readers of operators follow their levels.
-/

namespace Progression.Rule

/-- The tokens of lexemes. -/
def tokens (ts : List Lexeme) : List Token := ts.map Lexeme.token

@[simp] theorem tokens_nil : tokens [] = [] := rfl

@[simp] theorem tokens_cons (t : Lexeme) (ts : List Lexeme) :
    tokens (t :: ts) = t.token :: tokens ts := rfl

/-- A first token belongs to a first lexeme. -/
theorem tokens_eq_cons {ts : List Lexeme} {u : Token} {vs : List Token}
    (h : tokens ts = u :: vs) : ∃ t rest, ts = t :: rest ∧ t.token = u ∧ tokens rest = vs :=
  List.map_eq_cons_iff.1 h

/-! ### What is read -/

section Gives

variable {α β : Type} {k m : Nat}

/-- Something is read, and some lexemes are left. -/
def Gives (r : Except Complaint (Parsed α k)) (a : α) (rest : List Lexeme) : Prop :=
  ∃ p, r = .ok p ∧ p.value = a ∧ p.rest = rest

@[simp] theorem gives_ok {p : Parsed α k} {a : α} {rest : List Lexeme} :
    Gives (.ok p) a rest ↔ p.value = a ∧ p.rest = rest := by
  constructor
  · rintro ⟨_, ⟨⟩, h⟩
    exact h
  · intro h
    exact ⟨p, rfl, h⟩

@[simp] theorem gives_error {c : Complaint} {a : α} {rest : List Lexeme} :
    ¬ Gives (.error c : Except Complaint (Parsed α k)) a rest := by
  rintro ⟨_, h, -⟩
  cases h

theorem gives_bind {r : Except Complaint (Parsed α k)}
    {f : Parsed α k → Except Complaint (Parsed β m)} {b : β} {rest : List Lexeme} :
    Gives (r >>= f) b rest ↔ ∃ p, r = .ok p ∧ Gives (f p) b rest := by
  cases r with
  | error c =>
    refine ⟨fun h => absurd h gives_error, ?_⟩
    rintro ⟨_, h, -⟩
    cases h
  | ok p =>
    refine ⟨fun h => ⟨p, rfl, h⟩, ?_⟩
    rintro ⟨_, ⟨⟩, h⟩
    exact h

theorem gives_map {r : Except Complaint (Parsed α k)} {f : Parsed α k → Parsed β m} {b : β}
    {rest : List Lexeme} :
    Gives (r.map f) b rest ↔ ∃ p, r = .ok p ∧ (f p).value = b ∧ (f p).rest = rest := by
  cases r with
  | error c =>
    refine ⟨fun h => absurd h gives_error, ?_⟩
    rintro ⟨_, h, -⟩
    cases h
  | ok p =>
    refine ⟨fun h => ⟨p, rfl, gives_ok.1 h⟩, ?_⟩
    rintro ⟨_, ⟨⟩, h⟩
    exact gives_ok.2 h

/-- Something is taken. -/
theorem Gives.fewer {r : Except Complaint (Parsed α k)} {a : α} {rest : List Lexeme}
    (h : Gives r a rest) : rest.length < k := by
  obtain ⟨p, -, -, rfl⟩ := h
  exact p.fewer

end Gives

variable {n : Nat} {operand : Reader n} {ts rest : List Lexeme} {t : Term}

/-- A reader reads a term off the front of some lexemes. -/
def Reader.Reads (r : Reader n) (ts : List Lexeme) (t : Term) (rest : List Lexeme) : Prop :=
  ∃ h, Gives (r ts h) t rest

theorem Reader.Reads.fewer {r : Reader n} (h : r.Reads ts t rest) : rest.length < ts.length := by
  obtain ⟨_, h⟩ := h
  exact h.fewer

/-- A term is read, and something else after it. -/
theorem gives_then {β γ : Type} {m : Nat} {r : Reader n} {h : ts.length < n}
    (tail : Term → (us : List Lexeme) → us.length < n → Except Complaint (Parsed β (us.length + 1)))
    {hmid : ∀ p : Parsed Term ts.length, p.rest.length < n}
    {g : (p : Parsed Term ts.length) → Parsed β (p.rest.length + 1) → Parsed γ m}
    (f : Term → β → γ)
    (hg : ∀ p q, (g p q).value = f p.value q.value ∧ (g p q).rest = q.rest) {c : γ} :
    Gives (r ts h >>= fun p => tail p.value p.rest (hmid p) >>= fun q => .ok (g p q)) c rest ↔
      ∃ v mid, r.Reads ts v mid ∧ ∃ w, (∃ h, Gives (tail v mid h) w rest) ∧ f v w = c := by
  rw [gives_bind]
  constructor
  · rintro ⟨p, hp, hq⟩
    obtain ⟨q, hq, hgives⟩ := gives_bind.1 hq
    obtain ⟨hc, hrest⟩ := gives_ok.1 hgives
    rw [(hg p q).1] at hc
    rw [(hg p q).2] at hrest
    exact ⟨p.value, p.rest, ⟨h, p, hp, rfl, rfl⟩, q.value, ⟨hmid p, q, hq, rfl, hrest⟩, hc⟩
  · rintro ⟨_, _, ⟨_, p, hp, rfl, rfl⟩, _, ⟨_, q, hq, rfl, rfl⟩, rfl⟩
    exact ⟨p, hp, gives_bind.2 ⟨q, hq, gives_ok.2 (hg p q)⟩⟩

/-- A reader that starts with another one reads where that one does. -/
theorem reads_of_gives {r r' : Reader n} {Q : Term → List Lexeme → Prop}
    (hgives : ∀ h, Gives (r' ts h) t rest ↔ ∃ v mid, r.Reads ts v mid ∧ Q v mid) :
    r'.Reads ts t rest ↔ ∃ v mid, r.Reads ts v mid ∧ Q v mid := by
  constructor
  · rintro ⟨h, hr⟩
    exact (hgives h).1 hr
  · intro hparts
    obtain ⟨_, _, ⟨h, -⟩, -⟩ := id hparts
    exact ⟨h, (hgives h).2 hparts⟩

/-- A reader reads the phrases of a level: it takes nothing else, and it takes a phrase
whole when what comes next cannot go on with it. -/
structure Reader.Follows (r : Reader n) (l : Level) : Prop where
  sound : ∀ {ts t rest}, r.Reads ts t rest →
    ∃ us, tokens ts = us ++ tokens rest ∧ Derives l us t
  complete : ∀ {ts us vs t}, ts.length < n → tokens ts = us ++ vs → Derives l us t → l.Ends vs →
    ∃ rest, tokens rest = vs ∧ r.Reads ts t rest

/-- What ends a phrase also ends it behind a run of operators that do. -/
theorem Level.Ends.flatMap {α : Type} {l : Level} {vs : List Token} (h : l.Ends vs)
    (f : α → List Token) (ps : List α)
    (hf : ∀ p ∈ ps, ∃ u us, f p = u :: us ∧ l.looseness < u.looseness) :
    l.Ends (ps.flatMap f ++ vs) := by
  cases ps with
  | nil => exact h
  | cons p ps =>
    obtain ⟨u, us, hp, hu⟩ := hf p List.mem_cons_self
    rw [List.flatMap_cons, hp]
    exact Level.ends_cons.2 hu

/-! ### Connectives -/

section Groups

variable {op : Connective} {terms : List Term}

theorem gives_groupTail_of_ne {h : ts.length < n}
    (hne : (tokens ts).head? ≠ some (.ident op.word)) :
    Gives (readGroupTail op operand ts h) terms rest ↔ [] = terms ∧ ts = rest := by
  cases ts with
  | nil => rw [readGroupTail, gives_ok]
  | cons u us =>
    have hu : u.token ≠ .ident op.word := by simpa using hne
    rw [readGroupTail, if_neg hu, gives_ok]

theorem gives_groupTail_cons {u : Lexeme} {us : List Lexeme} {h : (u :: us).length < n}
    (hu : u.token = .ident op.word) :
    Gives (readGroupTail op operand (u :: us) h) terms rest ↔
      ∃ v mid, operand.Reads us v mid ∧
        ∃ more, (∃ h, Gives (readGroupTail op operand mid h) more rest) ∧ v :: more = terms := by
  rw [readGroupTail, if_pos hu]
  exact gives_then (fun _ => readGroupTail op operand) List.cons fun _ _ => ⟨rfl, rfl⟩

theorem reads_group :
    (readGroup op operand).Reads ts t rest ↔
      ∃ v mid, operand.Reads ts v mid ∧
        ∃ more, (∃ h, Gives (readGroupTail op operand mid h) more rest) ∧ joined op v more = t :=
  reads_of_gives fun _ =>
    gives_then (fun _ => readGroupTail op operand) (joined op) fun _ _ => ⟨rfl, rfl⟩

theorem operand_lt (op : Connective) : op.operand.looseness < (Token.ident op.word).looseness := by
  cases op <;> decide

theorem operand_le (op : Connective) : op.operand.looseness ≤ (Level.group op).looseness := by
  cases op <;> decide

/-- A connective goes on with its operands. -/
theorem head_ne_of_ends {vs : List Token} (h : (Level.group op).Ends vs) :
    vs.head? ≠ some (.ident op.word) := by
  intro hhead
  have hlt := h _ hhead
  cases op <;> exact absurd hlt (by decide)

theorem groupTail_sound (hoperand : operand.Follows op.operand) (ts : List Lexeme)
    (h : ts.length < n) (hgives : Gives (readGroupTail op operand ts h) terms rest) :
    ∃ ps : List Phrase, (∀ p ∈ ps, Derives op.operand p.tokens p.term) ∧
      ps.map Phrase.term = terms ∧
      tokens ts = (ps.flatMap fun p => .ident op.word :: p.tokens) ++ tokens rest := by
  induction ts, h using readGroupTail.induct op generalizing terms rest with
  | case1 h =>
    obtain ⟨rfl, rfl⟩ := (gives_groupTail_of_ne (by simp)).1 hgives
    exact ⟨[], by simp, rfl, rfl⟩
  | case2 u us h hu _ ih =>
    obtain ⟨v, mid, hv, more, ⟨_, hmore⟩, rfl⟩ := (gives_groupTail_cons hu).1 hgives
    obtain ⟨_, next, -, -, hmid⟩ := id hv
    subst hmid
    obtain ⟨ps, hps, rfl, htail⟩ := ih next hmore
    obtain ⟨vs, hvs, hderives⟩ := hoperand.sound hv
    refine ⟨⟨vs, v⟩ :: ps, List.forall_mem_cons.2 ⟨hderives, hps⟩, rfl, ?_⟩
    simp [hu, hvs, htail]
  | case3 u us h hu _ =>
    obtain ⟨rfl, rfl⟩ := (gives_groupTail_of_ne (by simpa using hu)).1 hgives
    exact ⟨[], by simp, rfl, rfl⟩

theorem groupTail_complete (hoperand : operand.Follows op.operand) {vs : List Token}
    (hends : (Level.group op).Ends vs) (ps : List Phrase)
    (hps : ∀ p ∈ ps, Derives op.operand p.tokens p.term) {ts : List Lexeme} (h : ts.length < n)
    (hts : tokens ts = (ps.flatMap fun p => .ident op.word :: p.tokens) ++ vs) :
    ∃ rest, tokens rest = vs ∧
      Gives (readGroupTail op operand ts h) (ps.map Phrase.term) rest := by
  induction ps generalizing ts with
  | nil =>
    refine ⟨ts, hts, (gives_groupTail_of_ne ?_).2 ⟨rfl, rfl⟩⟩
    rw [hts]
    exact head_ne_of_ends hends
  | cons p ps ih =>
    obtain ⟨hp, hps⟩ := List.forall_mem_cons.1 hps
    rw [List.flatMap_cons, List.append_assoc, List.cons_append] at hts
    obtain ⟨u, us, rfl, hu, hus⟩ := tokens_eq_cons hts
    have hnext : op.operand.Ends ((ps.flatMap fun p => .ident op.word :: p.tokens) ++ vs) :=
      (hends.mono (operand_le op)).flatMap _ ps fun _ _ => ⟨_, _, rfl, operand_lt op⟩
    have hlt : us.length < n := by
      rw [List.length_cons] at h
      omega
    obtain ⟨mid, hmid, hreads⟩ := hoperand.complete hlt hus hp hnext
    obtain ⟨rest, hrest, hmore⟩ := ih hps (Nat.lt_trans hreads.fewer hlt) hmid
    exact ⟨rest, hrest, (gives_groupTail_cons hu).2 ⟨_, mid, hreads, _, ⟨_, hmore⟩, rfl⟩⟩

/-- Operands joined by a connective. -/
theorem follows_group (op : Connective) (hoperand : operand.Follows op.operand) :
    (readGroup op operand).Follows (.group op) where
  sound hreads := by
    obtain ⟨v, mid, hv, more, ⟨_, hmore⟩, rfl⟩ := reads_group.1 hreads
    obtain ⟨us, hus, hderives⟩ := hoperand.sound hv
    obtain ⟨ps, hps, rfl, htail⟩ := groupTail_sound hoperand _ _ hmore
    refine ⟨_, ?_, .group hderives hps⟩
    rw [hus, htail, List.append_assoc]
  complete h hts hderives hends := by
    cases hderives with
    | @group _ us _ ps hfirst hrest =>
      rw [List.append_assoc] at hts
      have hnext := (hends.mono (operand_le op)).flatMap
        (fun p => .ident op.word :: p.tokens) ps fun _ _ => ⟨_, _, rfl, operand_lt op⟩
      obtain ⟨mid, hmid, hreads⟩ := hoperand.complete h hts hfirst hnext
      obtain ⟨rest, hvs, hmore⟩ :=
        groupTail_complete hoperand hends ps hrest (Nat.lt_trans hreads.fewer h) hmid
      exact ⟨rest, hvs, reads_group.2 ⟨_, mid, hreads, _, ⟨_, hmore⟩, rfl⟩⟩

end Groups

/-! ### Signs and negations -/

/-- A reader takes a mark and reads on, or it reads an operand. -/
theorem follows_marked {r : Reader n} (mark : Token) (f : Term → Term) {l tight : Level}
    (hmark : ∀ {u us t rest}, u.token = mark → (u :: us).length < n →
      (r.Reads (u :: us) t rest ↔ ∃ v, r.Reads us v rest ∧ f v = t))
    (hother : ∀ {ts t rest}, (tokens ts).head? ≠ some mark →
      (r.Reads ts t rest ↔ operand.Reads ts t rest))
    (hrule : ∀ {us t}, Derives l us t ↔
      (∃ us' v, us = mark :: us' ∧ t = f v ∧ Derives l us' v) ∨ Derives tight us t)
    (hbegins : tight.begins mark = false) (hloose : tight.looseness ≤ l.looseness)
    (hoperand : operand.Follows tight) : r.Follows l where
  sound {ts t rest} hreads := by
    induction ts generalizing t with
    | nil =>
      obtain ⟨us, hus, hderives⟩ := hoperand.sound ((hother (by simp)).1 hreads)
      exact ⟨us, hus, hrule.2 (.inr hderives)⟩
    | cons u us ih =>
      by_cases hu : u.token = mark
      · obtain ⟨v, hv, rfl⟩ := (hmark hu hreads.1).1 hreads
        obtain ⟨vs, hvs, hderives⟩ := ih hv
        refine ⟨mark :: vs, ?_, hrule.2 (.inl ⟨vs, v, rfl, rfl, hderives⟩)⟩
        rw [tokens_cons, hu, hvs, List.cons_append]
      · obtain ⟨vs, hvs, hderives⟩ := hoperand.sound ((hother (by simpa using hu)).1 hreads)
        exact ⟨vs, hvs, hrule.2 (.inr hderives)⟩
  complete {ts us vs t} h hts hderives hends := by
    induction ts generalizing us t with
    | nil =>
      -- a phrase takes at least one token
      obtain ⟨_, _, rfl, -⟩ := hderives.begins
      cases hts
    | cons u ts ih =>
      rcases hrule.1 hderives with ⟨us', v, rfl, rfl, hv⟩ | htight
      · obtain ⟨hu, htail⟩ := List.cons_eq_cons.1 hts
        have hlt : ts.length < n := Nat.lt_of_succ_lt h
        obtain ⟨rest, hrest, hreads⟩ := ih hlt htail hv
        exact ⟨rest, hrest, (hmark hu h).2 ⟨v, hreads, rfl⟩⟩
      · obtain ⟨rest, hrest, hreads⟩ :=
          hoperand.complete h hts htight (hends.mono hloose)
        refine ⟨rest, hrest, (hother ?_).2 hreads⟩
        -- what begins a tight phrase is no mark
        obtain ⟨w, us', rfl, hw⟩ := htight.begins
        rw [hts, List.cons_append, List.head?_cons]
        rintro ⟨⟩
        rw [hbegins] at hw
        cases hw

/-- An operand with any number of `not` before it. -/
theorem follows_negated (hoperand : operand.Follows .comparison) :
    (readNegated operand).Follows .negation := by
  refine follows_marked (.ident "not") .not ?_ ?_ ?_ (by decide) (by decide) hoperand
  · intro u us t rest hu hlt
    unfold Reader.Reads
    simp only [readNegated, if_pos hu, gives_map]
    constructor
    · rintro ⟨h, p, hp, ht, hrest⟩
      exact ⟨p.value, ⟨Nat.lt_of_succ_lt h, p, hp, rfl, hrest⟩, ht⟩
    · rintro ⟨v, ⟨h, p, hp, rfl, rfl⟩, rfl⟩
      exact ⟨hlt, p, hp, rfl, rfl⟩
  · intro ts t rest hne
    cases ts with
    | nil => rfl
    | cons u us =>
      have hu : u.token ≠ .ident "not" := by simpa using hne
      unfold Reader.Reads
      simp only [readNegated, if_neg hu]
  · intro us t
    constructor
    · intro h
      cases h with
      | not h => exact .inl ⟨_, _, rfl, rfl, h⟩
      | unnegated h => exact .inr h
    · rintro (⟨us', v, rfl, rfl, hv⟩ | htight)
      · exact hv.not
      · exact htight.unnegated

/-- An operand with any number of `-` signs before it. -/
theorem follows_signed (hoperand : operand.Follows .applied) :
    (readSigned operand).Follows .signed := by
  refine follows_marked .minus .neg ?_ ?_ ?_ (by decide) (by decide) hoperand
  · intro u us t rest hu hlt
    unfold Reader.Reads
    simp only [readSigned, if_pos hu, gives_map]
    constructor
    · rintro ⟨h, p, hp, ht, hrest⟩
      exact ⟨p.value, ⟨Nat.lt_of_succ_lt h, p, hp, rfl, hrest⟩, ht⟩
    · rintro ⟨v, ⟨h, p, hp, rfl, rfl⟩, rfl⟩
      exact ⟨hlt, p, hp, rfl, rfl⟩
  · intro ts t rest hne
    cases ts with
    | nil => rfl
    | cons u us =>
      have hu : u.token ≠ .minus := by simpa using hne
      unfold Reader.Reads
      simp only [readSigned, if_neg hu]
  · intro us t
    constructor
    · intro h
      cases h with
      | neg h => exact .inl ⟨_, _, rfl, rfl, h⟩
      | unsigned h => exact .inr h
    · rintro (⟨us', v, rfl, rfl, hv⟩ | htight)
      · exact hv.neg
      · exact htight.unsigned

/-! ### Arithmetic -/

section Arith

variable {k : Precedence} {left : Term}

/-- The operation of a level that a token writes. -/
def Precedence.op? : Precedence → Token → Option ArithOp
  | .additive => additive?
  | .multiplicative => multiplicative?

theorem op?_eq_some_iff {u : Token} {op : ArithOp} :
    k.op? u = some op ↔ u = arithToken op ∧ arithPrecedence op = k := by
  cases k <;> cases u <;> cases op <;>
    simp [Precedence.op?, additive?, multiplicative?, arithToken, arithPrecedence]

theorem gives_arithTail_none {op? : Token → Option ArithOp} {h : ts.length < n}
    (hne : ∀ u ∈ (tokens ts).head?, op? u = none) :
    Gives (readArithTail op? operand left ts h) t rest ↔ left = t ∧ ts = rest := by
  cases ts with
  | nil => rw [readArithTail, gives_ok]
  | cons u us =>
    have hu : op? u.token = none := hne _ rfl
    rw [readArithTail]
    split
    · exact gives_ok
    · next op hop =>
      rw [hu] at hop
      cases hop

theorem gives_arithTail_some {op? : Token → Option ArithOp} {u : Lexeme} {us : List Lexeme}
    {op : ArithOp} {h : (u :: us).length < n} (hu : op? u.token = some op) :
    Gives (readArithTail op? operand left (u :: us) h) t rest ↔
      ∃ v mid, operand.Reads us v mid ∧
        ∃ w, (∃ h, Gives (readArithTail op? operand (.arith op left v) mid h) w rest) ∧ w = t := by
  rw [readArithTail]
  split
  · next hnone =>
    rw [hu] at hnone
    cases hnone
  · next op' hop =>
    rw [hu] at hop
    cases hop
    exact gives_then (fun v => readArithTail op? operand (.arith op left v)) (fun _ w => w)
      fun _ _ => ⟨rfl, rfl⟩

theorem reads_arith {op? : Token → Option ArithOp} :
    (readArith op? operand).Reads ts t rest ↔
      ∃ v mid, operand.Reads ts v mid ∧
        ∃ w, (∃ h, Gives (readArithTail op? operand v mid h) w rest) ∧ w = t :=
  reads_of_gives fun _ =>
    gives_then (readArithTail op? operand) (fun _ w => w) fun _ _ => ⟨rfl, rfl⟩

theorem arithOperand_lt {op : ArithOp} (hop : arithPrecedence op = k) :
    k.operand.looseness < (arithToken op).looseness := by
  subst hop
  cases op <;> decide

theorem arithOperand_le (k : Precedence) : k.operand.looseness ≤ (Level.arith k).looseness := by
  cases k <;> decide

/-- An operation of a level goes on with its operands. -/
theorem op?_eq_none_of_ends {vs : List Token} (h : (Level.arith k).Ends vs) :
    ∀ u ∈ vs.head?, k.op? u = none := by
  intro u hu
  have hlt := h u hu
  rw [Option.eq_none_iff_forall_ne_some]
  intro op hop
  obtain ⟨rfl, rfl⟩ := op?_eq_some_iff.1 hop
  cases op <;> exact absurd hlt (by decide)

/-- The operands that follow, grouped to the left. -/
theorem arithTail_sound (hoperand : operand.Follows k.operand) (left : Term) (ts : List Lexeme)
    (h : ts.length < n) (hgives : Gives (readArithTail k.op? operand left ts h) t rest) :
    ∃ ps : List (ArithOp × Phrase), (∀ p ∈ ps, arithPrecedence p.1 = k) ∧
      (∀ p ∈ ps, Derives k.operand p.2.tokens p.2.term) ∧
      ps.foldl (fun left p => .arith p.1 left p.2.term) left = t ∧
      tokens ts = (ps.flatMap fun p => arithToken p.1 :: p.2.tokens) ++ tokens rest := by
  induction left, ts, h using readArithTail.induct k.op? generalizing rest with
  | case1 left h =>
    obtain ⟨rfl, rfl⟩ := (gives_arithTail_none (by simp)).1 hgives
    exact ⟨[], by simp, by simp, rfl, rfl⟩
  | case2 left u us h hu _ =>
    obtain ⟨rfl, rfl⟩ := (gives_arithTail_none (by simpa using hu)).1 hgives
    exact ⟨[], by simp, by simp, rfl, rfl⟩
  | case3 left u us h op hu _ ih =>
    obtain ⟨v, mid, hv, _, ⟨_, hmore⟩, rfl⟩ := (gives_arithTail_some hu).1 hgives
    obtain ⟨_, next, -, rfl, hmid⟩ := id hv
    subst hmid
    obtain ⟨ps, hops, hps, rfl, htail⟩ := ih next hmore
    obtain ⟨vs, hvs, hderives⟩ := hoperand.sound hv
    obtain ⟨htoken, hop⟩ := op?_eq_some_iff.1 hu
    refine ⟨(op, ⟨vs, next.value⟩) :: ps, List.forall_mem_cons.2 ⟨hop, hops⟩,
      List.forall_mem_cons.2 ⟨hderives, hps⟩, rfl, ?_⟩
    simp [htoken, hvs, htail]

theorem arithTail_complete (hoperand : operand.Follows k.operand) {vs : List Token}
    (hends : (Level.arith k).Ends vs) (ps : List (ArithOp × Phrase))
    (hops : ∀ p ∈ ps, arithPrecedence p.1 = k)
    (hps : ∀ p ∈ ps, Derives k.operand p.2.tokens p.2.term) (left : Term) {ts : List Lexeme}
    (h : ts.length < n)
    (hts : tokens ts = (ps.flatMap fun p => arithToken p.1 :: p.2.tokens) ++ vs) :
    ∃ rest, tokens rest = vs ∧ Gives (readArithTail k.op? operand left ts h)
      (ps.foldl (fun left p => .arith p.1 left p.2.term) left) rest := by
  induction ps generalizing ts left with
  | nil =>
    refine ⟨ts, hts, (gives_arithTail_none ?_).2 ⟨rfl, rfl⟩⟩
    rw [hts]
    exact op?_eq_none_of_ends hends
  | cons p ps ih =>
    obtain ⟨hop, hops⟩ := List.forall_mem_cons.1 hops
    obtain ⟨hp, hps⟩ := List.forall_mem_cons.1 hps
    rw [List.flatMap_cons, List.append_assoc, List.cons_append] at hts
    obtain ⟨u, us, rfl, hu, hus⟩ := tokens_eq_cons hts
    have hnext : k.operand.Ends ((ps.flatMap fun p => arithToken p.1 :: p.2.tokens) ++ vs) :=
      (hends.mono (arithOperand_le k)).flatMap _ ps fun q hq =>
        ⟨_, _, rfl, arithOperand_lt (hops q hq)⟩
    have hlt : us.length < n := Nat.lt_of_succ_lt h
    obtain ⟨mid, hmid, hreads⟩ := hoperand.complete hlt hus hp hnext
    obtain ⟨rest, hrest, hmore⟩ :=
      ih hops hps (.arith p.1 left p.2.term) (Nat.lt_trans hreads.fewer hlt) hmid
    have hsome : k.op? u.token = some p.1 := op?_eq_some_iff.2 ⟨hu, hop⟩
    exact ⟨rest, hrest, (gives_arithTail_some hsome).2 ⟨_, mid, hreads, _, ⟨_, hmore⟩, rfl⟩⟩

/-- Operands joined by arithmetic operations of one level. -/
theorem follows_arith (k : Precedence) (hoperand : operand.Follows k.operand) :
    (readArith k.op? operand).Follows (.arith k) where
  sound hreads := by
    obtain ⟨v, mid, hv, _, ⟨_, hmore⟩, rfl⟩ := reads_arith.1 hreads
    obtain ⟨us, hus, hderives⟩ := hoperand.sound hv
    obtain ⟨ps, hops, hps, rfl, htail⟩ := arithTail_sound hoperand _ _ _ hmore
    refine ⟨_, ?_, .arith hderives hops hps⟩
    rw [hus, htail, List.append_assoc]
  complete h hts hderives hends := by
    cases hderives with
    | @arith _ us _ ps hfirst hops hrest =>
      rw [List.append_assoc] at hts
      have hnext := (hends.mono (arithOperand_le k)).flatMap
        (fun p => arithToken p.1 :: p.2.tokens) ps fun q hq =>
          ⟨_, _, rfl, arithOperand_lt (hops q hq)⟩
      obtain ⟨mid, hmid, hreads⟩ := hoperand.complete h hts hfirst hnext
      obtain ⟨rest, hvs, hmore⟩ := arithTail_complete hoperand hends ps hops hrest _
        (Nat.lt_trans hreads.fewer h) hmid
      exact ⟨rest, hvs, reads_arith.2 ⟨_, mid, hreads, _, ⟨_, hmore⟩, rfl⟩⟩

end Arith

/-! ### Comparisons -/

section Comparisons

variable {chain : List (Comparator × Term)}

theorem tokens_of_comparator? {op : Comparator}
    {us : { us : List Lexeme // us.length < ts.length }} (h : comparator? ts = some (op, us)) :
    tokens ts = op.tokens ++ tokens us.1 := by
  cases ts with
  | nil => cases h
  | cons t ts =>
    obtain ⟨o, u⟩ := t
    cases u with
    | ident word =>
      simp only [comparator?] at h
      split at h
      · next hin =>
        cases h
        simp [hin, Comparator.tokens]
      · split at h
        · next hnot =>
          split at h
          · cases h
          · split at h
            · next hin =>
              cases h
              simp [hnot, hin, Comparator.tokens]
            · cases h
        · cases h
    | _ =>
      cases h
      try rfl

theorem comparator?_of_tokens (op : Comparator) {vs : List Token}
    (h : tokens ts = op.tokens ++ vs) :
    ∃ us, comparator? ts = some (op, us) ∧ tokens us.1 = vs := by
  cases op with
  | notMem =>
    obtain ⟨t, us, rfl, ht, hus⟩ := tokens_eq_cons h
    obtain ⟨u, us, rfl, hu, hus⟩ := tokens_eq_cons hus
    simp [comparator?, ht, hu, hus]
  | _ =>
    obtain ⟨t, us, rfl, ht, hus⟩ := tokens_eq_cons h
    simp [comparator?, ht, hus]

/-- A comparison has a first token, which goes on with a chain and ends its operands. -/
theorem comparator_starts (op : Comparator) :
    ∃ u us, op.tokens = u :: us ∧ u.looseness = Level.comparison.looseness := by
  cases op <;> exact ⟨_, _, rfl, by decide⟩

theorem comparator?_eq_none_of_ends (h : Level.comparison.Ends (tokens ts)) :
    comparator? ts = none := by
  rw [Option.eq_none_iff_forall_ne_some]
  rintro ⟨op, us⟩ hop
  obtain ⟨u, us', hu, hloose⟩ := comparator_starts op
  rw [tokens_of_comparator? hop, hu, List.cons_append, Level.ends_cons, hloose] at h
  exact Nat.lt_irrefl _ h

theorem gives_chain_none {h : ts.length < n} (hnone : comparator? ts = none) :
    Gives (readChain operand ts h) chain rest ↔ [] = chain ∧ ts = rest := by
  rw [readChain]
  split
  · exact gives_ok
  · next hsome =>
    rw [hnone] at hsome
    cases hsome

theorem gives_chain_some {op : Comparator} {us : List Lexeme} {hus : us.length < ts.length}
    {h : ts.length < n} (hsome : comparator? ts = some (op, ⟨us, hus⟩)) :
    Gives (readChain operand ts h) chain rest ↔
      ∃ v mid, operand.Reads us v mid ∧
        ∃ more, (∃ h, Gives (readChain operand mid h) more rest) ∧ (op, v) :: more = chain := by
  rw [readChain]
  split
  · next hnone =>
    rw [hsome] at hnone
    cases hnone
  · next heq =>
    rw [hsome] at heq
    cases heq
    exact gives_then (fun _ => readChain operand) (fun v more => (op, v) :: more)
      fun _ _ => ⟨rfl, rfl⟩

theorem reads_comparison :
    (readComparison operand).Reads ts t rest ↔
      ∃ v mid, operand.Reads ts v mid ∧
        ∃ more, (∃ h, Gives (readChain operand mid h) more rest) ∧ chained v more = t :=
  reads_of_gives fun _ => gives_then (fun _ => readChain operand) chained fun _ _ => ⟨rfl, rfl⟩

theorem chain_sound (hoperand : operand.Follows (.arith .additive)) (ts : List Lexeme)
    (h : ts.length < n) (hgives : Gives (readChain operand ts h) chain rest) :
    ∃ ps : List (Comparator × Phrase),
      (∀ p ∈ ps, Derives (.arith .additive) p.2.tokens p.2.term) ∧
      (ps.map fun p => (p.1, p.2.term)) = chain ∧
      tokens ts = (ps.flatMap fun p => p.1.tokens ++ p.2.tokens) ++ tokens rest := by
  induction ts, h using readChain.induct generalizing chain rest with
  | case1 ts h hnone =>
    obtain ⟨rfl, rfl⟩ := (gives_chain_none hnone).1 hgives
    exact ⟨[], by simp, rfl, rfl⟩
  | case2 ts h op us hus hsome ih =>
    obtain ⟨v, mid, hv, more, ⟨_, hmore⟩, rfl⟩ := (gives_chain_some hsome).1 hgives
    obtain ⟨_, right, -, rfl, hmid⟩ := id hv
    subst hmid
    obtain ⟨ps, hps, rfl, htail⟩ := ih right hmore
    obtain ⟨vs, hvs, hderives⟩ := hoperand.sound hv
    refine ⟨(op, ⟨vs, right.value⟩) :: ps, List.forall_mem_cons.2 ⟨hderives, hps⟩, rfl, ?_⟩
    simp [tokens_of_comparator? hsome, hvs, htail]

/-- A run of comparisons ends the sum before it, and so does what ends the chain. -/
theorem sum_ends {vs : List Token} (hends : Level.comparison.Ends vs)
    (ps : List (Comparator × Phrase)) :
    (Level.arith .additive).Ends
      ((ps.flatMap fun p => p.1.tokens ++ p.2.tokens) ++ vs) := by
  refine (hends.mono (by decide)).flatMap _ ps fun p _ => ?_
  obtain ⟨u, us, hu, hloose⟩ := comparator_starts p.1
  refine ⟨u, us ++ p.2.tokens, by rw [hu, List.cons_append], ?_⟩
  rw [hloose]
  decide

theorem chain_complete (hoperand : operand.Follows (.arith .additive)) {vs : List Token}
    (hends : Level.comparison.Ends vs) (ps : List (Comparator × Phrase))
    (hps : ∀ p ∈ ps, Derives (.arith .additive) p.2.tokens p.2.term) {ts : List Lexeme}
    (h : ts.length < n)
    (hts : tokens ts = (ps.flatMap fun p => p.1.tokens ++ p.2.tokens) ++ vs) :
    ∃ rest, tokens rest = vs ∧
      Gives (readChain operand ts h) (ps.map fun p => (p.1, p.2.term)) rest := by
  induction ps generalizing ts with
  | nil =>
    rw [List.flatMap_nil, List.nil_append] at hts
    refine ⟨ts, hts, (gives_chain_none (comparator?_eq_none_of_ends ?_)).2 ⟨rfl, rfl⟩⟩
    rwa [hts]
  | cons p ps ih =>
    obtain ⟨hp, hps⟩ := List.forall_mem_cons.1 hps
    rw [List.flatMap_cons, List.append_assoc, List.append_assoc] at hts
    obtain ⟨⟨us, hlt⟩, hsome, hus⟩ := comparator?_of_tokens p.1 hts
    have hlt' : us.length < n := Nat.lt_trans hlt h
    obtain ⟨mid, hmid, hreads⟩ := hoperand.complete hlt' hus hp (sum_ends hends ps)
    obtain ⟨rest, hrest, hmore⟩ := ih hps (Nat.lt_trans hreads.fewer hlt') hmid
    exact ⟨rest, hrest, (gives_chain_some hsome).2 ⟨_, mid, hreads, _, ⟨_, hmore⟩, rfl⟩⟩

/-- Chains of comparisons. -/
theorem follows_comparison (hoperand : operand.Follows (.arith .additive)) :
    (readComparison operand).Follows .comparison where
  sound hreads := by
    obtain ⟨v, mid, hv, more, ⟨_, hmore⟩, rfl⟩ := reads_comparison.1 hreads
    obtain ⟨us, hus, hderives⟩ := hoperand.sound hv
    obtain ⟨ps, hps, rfl, htail⟩ := chain_sound hoperand _ _ hmore
    refine ⟨_, ?_, .comparison hderives hps⟩
    rw [hus, htail, List.append_assoc]
  complete h hts hderives hends := by
    cases hderives with
    | @comparison us _ ps hfirst hrest =>
      rw [List.append_assoc] at hts
      obtain ⟨mid, hmid, hreads⟩ := hoperand.complete h hts hfirst (sum_ends hends ps)
      obtain ⟨rest, hvs, hmore⟩ :=
        chain_complete hoperand hends ps hrest (Nat.lt_trans hreads.fewer h) hmid
      exact ⟨rest, hvs, reads_comparison.2 ⟨_, mid, hreads, _, ⟨_, hmore⟩, rfl⟩⟩

end Comparisons

end Progression.Rule
