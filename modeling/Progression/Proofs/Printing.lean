import Progression.Proofs.Scanning
import Progression.Rule.Term

/-!
# Canonical text as tokens

The canonical text of a term is put together from words, numbers, quoted text, marks and
blanks.  A blank or a mark comes after every word and every number in it, so however the
text goes on, each is cut off where it ends; what stands in parentheses is cut into the same
tokens as it would be alone.  Only a quote or a backslash in quoted text would be read
otherwise than it was written, because the canonical text does not escape them.

## Main definitions

* `Term.tokens` — the tokens of the canonical text.
* `Term.atoms` — the names and literals of a term.
* `Token.Plain` — a token that is written as it is.
* `Writes` — a text is cut into tokens wherever it stands.

## Main results

* `writes_text` — **the canonical text of a term is cut into its tokens**, if its names and
  literals are plain.
-/

namespace Progression.Rule

open Text

namespace Term

/-- The tokens of an operand, whose own tokens are `us`. -/
def enclose (t : Term) (us : List Token) : List Token :=
  if t.isCompound then .lparen :: (us ++ [.rparen]) else us

mutual

/-- The tokens of the canonical text of a term. -/
def tokens : Term → List Token
  | .name word => [.ident word]
  | .str s => [.str s]
  | .int n => [.int n]
  | .decimal digits => [.decimal digits]
  | .bool true => [.ident "True"]
  | .bool false => [.ident "False"]
  | .tuple [t] => .lparen :: (t.tokens ++ [.comma, .rparen])
  | .tuple items => .lparen :: ([.comma].intercalate (tokensOf items) ++ [.rparen])
  | .call func args =>
    .ident func :: .lparen :: ([.comma].intercalate (tokensOf args) ++ [.rparen])
  | .subscript table key => .ident table :: .lbracket :: (key.tokens ++ [.rbracket])
  | .group op operands => [.ident op.word].intercalate (operandTokensOf operands)
  | .not operand => .ident "not" :: enclose operand operand.tokens
  | .compare left rest => enclose left left.tokens ++ chainTokens rest
  | .arith op left right =>
    enclose left left.tokens ++ arithToken op :: enclose right right.tokens
  | .neg operand => .minus :: enclose operand operand.tokens

/-- The tokens of each of a list of terms. -/
def tokensOf : List Term → List (List Token)
  | [] => []
  | t :: ts => t.tokens :: tokensOf ts

/-- The tokens of each of a list of operands. -/
def operandTokensOf : List Term → List (List Token)
  | [] => []
  | t :: ts => enclose t t.tokens :: operandTokensOf ts

/-- The tokens of a chain of comparisons after its first operand. -/
def chainTokens : List (Comparator × Term) → List Token
  | [] => []
  | (op, t) :: rest => op.tokens ++ enclose t t.tokens ++ chainTokens rest

end

mutual

/-- The names and literals of a term, as the tokens that write them. -/
def atoms : Term → List Token
  | .name word => [.ident word]
  | .str s => [.str s]
  | .int n => [.int n]
  | .decimal digits => [.decimal digits]
  | .bool _ => []
  | .tuple items => atomsOf items
  | .call func args => .ident func :: atomsOf args
  | .subscript table key => .ident table :: key.atoms
  | .group _ operands => atomsOf operands
  | .not operand => operand.atoms
  | .compare left rest => left.atoms ++ chainAtoms rest
  | .arith _ left right => left.atoms ++ right.atoms
  | .neg operand => operand.atoms

/-- The names and literals of a list of terms. -/
def atomsOf : List Term → List Token
  | [] => []
  | t :: ts => t.atoms ++ atomsOf ts

/-- The names and literals of a chain of comparisons after its first operand. -/
def chainAtoms : List (Comparator × Term) → List Token
  | [] => []
  | (_, t) :: rest => t.atoms ++ chainAtoms rest

end

/-- The canonical text of a term as an operand. -/
def operandText (t : Term) : String := wrap t t.text

/-- The tokens of a term as an operand. -/
def operandTokens (t : Term) : List Token := enclose t t.tokens

theorem texts_eq_map (ts : List Term) : texts ts = ts.map text := by
  induction ts with
  | nil => rfl
  | cons t ts ih => rw [texts, ih, List.map_cons]

theorem operandTexts_eq_map (ts : List Term) : operandTexts ts = ts.map operandText := by
  induction ts with
  | nil => rfl
  | cons t ts ih => rw [operandTexts, ih, List.map_cons, operandText]

theorem tokensOf_eq_map (ts : List Term) : tokensOf ts = ts.map tokens := by
  induction ts with
  | nil => rfl
  | cons t ts ih => rw [tokensOf, ih, List.map_cons]

theorem operandTokensOf_eq_map (ts : List Term) : operandTokensOf ts = ts.map operandTokens := by
  induction ts with
  | nil => rfl
  | cons t ts ih => rw [operandTokensOf, ih, List.map_cons, operandTokens]

theorem mem_atomsOf {ts : List Term} {u : Token} : u ∈ atomsOf ts ↔ ∃ t ∈ ts, u ∈ t.atoms := by
  induction ts with
  | nil => simp [atomsOf]
  | cons t ts ih => simp [atomsOf, ih]

theorem mem_chainAtoms {rest : List (Comparator × Term)} {u : Token} :
    u ∈ chainAtoms rest ↔ ∃ p ∈ rest, u ∈ p.2.atoms := by
  induction rest with
  | nil => simp [chainAtoms]
  | cons p rest ih => simp [chainAtoms, ih]

end Term

/-! ### Text that writes tokens -/

/-- A text writes tokens: before text that goes on with nothing it is cut into them. -/
def Writes (s : String) (us : List Token) : Prop :=
  ∀ ⦃cs vs⦄, Apart cs → Scans cs vs → Scans (s.toList ++ cs) (us ++ vs)

/-- A token that is written as it is: a word, a number, or quoted text without escapes. -/
def Token.Plain (u : Token) : Prop :=
  u.Proper ∧ ∀ s, u = .str s → '\'' ∉ s.toList ∧ '\\' ∉ s.toList

section Writes

variable {cs : List Char} {us vs : List Token} {s s' : String}

theorem writes_word {w : String} (hw : (Token.ident w).Proper) : Writes w [.ident w] :=
  fun _ _ => .word hw

/-- A word that is one of the grammar. -/
theorem proper_ident {w : String} (c : Char) (ds : List Char) (hw : w.toList = c :: ds)
    (h : (!isBlank c && isIdentStart c && ds.all isIdentPart) = true) :
    (Token.ident w).Proper := by
  simp only [Bool.and_eq_true, Bool.not_eq_true', List.all_eq_true] at h
  exact ⟨c, ds, hw, h.1.1, h.1.2, h.2⟩

theorem proper_word (op : Connective) : (Token.ident op.word).Proper := by
  cases op <;> exact proper_ident _ _ rfl (by decide)

theorem proper_not : (Token.ident "not").Proper := proper_ident _ _ rfl (by decide)

theorem proper_in : (Token.ident "in").Proper := proper_ident _ _ rfl (by decide)

theorem apart_blank : Apart (' ' :: cs) := apart_cons.2 (by decide)

/-- Between blanks, the symbol of a comparison writes its tokens. -/
theorem scans_comparator (op : Comparator) (h : Scans cs vs) :
    Scans (op.symbol.toList ++ ' ' :: cs) (op.tokens ++ vs) := by
  have hblank : Scans (' ' :: cs) vs := h.blank
  cases op with
  | mem => exact .word proper_in apart_blank hblank
  | notMem => exact .word proper_not apart_blank (.blank (.word proper_in apart_blank hblank))
  | _ => exact .token (by decide) (by decide) rfl hblank

theorem scans_arith (op : ArithOp) (h : Scans cs vs) :
    Scans (op.symbol.toList ++ ' ' :: cs) (arithToken op :: vs) := by
  have hblank : Scans (' ' :: cs) vs := h.blank
  cases op <;> exact .token (by decide) (by decide) rfl hblank

/-- A character that is a token of its own, whatever comes next. -/
structure IsMark (c : Char) (u : Token) : Prop where
  read : ∀ cs, readToken c cs = .ok (u, 0)
  blank : isBlank c = false
  comment : c ≠ '#'
  apart : isIdentPart c = false ∧ c ≠ '.'

theorem IsMark.scans {c : Char} {u : Token} (hc : IsMark c u) (h : Scans cs vs) :
    Scans (c :: cs) (u :: vs) :=
  .token hc.blank hc.comment (hc.read cs) h

theorem isMark_lparen : IsMark '(' .lparen := ⟨fun _ => rfl, by decide, by decide, by decide⟩

theorem isMark_rparen : IsMark ')' .rparen := ⟨fun _ => rfl, by decide, by decide, by decide⟩

theorem isMark_lbracket : IsMark '[' .lbracket := ⟨fun _ => rfl, by decide, by decide, by decide⟩

theorem isMark_rbracket : IsMark ']' .rbracket := ⟨fun _ => rfl, by decide, by decide, by decide⟩

theorem isMark_comma : IsMark ',' .comma := ⟨fun _ => rfl, by decide, by decide, by decide⟩

theorem isMark_minus : IsMark '-' .minus := ⟨fun _ => rfl, by decide, by decide, by decide⟩

/-- Marks around a text stand around its tokens. -/
theorem Writes.between {a b : Char} {u v : Token} (ha : IsMark a u) (hb : IsMark b v)
    (h : Writes s us) (hcs : Scans cs vs) :
    Scans (a :: (s.toList ++ b :: cs)) (u :: (us ++ v :: vs)) :=
  ha.scans (h (apart_cons.2 hb.apart) (hb.scans hcs))

theorem Writes.parens (h : Writes s us) :
    Writes ("(" ++ s ++ ")") (.lparen :: (us ++ [.rparen])) := by
  intro cs vs _ hcs
  have hbetween := h.between isMark_lparen isMark_rparen hcs
  simpa using hbetween

/-- Texts with separators between them write the tokens of each with a token between them. -/
theorem writes_intercalate {α : Type} {sep : String} {u : Token} {text : α → String}
    {toks : α → List Token} (hapart : ∀ cs, Apart (sep.toList ++ cs))
    (hsep : ∀ {cs vs}, Scans cs vs → Scans (sep.toList ++ cs) (u :: vs)) {xs : List α}
    (hxs : ∀ x ∈ xs, Writes (text x) (toks x)) :
    Writes (sep.intercalate (xs.map text)) ([u].intercalate (xs.map toks)) := by
  induction xs with
  | nil => exact fun _ _ _ hcs => hcs
  | cons x xs ih =>
    obtain ⟨hx, hxs⟩ := List.forall_mem_cons.1 hxs
    cases xs with
    | nil => simpa using hx
    | cons y ys =>
      intro cs vs hcs hscans
      have hrest := hx (hapart _) (hsep (ih hxs hcs hscans))
      simpa using hrest

theorem Writes.operand {t : Term} (h : Writes t.text t.tokens) :
    Writes t.operandText t.operandTokens := by
  unfold Term.operandText Term.operandTokens Term.wrap Term.enclose
  split
  · exact h.parens
  · exact h

/-- The items of a list. -/
theorem writes_list {ts : List Term} (h : ∀ t ∈ ts, Writes t.text t.tokens) :
    Writes (", ".intercalate (Term.texts ts)) ([.comma].intercalate (Term.tokensOf ts)) := by
  rw [Term.texts_eq_map, Term.tokensOf_eq_map]
  refine writes_intercalate (fun cs => ?_) (fun hcs => ?_) h
  · exact (@apart_cons ',' (' ' :: cs)).2 isMark_comma.apart
  · exact isMark_comma.scans hcs.blank

/-- The operands of a connective. -/
theorem writes_group {op : Connective} {ts : List Term} (h : ∀ t ∈ ts, Writes t.text t.tokens) :
    Writes ((" " ++ op.word ++ " ").intercalate (Term.operandTexts ts))
      ([.ident op.word].intercalate (Term.operandTokensOf ts)) := by
  rw [Term.operandTexts_eq_map, Term.operandTokensOf_eq_map]
  refine writes_intercalate ?_ (fun {cs vs} hcs => ?_) fun t ht => (h t ht).operand
  · intro cs
    rw [String.toList_append, String.toList_append, List.append_assoc, List.append_assoc]
    exact apart_blank
  · have hword : Scans (' ' :: (op.word.toList ++ ' ' :: cs)) (.ident op.word :: vs) :=
      .blank (.word (proper_word op) apart_blank hcs.blank)
    simpa using hword

/-- The comparisons after the first operand of a chain. -/
theorem writes_chain {rest : List (Comparator × Term)}
    (h : ∀ p ∈ rest, Writes p.2.text p.2.tokens) :
    Writes (Term.chainText rest) (Term.chainTokens rest) ∧
      ∀ {cs}, Apart cs → Apart ((Term.chainText rest).toList ++ cs) := by
  induction rest with
  | nil => exact ⟨fun _ _ _ hcs => hcs, fun hcs => hcs⟩
  | cons p rest ih =>
    obtain ⟨op, t⟩ := p
    obtain ⟨ht, hrest⟩ := List.forall_mem_cons.1 h
    obtain ⟨hwrites, hapart⟩ := ih hrest
    have htext : (Term.chainText ((op, t) :: rest)).toList = ' ' :: (op.symbol.toList ++
        ' ' :: (t.operandText.toList ++ (Term.chainText rest).toList)) := by
      simp [Term.chainText, Term.operandText]
    constructor
    · intro cs vs hcs hscans
      have hoperand := ht.operand (hapart hcs) (hwrites hcs hscans)
      have hcompare := (scans_comparator op hoperand).blank
      rw [htext]
      simpa [Term.chainTokens, Term.operandTokens] using hcompare
    · intro cs hcs
      rw [htext]
      exact apart_blank

/-- The canonical text of a term writes its tokens. -/
theorem writes_text (t : Term) (ht : ∀ u ∈ t.atoms, u.Plain) : Writes t.text t.tokens := by
  induction t using Term.induction with
  | name w => exact writes_word (ht _ (List.mem_singleton_self _)).1
  | str s =>
    intro cs vs hcs h
    obtain ⟨hquote, hescape⟩ := (ht _ (List.mem_singleton_self _)).2 s rfl
    have hstr := Scans.str hquote hescape h
    simpa [Term.text, Term.tokens] using hstr
  | int n => exact fun _ _ => .int (ht _ (List.mem_singleton_self _)).1
  | decimal d => exact fun _ _ => .decimal (ht _ (List.mem_singleton_self _)).1
  | bool b =>
    cases b <;> exact writes_word (proper_ident _ _ rfl (by decide))
  | tuple ts ih =>
    have hts : ∀ t ∈ ts, Writes t.text t.tokens :=
      fun t hmem => ih t hmem fun u hu => ht u (Term.mem_atomsOf.2 ⟨t, hmem, hu⟩)
    match ts with
    | [] | _ :: _ :: _ => exact (writes_list hts).parens
    | [t] =>
      intro cs vs _ h
      have htuple := (hts t List.mem_cons_self).between isMark_lparen isMark_comma
        (isMark_rparen.scans h)
      simpa [Term.text, Term.tokens] using htuple
  | call f ts ih =>
    have hts : ∀ t ∈ ts, Writes t.text t.tokens := fun t hmem =>
      ih t hmem fun u hu => ht u (List.mem_cons_of_mem _ (Term.mem_atomsOf.2 ⟨t, hmem, hu⟩))
    intro cs vs _ h
    have hargs := (writes_list hts).between isMark_lparen isMark_rparen h
    have hname : (Token.ident f).Proper := (ht _ List.mem_cons_self).1
    have hcall := Scans.word hname (apart_cons.2 isMark_lparen.apart) hargs
    simpa [Term.text, Term.tokens] using hcall
  | subscript w key ih =>
    have hkey : Writes key.text key.tokens := ih fun u hu => ht u (List.mem_cons_of_mem _ hu)
    intro cs vs _ h
    have hbracket := hkey.between isMark_lbracket isMark_rbracket h
    have hname : (Token.ident w).Proper := (ht _ List.mem_cons_self).1
    have hsubscript := Scans.word hname (apart_cons.2 isMark_lbracket.apart) hbracket
    simpa [Term.text, Term.tokens] using hsubscript
  | group op ts ih =>
    exact writes_group fun t hmem => ih t hmem fun u hu => ht u (Term.mem_atomsOf.2 ⟨t, hmem, hu⟩)
  | not t ih =>
    intro cs vs hcs h
    have hoperand := (ih ht).operand hcs h
    have hnot := Scans.word proper_not apart_blank hoperand.blank
    simpa [Term.text, Term.tokens, Term.operandText, Term.operandTokens] using hnot
  | compare l rest ihl ihrest =>
    intro cs vs hcs h
    obtain ⟨hwrites, hapart⟩ := writes_chain fun p hp =>
      ihrest p hp fun u hu => ht u (List.mem_append_right _ (Term.mem_chainAtoms.2 ⟨p, hp, hu⟩))
    have hleft := (ihl fun u hu => ht u (List.mem_append_left _ hu)).operand (hapart hcs)
      (hwrites hcs h)
    simpa [Term.text, Term.tokens, Term.operandText, Term.operandTokens] using hleft
  | arith op l r ihl ihr =>
    intro cs vs hcs h
    have hright := (ihr fun u hu => ht u (List.mem_append_right _ hu)).operand hcs h
    have hleft := (ihl fun u hu => ht u (List.mem_append_left _ hu)).operand apart_blank
      (scans_arith op hright).blank
    simpa [Term.text, Term.tokens, Term.operandText, Term.operandTokens] using hleft
  | neg t ih =>
    intro cs vs hcs h
    have hneg := isMark_minus.scans ((ih ht).operand hcs h)
    simpa [Term.text, Term.tokens, Term.operandText, Term.operandTokens] using hneg

end Writes

end Progression.Rule
