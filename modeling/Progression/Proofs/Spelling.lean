import Mathlib.Data.List.TakeWhile
import Progression.Rule.Scan

/-!
# How tokens are spelled

A token is read off the front of a text just when the text begins with a spelling of it and what
follows does not go on with it: no character of words goes on with a word, no digit with a number,
no equality sign with a comparison.  So how a token is spelled and what may follow it can be said
apart from how far a scan gets.

What may follow a token may be cut short, and may be followed by a comment.  A text is cut into its
lexemes by the blanks, the spellings and the comment that it is made of.

## Main definitions

* `Quotes` — the text that stands between quotes, with its escapes.
* `Spells` — the spellings of a token.
* `Stops` — text that does not go on with a token.
* `Lexes` — a text and the lexemes that it is cut into.

## Main results

* `readToken_eq_ok_iff` — **the token at the front of a text is one that the text begins with a
  spelling of, if the rest does not go on with it.**
* `Stops.of_append`, `Stops.comment` — what may follow a token.
* `scanFrom_eq_ok_iff`, `scan_eq_ok_iff` — **a scan cuts a text into its lexemes.**
-/

namespace Progression.Rule

open Text

variable {c q : Char} {cs ds rest : List Char} {u : Token} {k : Nat}

/-! ### Characters of tokens -/

theorem toNat_of_isDigit {c : Char} (h : c.isDigit = true) : 48 ≤ c.toNat ∧ c.toNat ≤ 57 := by
  simpa [Char.isDigit, UInt32.le_iff_toNat_le] using h

/-- No character that begins a word is a digit. -/
theorem isDigit_eq_false_of_isIdentStart {c : Char} (h : isIdentStart c = true) :
    c.isDigit = false := by
  rw [Bool.eq_false_iff]
  intro hdigit
  have hbounds := toNat_of_isDigit hdigit
  have hascii : c.toNat < 170 := Nat.lt_of_le_of_lt hbounds.2 (by decide)
  simp only [isIdentStart, isAlphabetic_ascii hascii, Bool.or_eq_true, beq_iff_eq] at h
  rcases h with halpha | rfl
  · have hletter : 65 ≤ c.toNat ∧ c.toNat ≤ 90 ∨ 97 ≤ c.toNat ∧ c.toNat ≤ 122 := by
      have hcase : (decide (65 ≤ c.val ∧ c.val ≤ 90) ||
          decide (97 ≤ c.val) && decide (c.val ≤ 122)) = true := halpha
      simpa [UInt32.le_iff_toNat_le] using hcase
    omega
  · cases hdigit

theorem readToken_of_isIdentStart {c : Char} (hc : isIdentStart c = true) :
    readToken c cs = .ok (.ident (String.ofList (c :: cs.takeWhile isIdentPart)),
      (cs.takeWhile isIdentPart).length) := by
  unfold readToken
  split
  case h_15 =>
    have hquote : ¬ (c = '\'' ∨ c = '"') := by
      rintro (rfl | rfl) <;> exact absurd hc (by decide)
    rw [if_neg hquote, if_neg (by simp [isDigit_eq_false_of_isIdentStart hc]), if_pos hc]
  all_goals exact absurd hc (by decide)

theorem readToken_of_isDigit {c : Char} (hc : c.isDigit = true) :
    readToken c cs = readNumber c cs := by
  unfold readToken
  split
  case h_15 =>
    have hquote : ¬ (c = '\'' ∨ c = '"') := by
      rintro (rfl | rfl) <;> cases hc
    rw [if_neg hquote, if_pos hc]
  all_goals cases hc

/-! ### Quoted text -/

/-- Text between quotes `q`, the closing one included, and what it stands for: a backslash stands
for the character after it. -/
inductive Quotes (q : Char) : List Char → List Char → Prop where
  | close : Quotes q [] [q]
  | char {c : Char} {s ds : List Char} :
    c ≠ q → c ≠ '\\' → Quotes q s ds → Quotes q (c :: s) (c :: ds)
  | escape {d : Char} {s ds : List Char} :
    '\\' ≠ q → Quotes q s ds → Quotes q (d :: s) ('\\' :: d :: ds)

theorem readQuoted_close (q : Char) (cs : List Char) : readQuoted q (q :: cs) = some ([], 1) := by
  rw [readQuoted.eq_def]
  exact if_pos rfl

theorem readQuoted_char (hq : c ≠ q) (hescape : c ≠ '\\') (cs : List Char) :
    readQuoted q (c :: cs) = (readQuoted q cs).map fun r => (c :: r.1, r.2 + 1) := by
  rw [readQuoted.eq_def]
  dsimp only
  rw [if_neg hq, if_neg hescape]

theorem readQuoted_escape (hq : '\\' ≠ q) (c : Char) (cs : List Char) :
    readQuoted q ('\\' :: c :: cs) = (readQuoted q cs).map fun r => (c :: r.1, r.2 + 2) := by
  rw [readQuoted.eq_def]
  dsimp only
  rw [if_neg hq, if_pos rfl]

/-- Text between quotes is read up to the closing quote. -/
theorem readQuoted_of_quotes {s : List Char} (h : Quotes q s ds) (rest : List Char) :
    readQuoted q (ds ++ rest) = some (s, ds.length) := by
  induction h with
  | close => exact readQuoted_close q rest
  | char hq hescape _ ih =>
    rw [List.cons_append, readQuoted_char hq hescape, ih]
    rfl
  | escape hq _ ih =>
    rw [List.cons_append, List.cons_append, readQuoted_escape hq, ih]
    rfl

theorem quotes_of_readQuoted {s : List Char} (h : readQuoted q cs = some (s, k)) :
    ∃ ds rest, cs = ds ++ rest ∧ k = ds.length ∧ Quotes q s ds := by
  induction cs using readQuoted.induct q generalizing s k with
  | case1 => cases h
  | case2 cs =>
    rw [readQuoted_close] at h
    cases h
    exact ⟨[q], cs, rfl, rfl, .close⟩
  | case3 hq =>
    rw [readQuoted.eq_def] at h
    dsimp only at h
    rw [if_neg hq, if_pos rfl] at h
    cases h
  | case4 d ds hq ih =>
    rw [readQuoted_escape hq, Option.map_eq_some_iff] at h
    obtain ⟨⟨s', k'⟩, hread, heq⟩ := h
    cases heq
    obtain ⟨ds', rest, rfl, rfl, hquotes⟩ := ih hread
    exact ⟨'\\' :: d :: ds', rest, rfl, rfl, .escape hq hquotes⟩
  | case5 c cs hq hescape ih =>
    rw [readQuoted_char hq hescape, Option.map_eq_some_iff] at h
    obtain ⟨⟨s', k'⟩, hread, heq⟩ := h
    cases heq
    obtain ⟨ds', rest, rfl, rfl, hquotes⟩ := ih hread
    exact ⟨c :: ds', rest, rfl, rfl, .char hq hescape hquotes⟩

/-! ### Spellings -/

/-- The marks that a token is written as, if it is no word, text or number. -/
def Token.mark? : Token → Option (List Char)
  | .ident _ | .str _ | .int _ | .decimal _ => none
  | .lparen => some ['(']
  | .rparen => some [')']
  | .lbracket => some ['[']
  | .rbracket => some [']']
  | .comma => some [',']
  | .eqEq => some ['=', '=']
  | .notEq => some ['!', '=']
  | .lt => some ['<']
  | .le => some ['<', '=']
  | .gt => some ['>']
  | .ge => some ['>', '=']
  | .plus => some ['+']
  | .minus => some ['-']
  | .star => some ['*']
  | .slashSlash => some ['/', '/']
  | .percent => some ['%']

/-- The digits of a number without the underscores between them. -/
def significant (ds : List Char) : List Char := ds.filter (· != '_')

/-- The spellings of a token. -/
inductive Spells : Token → List Char → Prop where
  | ident {c : Char} {cs : List Char} :
    isIdentStart c = true → (∀ d ∈ cs, isIdentPart d = true) →
      Spells (.ident (String.ofList (c :: cs))) (c :: cs)
  | str {q : Char} {s ds : List Char} :
    q = '\'' ∨ q = '"' → Quotes q s ds → Spells (.str (String.ofList s)) (q :: ds)
  | int {c : Char} {ds : List Char} :
    c.isDigit = true → (∀ d ∈ ds, isDigitPart d = true) →
      Integer.fits (ofDigits (significant (c :: ds))) = true →
      Spells (.int (ofDigits (significant (c :: ds)))) (c :: ds)
  | decimal {c : Char} {ds fs : List Char} :
    c.isDigit = true → (∀ d ∈ ds, isDigitPart d = true) → fs ≠ [] →
      (∀ d ∈ fs, d.isDigit = true) →
      Spells (.decimal (String.ofList (significant (c :: ds) ++ '.' :: fs))) (c :: ds ++ '.' :: fs)
  | mark {u : Token} {ds : List Char} : u.mark? = some ds → Spells u ds

/-- Text that does not go on with a token. -/
def Stops : Token → List Char → Prop
  | .ident _, rest => ∀ c ∈ rest.head?, isIdentPart c = false
  | .int _, rest => (∀ c ∈ rest.head?, isDigitPart c = false) ∧
      ∀ d more, rest = '.' :: d :: more → d.isDigit = false
  | .decimal _, rest => ∀ c ∈ rest.head?, c.isDigit = false
  | .lt, rest | .gt, rest => ∀ c ∈ rest.head?, c ≠ '='
  | _, _ => True

theorem Spells.ne_nil (h : Spells u cs) : cs ≠ [] := by
  cases h with
  | mark h =>
    rintro rfl
    cases u <;> cases h
  | _ => exact List.cons_ne_nil _ _

/-! ### Text that begins with a token -/

theorem takeWhile_append_of_head {p : Char → Bool} {ds : List Char} (hds : ∀ d ∈ ds, p d = true)
    (hcs : ∀ c ∈ cs.head?, p c = false) : (ds ++ cs).takeWhile p = ds := by
  have hnil : cs.takeWhile p = [] := by
    cases cs with
    | nil => rfl
    | cons c cs => rw [List.takeWhile_cons_of_neg (by simpa using hcs c rfl)]
  rw [List.takeWhile_append_of_pos hds, hnil, List.append_nil]

theorem drop_append_length {ds : List Char} : (ds ++ cs).drop ds.length = cs := by
  rw [List.drop_append_of_le_length (Nat.le_refl _), List.drop_length, List.nil_append]

/-- Text is its longest front of characters of a kind, and a rest that does not go on with it. -/
theorem exists_takeWhile_append (p : Char → Bool) (cs : List Char) :
    ∃ rest, cs = cs.takeWhile p ++ rest ∧ cs.drop (cs.takeWhile p).length = rest ∧
      ∀ c ∈ rest.head?, p c = false := by
  refine ⟨cs.dropWhile p, List.takeWhile_append_dropWhile.symm, ?_, fun c hc => ?_⟩
  · have hdrop := @drop_append_length (cs.dropWhile p) (cs.takeWhile p)
    rwa [List.takeWhile_append_dropWhile] at hdrop
  · have hhead := List.head?_dropWhile_not p cs
    rwa [Option.mem_def.1 hc] at hhead

theorem ofWhole_eq_ok_iff {reach : Nat} :
    readNumber.ofWhole ds reach = .ok (u, k) ↔
      u = .int (ofDigits ds) ∧ k = reach ∧ Integer.fits (ofDigits ds) = true := by
  unfold readNumber.ofWhole
  split <;> simp [*, eq_comm]

/-- A number that is read is spelled by what is read. -/
theorem spells_of_readNumber (hc : c.isDigit = true) (h : readNumber c cs = .ok (u, k)) :
    ∃ ds rest, cs = ds ++ rest ∧ k = ds.length ∧ Spells u (c :: ds) ∧ Stops u rest := by
  obtain ⟨rest, hsplit, hdrop, hrest⟩ := exists_takeWhile_append isDigitPart cs
  have hdigits : ∀ d ∈ cs.takeWhile isDigitPart, isDigitPart d = true :=
    fun _ => List.mem_takeWhile_imp
  -- an integer is all the digits, and no decimal begins with it
  have hint : (∀ d more, rest = '.' :: d :: more → d.isDigit = false) →
      readNumber.ofWhole (significant (c :: cs.takeWhile isDigitPart))
        (cs.takeWhile isDigitPart).length = .ok (u, k) →
      ∃ ds rest, cs = ds ++ rest ∧ k = ds.length ∧ Spells u (c :: ds) ∧ Stops u rest := by
    intro hpoint hwhole
    obtain ⟨rfl, rfl, hfits⟩ := ofWhole_eq_ok_iff.1 hwhole
    exact ⟨_, rest, hsplit, rfl, .int hc hdigits hfits, hrest, hpoint⟩
  unfold readNumber at h
  dsimp only at h
  rw [hdrop] at h
  split at h
  · next d more =>
    split at h
    · next hd =>
      cases h
      obtain ⟨rest, hmore, -, hrest⟩ := exists_takeWhile_append Char.isDigit more
      have hfraction : ∀ e ∈ d :: more.takeWhile Char.isDigit, e.isDigit = true :=
        List.forall_mem_cons.2 ⟨hd, fun _ => List.mem_takeWhile_imp⟩
      refine ⟨cs.takeWhile isDigitPart ++ '.' :: d :: more.takeWhile Char.isDigit, rest, ?_, ?_,
        .decimal hc hdigits (List.cons_ne_nil _ _) hfraction, hrest⟩
      · rw [List.append_assoc, List.cons_append, List.cons_append, ← hmore]
        exact hsplit
      · simp only [List.length_append, List.length_cons]
        omega
    · next hd =>
      refine hint ?_ h
      rintro d' more' heq
      cases heq
      simpa using hd
  · next hpoint => exact hint (fun d more heq => absurd heq (hpoint d more)) h

/-- One of two tokens is read, by whether the mark follows. -/
theorem readMark_eq_ok {d : Char} {two : Token} {one : Except SyntaxFault Token}
    (h : readMark d cs two one = .ok (u, k)) :
    (∃ rest, cs = [d] ++ rest ∧ k = 1 ∧ u = two) ∨
      one = .ok u ∧ k = 0 ∧ ∀ c ∈ cs.head?, c ≠ d := by
  have hone : ∀ {r : Except SyntaxFault Token}, r.map (·, 0) = .ok (u, k) → r = .ok u ∧ k = 0 := by
    intro r hr
    cases r <;> cases hr
    exact ⟨rfl, rfl⟩
  unfold readMark at h
  split at h
  · next c rest =>
    split at h
    · next hd =>
      cases h
      exact .inl ⟨rest, by rw [hd]; rfl, rfl, rfl⟩
    · next hd =>
      obtain ⟨hone, hk⟩ := hone h
      refine .inr ⟨hone, hk, fun c hc => ?_⟩
      cases hc
      exact hd
  · obtain ⟨hone, hk⟩ := hone h
    exact .inr ⟨hone, hk, fun c hc => nomatch hc⟩

/-- **The token that is read is spelled by what is read**, and the rest does not go on with it. -/
theorem spells_of_readToken (h : readToken c cs = .ok (u, k)) :
    ∃ ds rest, cs = ds ++ rest ∧ k = ds.length ∧ Spells u (c :: ds) ∧ Stops u rest := by
  have hmark : ∀ {u}, u.mark? = some [c] → Stops u cs →
      ∃ ds rest, cs = ds ++ rest ∧ 0 = ds.length ∧ Spells u (c :: ds) ∧ Stops u rest :=
    fun hu hcs => ⟨[], cs, rfl, rfl, .mark hu, hcs⟩
  have htwo : ∀ {d u}, u.mark? = some [c, d] → (∀ rest, Stops u rest) → ∀ rest, cs = [d] ++ rest →
      ∃ ds rest, cs = ds ++ rest ∧ 1 = ds.length ∧ Spells u (c :: ds) ∧ Stops u rest :=
    fun hu hrest rest hcs => ⟨_, rest, hcs, rfl, .mark hu, hrest rest⟩
  unfold readToken at h
  split at h
  case h_15 =>
    split at h
    · next hq =>
      split at h
      · next s reach hread =>
        cases h
        obtain ⟨ds, rest, rfl, rfl, hquotes⟩ := quotes_of_readQuoted hread
        exact ⟨ds, rest, rfl, rfl, .str hq hquotes, trivial⟩
      · cases h
    · split at h
      · next hdigit => exact spells_of_readNumber hdigit h
      · split at h
        · next hstart =>
          cases h
          obtain ⟨rest, hsplit, -, hrest⟩ := exists_takeWhile_append isIdentPart cs
          exact ⟨_, rest, hsplit, rfl, .ident hstart fun _ => List.mem_takeWhile_imp, hrest⟩
        · cases h
  -- marks of one or two characters
  case h_10 | h_11 | h_12 | h_13 | h_14 =>
    rcases readMark_eq_ok h with ⟨rest, hcs, rfl, rfl⟩ | ⟨hone, rfl, hrest⟩
    · exact htwo rfl (fun _ => trivial) rest hcs
    · cases hone
      try exact hmark rfl hrest
  all_goals
    cases h
    exact hmark rfl trivial

theorem readToken_quote (hq : q = '\'' ∨ q = '"') (cs : List Char) :
    readToken q cs =
      match readQuoted q cs with
      | some (s, reach) => .ok (.str (String.ofList s), reach)
      | none => .error .unterminatedString := by
  rcases hq with rfl | rfl <;> rfl

theorem readMark_of_head {d : Char} {two : Token} {one : Except SyntaxFault Token}
    (h : ∀ c ∈ cs.head?, c ≠ d) : readMark d cs two one = one.map (·, 0) := by
  unfold readMark
  split
  · next c _ => rw [if_neg (h c rfl)]
  · rfl

theorem readNumber_of_int (hds : ∀ d ∈ ds, isDigitPart d = true)
    (hfits : Integer.fits (ofDigits (significant (c :: ds))) = true)
    (hrest : Stops (.int (ofDigits (significant (c :: ds)))) rest) :
    readNumber c (ds ++ rest) = .ok (.int (ofDigits (significant (c :: ds))), ds.length) := by
  have hwhole : readNumber.ofWhole (significant (c :: ds)) ds.length =
      .ok (.int (ofDigits (significant (c :: ds))), ds.length) :=
    ofWhole_eq_ok_iff.2 ⟨rfl, rfl, hfits⟩
  unfold readNumber
  dsimp only
  rw [takeWhile_append_of_head hds hrest.1, drop_append_length]
  split
  · next d more => rw [if_neg (by simp [hrest.2 d more rfl])]; exact hwhole
  · exact hwhole

theorem readNumber_of_decimal {fs : List Char} (hds : ∀ d ∈ ds, isDigitPart d = true)
    (hne : fs ≠ []) (hfs : ∀ d ∈ fs, d.isDigit = true)
    (hrest : ∀ c ∈ rest.head?, c.isDigit = false) :
    readNumber c (ds ++ '.' :: fs ++ rest) =
      .ok (.decimal (String.ofList (significant (c :: ds) ++ '.' :: fs)),
        (ds ++ '.' :: fs).length) := by
  obtain ⟨f, fs, rfl⟩ := List.exists_cons_of_ne_nil hne
  obtain ⟨hf, hfs⟩ := List.forall_mem_cons.1 hfs
  have hlength : (ds ++ '.' :: f :: fs).length = ds.length + 1 + (f :: fs).length := by
    simp only [List.length_append, List.length_cons]
    omega
  rw [hlength, List.append_assoc, List.cons_append, List.cons_append]
  unfold readNumber
  dsimp only
  rw [takeWhile_append_of_head hds (by simp; decide), drop_append_length]
  simp only [if_pos hf, takeWhile_append_of_head hfs hrest]
  rfl

/-- A spelling is read as its token if the rest does not go on with it. -/
theorem readToken_of_spells (h : Spells u (c :: ds)) (hrest : Stops u rest) :
    readToken c (ds ++ rest) = .ok (u, ds.length) := by
  cases h with
  | ident hstart hpart =>
    rw [readToken_of_isIdentStart hstart, takeWhile_append_of_head hpart hrest]
  | str hq hquotes =>
    rw [readToken_quote hq, readQuoted_of_quotes hquotes]
  | int hc hds hfits =>
    rw [readToken_of_isDigit hc, readNumber_of_int hds hfits hrest]
  | decimal hc hds hne hfs =>
    rw [readToken_of_isDigit hc]
    exact readNumber_of_decimal hds hne hfs hrest
  | mark hu =>
    cases u with
    | lt | gt =>
      cases hu
      exact readMark_of_head hrest
    | _ => cases hu <;> rfl

/-- **The token at the front of a text is one that the text begins with a spelling of**, if the
rest does not go on with it. -/
theorem readToken_eq_ok_iff :
    readToken c cs = .ok (u, k) ↔
      ∃ ds rest, cs = ds ++ rest ∧ k = ds.length ∧ Spells u (c :: ds) ∧ Stops u rest := by
  constructor
  · exact spells_of_readToken
  · rintro ⟨ds, rest, rfl, rfl, hspells, hstops⟩
    exact readToken_of_spells hspells hstops

/-! ### What may follow a token -/

namespace Stops

variable {more : List Char}

/-- What may follow a token may be cut short. -/
theorem of_append (h : Stops u (rest ++ more)) : Stops u rest := by
  have hhead : ∀ {p : Char → Prop}, (∀ c ∈ (rest ++ more).head?, p c) → ∀ c ∈ rest.head?, p c := by
    intro p hp c hc
    refine hp c ?_
    rw [List.head?_append, Option.mem_def.1 hc]
    rfl
  cases u with
  | int n =>
    refine ⟨hhead h.1, fun d more' hpoint => h.2 d (more' ++ more) ?_⟩
    rw [hpoint]
    rfl
  | ident | decimal | lt | gt => exact hhead h
  | _ => trivial

/-- What may follow a token may be followed by a comment. -/
theorem comment (h : Stops u rest) (more : List Char) : Stops u (rest ++ '#' :: more) := by
  have hhead : ∀ {p : Char → Prop}, p '#' → (∀ c ∈ rest.head?, p c) →
      ∀ c ∈ (rest ++ '#' :: more).head?, p c := by
    intro p hp hrest c hc
    cases rest with
    | nil =>
      cases hc
      exact hp
    | cons d rest => exact hrest c hc
  cases u with
  | int n =>
    refine ⟨hhead (by decide) h.1, fun d more' hpoint => ?_⟩
    rcases rest with _ | ⟨c, _ | ⟨e, rest⟩⟩
    · cases hpoint
    · cases hpoint
      decide
    · cases hpoint
      exact h.2 d rest rfl
  | ident | decimal | lt | gt => exact hhead (by decide) h
  | _ => trivial

end Stops

/-! ### Cutting a text -/

/-- A text that stands at an offset is cut into lexemes: blanks are left out, and so is what stands
behind the sign of a comment; all else are spellings with text after them that does not go on with
them. -/
inductive Lexes : Nat → List Char → List Lexeme → Prop where
  | nil {o : Nat} : Lexes o [] []
  | blank {o : Nat} {c : Char} {cs : List Char} {ls : List Lexeme} :
    isBlank c = true → Lexes (o + c.utf8Size) cs ls → Lexes o (c :: cs) ls
  | comment {o : Nat} {cs : List Char} : Lexes o ('#' :: cs) []
  | token {o : Nat} {c : Char} {ds rest : List Char} {u : Token} {ls : List Lexeme} :
    isBlank c = false → c ≠ '#' → Spells u (c :: ds) → Stops u rest →
      Lexes (o + byteLength (c :: ds)) rest ls → Lexes o (c :: ds ++ rest) (⟨o, u⟩ :: ls)

/-- **A scan cuts a text into its lexemes.** -/
theorem scanFrom_eq_ok_iff {o : Nat} {ls : List Lexeme} :
    scanFrom o cs = .ok ls ↔ Lexes o cs ls := by
  constructor
  · intro h
    induction o, cs using scanFrom.induct generalizing ls with
    | case1 o =>
      rw [scanFrom] at h
      cases h
      exact .nil
    | case2 o c cs hblank ih =>
      rw [scanFrom, if_pos hblank] at h
      exact .blank hblank (ih h)
    | case3 o cs hblank =>
      rw [scanFrom, if_neg hblank, if_pos rfl] at h
      cases h
      exact .comment
    | case4 o c cs hblank hcomment fault hread =>
      rw [scanFrom, if_neg hblank, if_neg hcomment, hread] at h
      cases h
    | case5 o c cs hblank hcomment u k hread ih =>
      rw [scanFrom, if_neg hblank, if_neg hcomment, hread] at h
      obtain ⟨ds, rest, rfl, rfl, hspells, hstops⟩ := readToken_eq_ok_iff.1 hread
      simp only [List.take_left, drop_append_length] at h ih
      cases hrest : scanFrom (o + byteLength (c :: ds)) rest with
      | error e =>
        rw [hrest] at h
        cases h
      | ok ls' =>
        rw [hrest] at h
        cases h
        exact .token (by simpa using hblank) hcomment hspells hstops (ih hrest)
  · intro h
    induction h with
    | nil => rw [scanFrom]
    | blank hblank _ ih => rw [scanFrom, if_pos hblank, ih]
    | comment => rw [scanFrom, if_neg (by decide), if_pos rfl]
    | token hblank hcomment hspells hstops _ ih =>
      rw [List.cons_append, scanFrom, if_neg (by simp [hblank]), if_neg hcomment,
        readToken_of_spells hspells hstops]
      simp only [List.take_left, drop_append_length, ih]
      rfl

theorem scan_eq_ok_iff {text : String} {ls : List Lexeme} :
    scan text = .ok ls ↔ Lexes 0 text.toList ls := by
  rw [← scanFrom_eq_ok_iff, scan]
  cases scanFrom 0 text.toList <;> simp [Except.mapError]

end Progression.Rule
