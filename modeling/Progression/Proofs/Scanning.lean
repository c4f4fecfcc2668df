import Progression.Proofs.Operators
import Progression.Proofs.Spelling

/-!
# Scanning text that was written

A word or a number is cut off as long as it can be.  So it is cut off as it was written if
what comes next goes on with no word and with no number, and then the text after it is cut
as it would be alone.  A mark of one character needs nothing of what comes next.

## Main definitions

* `Token.Proper` — a token that can stand in text.
* `Apart` — text that goes on with no word, number or mark.
* `Scans` — text and the tokens that it is cut into.

## Main results

* `proper_of_scan` — the tokens that text is cut into are proper.
* `Scans.word`, `Scans.int`, `Scans.decimal`, `Scans.str` — words, numbers and quoted text
  are cut off as they are written.
-/

namespace Progression.Rule

open Text

/-! ### Proper tokens -/

/-- A token that can stand in text: a word begins with a character of words, and a number
has digits. -/
def Token.Proper : Token → Prop
  | .ident word => ∃ c cs, word.toList = c :: cs ∧ isBlank c = false ∧ isIdentStart c = true ∧
      ∀ d ∈ cs, isIdentPart d = true
  | .int n => ∃ k : Nat, n = k ∧ Integer.fits k = true
  | .decimal digits => ∃ c whole fraction, digits.toList = c :: whole ++ '.' :: fraction ∧
      fraction ≠ [] ∧ ∀ d ∈ c :: whole ++ fraction, d.isDigit = true
  | _ => True

theorem isBlank_eq_false_of_isDigit {c : Char} (h : c.isDigit = true) : isBlank c = false := by
  have hbounds := toNat_of_isDigit h
  have hbelow : ∀ b ∈ [0x9, 0xE, 0x20, 0x21], ¬ c.toNat < b := by
    intro b hb
    have : b ≤ 0x21 := by
      revert b
      decide
    omega
  have habove : c.toNat < 0x85 := by omega
  simp [isBlank, blankBounds, InversionList.contains_cons, hbelow, habove]

theorem isDigit_of_mem_significant {ds : List Char} (hds : ∀ d ∈ ds, isDigitPart d = true) :
    ∀ d ∈ significant ds, d.isDigit = true := by
  intro d hd
  obtain ⟨hd, hne⟩ := List.mem_filter.1 hd
  have hpart := hds d hd
  simpa [isDigitPart, bne_iff_ne.1 hne] using hpart

theorem significant_cons {c : Char} (hc : c.isDigit = true) (ds : List Char) :
    significant (c :: ds) = c :: significant ds := by
  have hne : c ≠ '_' := by
    rintro rfl
    cases hc
  exact List.filter_cons_of_pos (by simpa using hne)

/-- What is spelled is proper. -/
theorem proper_of_spells {c : Char} {ds : List Char} {u : Token} (hc : isBlank c = false)
    (h : Spells u (c :: ds)) : u.Proper := by
  generalize hcs : c :: ds = cs at h
  cases h with
  | ident hstart hpart =>
    cases hcs
    exact ⟨c, ds, String.toList_ofList, hc, hstart, hpart⟩
  | str => trivial
  | int _ _ hfits => exact ⟨_, rfl, hfits⟩
  | @decimal c ds fs hc hds hne hfs =>
    refine ⟨c, significant ds, fs, ?_, hne, ?_⟩
    · rw [String.toList_ofList, significant_cons hc]
    · rw [List.cons_append]
      exact List.forall_mem_cons.2
        ⟨hc, List.forall_mem_append.2 ⟨isDigit_of_mem_significant hds, hfs⟩⟩
  | @mark u ds hu => cases u <;> trivial

/-- The tokens that text is cut into are proper. -/
theorem proper_of_scan {o : Nat} {cs : List Char} {ls : List Lexeme}
    (h : scanFrom o cs = .ok ls) : ∀ u ∈ tokens ls, u.Proper := by
  rw [scanFrom_eq_ok_iff] at h
  induction h with
  | nil | comment => exact fun _ hu => nomatch hu
  | blank _ _ ih => exact ih
  | token hblank _ hspells _ _ ih =>
    exact List.forall_mem_cons.2 ⟨proper_of_spells hblank hspells, ih⟩

/-! ### Cutting off one token -/

/-- Text that goes on with no word, number or decimal. -/
def Apart (cs : List Char) : Prop := ∀ c ∈ cs.head?, isIdentPart c = false ∧ c ≠ '.'

theorem apart_nil : Apart [] := nofun

theorem apart_cons {c : Char} {cs : List Char} :
    Apart (c :: cs) ↔ isIdentPart c = false ∧ c ≠ '.' := by
  simp [Apart]

variable {cs : List Char} {us : List Token}

theorem isDigitPart_of_isDigit {c : Char} (h : c.isDigit = true) : isDigitPart c = true := by
  simp [isDigitPart, h]

/-- What goes on with no word goes on with no number. -/
theorem Apart.digits (h : Apart cs) :
    ∀ c ∈ cs.head?, isDigitPart c = false ∧ c.isDigit = false := by
  intro c hc
  have hpart := (h c hc).1
  simp only [isIdentPart, Bool.or_eq_false_iff] at hpart
  have hdigit : c.isDigit = false := by
    rw [Bool.eq_false_iff]
    intro hdigit
    rw [isNumeric_of_isDigit hdigit] at hpart
    cases hpart.1.2
  exact ⟨by simp [isDigitPart, hdigit, hpart.2], hdigit⟩

theorem significant_of_isDigit {ds : List Char} (hds : ∀ d ∈ ds, d.isDigit = true) :
    significant ds = ds := by
  rw [significant, List.filter_eq_self]
  intro d hd
  have hdigit := hds d hd
  rw [bne_iff_ne]
  rintro rfl
  cases hdigit

theorem quotes_append {q : Char} {s : List Char} (hq : q ∉ s) (hs : '\\' ∉ s) :
    Quotes q s (s ++ [q]) := by
  induction s with
  | nil => exact .close
  | cons c s ih =>
    rw [List.mem_cons, not_or] at hq hs
    exact .char (Ne.symm hq.1) (Ne.symm hs.1) (ih hq.2 hs.2)

/-! ### Cutting text into tokens -/

/-- Text is cut into tokens, wherever it stands. -/
def Scans (cs : List Char) (us : List Token) : Prop :=
  ∀ o, ∃ ls, scanFrom o cs = .ok ls ∧ tokens ls = us

theorem scans_nil : Scans [] [] := fun _ => ⟨[], by rw [scanFrom], rfl⟩

namespace Scans

theorem blank (h : Scans cs us) : Scans (' ' :: cs) us := by
  intro o
  obtain ⟨ls, hls, rfl⟩ := h (o + ' '.utf8Size)
  exact ⟨ls, scanFrom_eq_ok_iff.2 (.blank (by decide) (scanFrom_eq_ok_iff.1 hls)), rfl⟩

/-- A spelling is cut off, if the text after it does not go on with the token. -/
theorem spelled {c : Char} {ds : List Char} {u : Token} (hblank : isBlank c = false)
    (hcomment : c ≠ '#') (hspells : Spells u (c :: ds)) (hcs : Stops u cs) (h : Scans cs us) :
    Scans (c :: ds ++ cs) (u :: us) := by
  intro o
  obtain ⟨ls, hls, rfl⟩ := h (o + byteLength (c :: ds))
  have hrest := scanFrom_eq_ok_iff.1 hls
  exact ⟨_, scanFrom_eq_ok_iff.2 (.token hblank hcomment hspells hcs hrest), rfl⟩

/-- One token is cut off, and then the text after it. -/
theorem token {c : Char} {u : Token} {k : Nat} (hblank : isBlank c = false) (hcomment : c ≠ '#')
    (hread : readToken c cs = .ok (u, k)) (h : Scans (cs.drop k) us) :
    Scans (c :: cs) (u :: us) := by
  obtain ⟨ds, rest, rfl, rfl, hspells, hstops⟩ := readToken_eq_ok_iff.1 hread
  rw [drop_append_length] at h
  exact spelled hblank hcomment hspells hstops h

theorem word {w : String} (hw : (Token.ident w).Proper) (hcs : Apart cs) (h : Scans cs us) :
    Scans (w.toList ++ cs) (.ident w :: us) := by
  obtain ⟨c, ds, hlist, hblank, hstart, hpart⟩ := hw
  have hcomment : c ≠ '#' := by
    rintro rfl
    exact absurd hstart (by decide)
  have hspells : Spells (.ident w) (c :: ds) := by
    rw [← String.ofList_toList (s := w), hlist]
    exact .ident hstart hpart
  rw [hlist]
  exact spelled hblank hcomment hspells (fun d hd => (hcs d hd).1) h

/-- Text that begins with a digit is cut off as the number that it spells. -/
theorem digits {c : Char} {ds : List Char} {u : Token} (hc : c.isDigit = true)
    (hspells : Spells u (c :: ds)) (hcs : Stops u cs) (h : Scans cs us) :
    Scans (c :: ds ++ cs) (u :: us) := by
  have hcomment : c ≠ '#' := by
    rintro rfl
    cases hc
  exact spelled (isBlank_eq_false_of_isDigit hc) hcomment hspells hcs h

theorem int {n : Int} (hn : (Token.int n).Proper) (hcs : Apart cs) (h : Scans cs us) :
    Scans ((toString n).toList ++ cs) (.int n :: us) := by
  obtain ⟨k, rfl, hk⟩ := hn
  have htext : (toString (k : Int)).toList = Nat.toDigits 10 k := Nat.toList_repr
  obtain ⟨c, ds, hlist⟩ := List.exists_cons_of_ne_nil (@Nat.toDigits_ne_nil k 10)
  have hdigits : ∀ d ∈ c :: ds, d.isDigit = true := by
    rw [← hlist]
    exact fun _ hd => Nat.isDigit_of_mem_toDigits (by decide) (by decide) hd
  have hvalue : ofDigits (significant (c :: ds)) = k := by
    rw [significant_of_isDigit hdigits, ← hlist]
    exact Nat.ofDigitChars_toDigits (by decide) (by decide)
  obtain ⟨hc, hds⟩ := List.forall_mem_cons.1 hdigits
  have hspells := Spells.int hc (fun d hd => isDigitPart_of_isDigit (hds d hd)) (by rwa [hvalue])
  rw [hvalue] at hspells
  rw [htext, hlist]
  refine digits hc hspells ⟨fun d hd => (hcs.digits d hd).1, fun d more hpoint => ?_⟩ h
  exact absurd rfl (hcs '.' (by rw [hpoint]; rfl)).2

theorem decimal {d : String} (hd : (Token.decimal d).Proper) (hcs : Apart cs) (h : Scans cs us) :
    Scans (d.toList ++ cs) (.decimal d :: us) := by
  obtain ⟨c, whole, fraction, hlist, hne, hdigits⟩ := hd
  obtain ⟨hwhole, hfraction⟩ := List.forall_mem_append.1 hdigits
  obtain ⟨hc, hparts⟩ := List.forall_mem_cons.1 hwhole
  have hvalue : String.ofList (significant (c :: whole) ++ '.' :: fraction) = d := by
    rw [significant_of_isDigit hwhole, ← hlist, String.ofList_toList]
  have hspells := Spells.decimal hc (fun e he => isDigitPart_of_isDigit (hparts e he)) hne hfraction
  rw [hvalue] at hspells
  rw [hlist]
  exact digits hc hspells (fun e he => (hcs.digits e he).2) h

/-- Quoted text that needs no escapes. -/
theorem str {s : String} (hquote : '\'' ∉ s.toList) (hescape : '\\' ∉ s.toList) (h : Scans cs us) :
    Scans ('\'' :: (s.toList ++ '\'' :: cs)) (.str s :: us) := by
  have hspells := Spells.str (.inl rfl) (quotes_append hquote hescape)
  rw [String.ofList_toList] at hspells
  have hscans := spelled (by decide) (by decide) hspells trivial h
  simpa using hscans

end Scans

end Progression.Rule
