import Mathlib.Data.String.Basic
import Progression.Proofs.Spelling

/-!
# Where tokens stand in a text

A text that is scanned is cut into pieces: each begins with the spelling of a token and ends with
blanks, and the last one may end with a comment.  A token starts where its piece does, counted in
bytes, which is always the start of a character of the text.  A piece that is scanned by itself
gives its token and nothing else, so a token does not depend on what stands around it, and a
comment behind the text changes no token.

## Main definitions

* `IsGap` — what may stand before a token or after it.
* `Piece` — the spelling of a token, and what stands after it.
* `startOf`, `slice` — where a token starts, and the text up to the next one.
* `Cut` — the lexemes of a text are where the tokens of its slices stand.

## Main results

* `exists_pieces` — a text that is scanned is cut into pieces.
* `Piece.Clean.lexes` — a piece that is scanned by itself gives its token.
* `Lexes.append_comment` — a comment behind a text changes no token.
* `split_of_scanFrom_error` — a fault is where a character of the text starts.
* `scan_cut` — **a text is cut into tokens, and each slice gives its token.**
-/

namespace Progression.Rule

open Text

variable {o : Nat} {cs : List Char} {ls : List Lexeme}

/-! ### Lengths in bytes -/

theorem byteLength_eq_utf8Len (cs : List Char) : byteLength cs = String.utf8Len cs := by
  induction cs with
  | nil => rfl
  | cons c cs ih => rw [byteLength, String.utf8Len, ih, Nat.add_comm]

theorem byteLength_append (cs ds : List Char) :
    byteLength (cs ++ ds) = byteLength cs + byteLength ds := by
  simp only [byteLength_eq_utf8Len, String.utf8Len_append]

theorem byteLength_pos (h : cs ≠ []) : 0 < byteLength cs := by
  obtain ⟨c, cs, rfl⟩ := List.exists_cons_of_ne_nil h
  exact Nat.add_pos_left c.utf8Size_pos _

theorem byteLength_toList (text : String) : byteLength text.toList = text.utf8ByteSize := by
  rw [byteLength_eq_utf8Len, String.utf8Len_toList]

/-! ### Gaps and pieces -/

/-- Blanks, and behind the last token a comment too. -/
def IsGap (last : Bool) (cs : List Char) : Prop :=
  ∃ blanks comment, cs = blanks ++ comment ∧ (∀ c ∈ blanks, isBlank c = true) ∧
    (comment = [] ∨ last = true ∧ comment.head? = some '#')

theorem isGap_nil (last : Bool) : IsGap last [] := ⟨[], [], rfl, List.forall_mem_nil _, .inl rfl⟩

theorem IsGap.cons {c : Char} {last : Bool} (hc : isBlank c = true) (h : IsGap last cs) :
    IsGap last (c :: cs) := by
  obtain ⟨blanks, comment, rfl, hblanks, hcomment⟩ := h
  exact ⟨c :: blanks, comment, rfl, List.forall_mem_cons.2 ⟨hc, hblanks⟩, hcomment⟩

/-- Nothing is found in a gap. -/
theorem lexes_gap {last : Bool} (h : IsGap last cs) (o : Nat) : Lexes o cs [] := by
  obtain ⟨blanks, comment, rfl, hblanks, hcomment⟩ := h
  induction blanks generalizing o with
  | nil =>
    rcases hcomment with rfl | ⟨-, hhead⟩
    · exact .nil
    · obtain ⟨more, rfl⟩ := List.head?_eq_some_iff.1 hhead
      exact .comment
  | cons c blanks ih =>
    obtain ⟨hc, hblanks⟩ := List.forall_mem_cons.1 hblanks
    exact .blank hc (ih _ hblanks)

/-- The spelling of a token, and what stands after it. -/
structure Piece where
  token : Token
  spelling : List Char
  gap : List Char

namespace Piece

/-- The text of a piece. -/
def chars (p : Piece) : List Char := p.spelling ++ p.gap

/-- A piece begins with a spelling of its token, and what stands after it is a gap. -/
structure Clean (p : Piece) (last : Bool) : Prop where
  /-- A token begins neither with a blank nor with a comment. -/
  starts : ∀ c ∈ p.spelling.head?, isBlank c = false ∧ c ≠ '#'
  spells : Spells p.token p.spelling
  stops : Stops p.token p.gap
  gap : IsGap last p.gap

theorem Clean.chars_ne_nil {p : Piece} {last : Bool} (h : p.Clean last) : p.chars ≠ [] :=
  List.append_ne_nil_of_left_ne_nil h.spells.ne_nil _

/-- **A piece by itself is cut into its token**, wherever it starts. -/
theorem Clean.lexes {p : Piece} {last : Bool} (h : p.Clean last) (o : Nat) :
    Lexes o p.chars [⟨o, p.token⟩] := by
  obtain ⟨c, ds, hds⟩ := List.exists_cons_of_ne_nil h.spells.ne_nil
  obtain ⟨hblank, hcomment⟩ := h.starts c (by rw [hds]; rfl)
  rw [chars, hds]
  exact .token hblank hcomment (hds ▸ h.spells) h.stops (lexes_gap h.gap _)

end Piece

/-- All pieces of a text are clean; only the last one may end with a comment. -/
def Clean : List Piece → Prop
  | [] => True
  | p :: ps => p.Clean ps.isEmpty ∧ Clean ps

/-- The lexemes of pieces of which the first one starts at an offset. -/
def lexemesOf (o : Nat) : List Piece → List Lexeme
  | [] => []
  | p :: ps => ⟨o, p.token⟩ :: lexemesOf (o + byteLength p.chars) ps

/-- **A text is cut into pieces**, and its lexemes are where the pieces start. -/
theorem exists_pieces (h : Lexes o cs ls) :
    ∃ lead ps, cs = lead ++ ps.flatMap Piece.chars ∧ IsGap ps.isEmpty lead ∧ Clean ps ∧
      ls = lexemesOf (o + byteLength lead) ps := by
  induction h with
  | nil => exact ⟨[], [], rfl, isGap_nil true, trivial, rfl⟩
  | @blank o c cs ls hblank _ ih =>
    obtain ⟨lead, ps, rfl, hlead, hps, rfl⟩ := ih
    exact ⟨c :: lead, ps, rfl, hlead.cons hblank, hps, by rw [byteLength, Nat.add_assoc]⟩
  | @comment o cs =>
    refine ⟨'#' :: cs, [], by simp, ?_, trivial, rfl⟩
    exact ⟨[], '#' :: cs, rfl, List.forall_mem_nil _, .inr ⟨rfl, rfl⟩⟩
  | @token o c ds rest u ls hblank hcomment hspells hstops _ ih =>
    -- the gap in front of the rest stands behind this token
    obtain ⟨lead, ps, rfl, hlead, hps, rfl⟩ := ih
    refine ⟨[], ⟨u, c :: ds, lead⟩ :: ps, by simp [Piece.chars], isGap_nil _,
      ⟨⟨?_, hspells, hstops.of_append, hlead⟩, hps⟩, ?_⟩
    · intro d hd
      cases hd
      exact ⟨hblank, hcomment⟩
    · rw [lexemesOf, Piece.chars, byteLength_append, byteLength, Nat.add_zero, Nat.add_assoc]

/-! ### Comments and faults -/

/-- **A comment behind a text changes no token.** -/
theorem Lexes.append_comment (h : Lexes o cs ls) (more : List Char) :
    Lexes o (cs ++ '#' :: more) ls := by
  induction h with
  | nil | comment => exact .comment
  | blank hblank _ ih => exact .blank hblank ih
  | token hblank hcomment hspells hstops _ ih =>
    rw [List.append_assoc]
    exact .token hblank hcomment hspells (hstops.comment more) ih

/-- A fault is found where a character of the text starts. -/
theorem split_of_scanFrom_error {off : Nat} {fault : SyntaxFault}
    (h : scanFrom o cs = .error (off, fault)) :
    ∃ before c after, cs = before ++ c :: after ∧ off = o + byteLength before := by
  induction o, cs using scanFrom.induct with
  | case1 o =>
    rw [scanFrom] at h
    cases h
  | case2 o c cs hblank ih =>
    rw [scanFrom, if_pos hblank] at h
    obtain ⟨before, d, after, rfl, rfl⟩ := ih h
    exact ⟨c :: before, d, after, rfl, by rw [byteLength, Nat.add_assoc]⟩
  | case3 o cs hblank =>
    rw [scanFrom, if_neg hblank, if_pos rfl] at h
    cases h
  | case4 o c cs hblank hcomment found hread =>
    rw [scanFrom, if_neg hblank, if_neg hcomment, hread] at h
    cases h
    exact ⟨[], c, cs, rfl, rfl⟩
  | case5 o c cs hblank hcomment u k hread ih =>
    rw [scanFrom, if_neg hblank, if_neg hcomment, hread] at h
    cases hrest : scanFrom (o + byteLength (c :: cs.take k)) (cs.drop k) with
    | ok ls =>
      simp only [hrest] at h
      cases h
    | error e =>
      simp only [hrest] at h
      cases h
      obtain ⟨before, d, after, hsplit, rfl⟩ := ih hrest
      refine ⟨c :: cs.take k ++ before, d, after, ?_, ?_⟩
      · rw [List.append_assoc, ← hsplit, List.cons_append, List.take_append_drop]
      · rw [byteLength_append, Nat.add_assoc]

/-! ### Slices of a text -/

/-- The offset of a token; the text ends where the next one would start. -/
def startOf (text : String) (ls : List Lexeme) (i : Nat) : Nat :=
  (ls[i]?).elim text.utf8ByteSize Lexeme.offset

/-- The text from a token up to the next one. -/
def slice (text : String) (ls : List Lexeme) (i : Nat) : String :=
  String.Pos.Raw.extract text ⟨startOf text ls i⟩ ⟨startOf text ls (i + 1)⟩

/-- Lexemes are where the tokens of a text stand. -/
structure Cut (text : String) (ls : List Lexeme) : Prop where
  ascending : ls.Pairwise fun a b => a.offset < b.offset
  /-- A token starts where a character of the text does. -/
  boundary : ∀ l ∈ ls, String.Pos.Raw.IsValid text ⟨l.offset⟩ ∧ l.offset < text.utf8ByteSize
  /-- Nothing but blanks stands before the first token. -/
  lead : IsGap ls.isEmpty (String.Pos.Raw.extract text ⟨0⟩ ⟨startOf text ls 0⟩).toList
  /-- Nothing but blanks stands between two tokens, and behind the last one a comment too. -/
  spelled : ∀ i (hi : i < ls.length), ∃ spelling gap,
    (slice text ls i).toList = spelling ++ gap ∧ Spells ls[i].token spelling ∧
      IsGap (decide (i + 1 = ls.length)) gap
  /-- A slice that is scanned by itself gives its token. -/
  alone : ∀ i (hi : i < ls.length), scan (slice text ls i) = .ok [⟨0, ls[i].token⟩]

section Pieces

variable {ps : List Piece}

theorem length_lexemesOf (o : Nat) (ps : List Piece) : (lexemesOf o ps).length = ps.length := by
  induction ps generalizing o with
  | nil => rfl
  | cons p ps ih => rw [lexemesOf, List.length_cons, List.length_cons, ih]

/-- A lexeme is where the pieces before it end. -/
theorem getElem?_lexemesOf (o : Nat) (ps : List Piece) (i : Nat) :
    (lexemesOf o ps)[i]? = ps[i]?.map fun p =>
      ⟨o + byteLength ((ps.take i).flatMap Piece.chars), p.token⟩ := by
  induction ps generalizing o i with
  | nil => rfl
  | cons p ps ih =>
    cases i with
    | zero => rfl
    | succ i =>
      rw [lexemesOf, List.getElem?_cons_succ, List.getElem?_cons_succ, ih, List.take_succ_cons,
        List.flatMap_cons, byteLength_append, Nat.add_assoc]

theorem Clean.getElem (h : Clean ps) (i : Nat) (hi : i < ps.length) :
    ps[i].Clean (decide (i + 1 = ps.length)) := by
  induction ps generalizing i with
  | nil => cases hi
  | cons p ps ih =>
    obtain ⟨hp, hps⟩ := h
    cases i with
    | zero =>
      have hlast : ps.isEmpty = decide (0 + 1 = (p :: ps).length) := by
        cases ps <;> simp
      rw [← hlast]
      exact hp
    | succ i =>
      have hlast : decide (i + 1 = ps.length) = decide (i + 1 + 1 = (p :: ps).length) := by
        simp
      rw [← hlast]
      exact ih hps i (Nat.lt_of_succ_lt_succ hi)

theorem le_offset_of_mem_lexemesOf {l : Lexeme} (h : l ∈ lexemesOf o ps) : o ≤ l.offset := by
  induction ps generalizing o with
  | nil => cases h
  | cons p ps ih =>
    rcases List.mem_cons.1 h with rfl | h
    · exact Nat.le_refl _
    · exact (Nat.le_add_right _ _).trans (ih h)

theorem Clean.ascending (h : Clean ps) (o : Nat) :
    (lexemesOf o ps).Pairwise fun a b => a.offset < b.offset := by
  induction ps generalizing o with
  | nil => exact .nil
  | cons p ps ih =>
    obtain ⟨hp, hps⟩ := h
    refine List.pairwise_cons.2 ⟨fun l hl => ?_, ih hps _⟩
    have hle := le_offset_of_mem_lexemesOf hl
    have hpos := byteLength_pos hp.chars_ne_nil
    change o < l.offset
    omega

end Pieces

/-- A place in a text with a character behind it. -/
theorem isValid_of_append {text : String} {before after : List Char}
    (h : text.toList = before ++ after) (hafter : after ≠ []) :
    String.Pos.Raw.IsValid text ⟨byteLength before⟩ ∧ byteLength before < text.utf8ByteSize := by
  have htext : text = String.ofList before ++ String.ofList after := by
    rw [← String.ofList_append, ← h, String.ofList_toList]
  refine ⟨String.Pos.Raw.isValid_iff_exists_append.2 ⟨_, _, htext, ?_⟩, ?_⟩
  · rw [String.rawEndPos_ofList, byteLength_eq_utf8Len]
  · have hpos := byteLength_pos hafter
    rw [← byteLength_toList, h, byteLength_append]
    omega

section Text

variable {text : String} {lead : List Char} {ps : List Piece}
  (htext : text.toList = lead ++ ps.flatMap Piece.chars)
include htext

/-- The text in front of a piece ends where its token starts. -/
theorem startOf_lexemesOf {i : Nat} (hi : i ≤ ps.length) :
    startOf text (lexemesOf (byteLength lead) ps) i =
      byteLength (lead ++ (ps.take i).flatMap Piece.chars) := by
  rw [startOf, getElem?_lexemesOf, byteLength_append]
  rcases Nat.lt_or_eq_of_le hi with hlt | rfl
  · rw [List.getElem?_eq_getElem hlt]
    rfl
  · rw [List.getElem?_eq_none (Nat.le_refl _), List.take_length, ← byteLength_append, ← htext,
      byteLength_toList]
    rfl

omit htext in
theorem flatMap_chars_split {i : Nat} (hi : i < ps.length) :
    ps.flatMap Piece.chars = (ps.take i).flatMap Piece.chars ++
      (ps[i].chars ++ (ps.drop (i + 1)).flatMap Piece.chars) := by
  rw [← List.flatMap_cons, List.getElem_cons_drop, ← List.flatMap_append, List.take_append_drop]

/-- The slices of a text are its pieces. -/
theorem slice_lexemesOf {i : Nat} (hi : i < ps.length) :
    slice text (lexemesOf (byteLength lead) ps) i = String.ofList ps[i].chars := by
  have hsplit : text = String.ofList (lead ++ (ps.take i).flatMap Piece.chars ++ ps[i].chars ++
      (ps.drop (i + 1)).flatMap Piece.chars) := by
    rw [List.append_assoc, List.append_assoc, ← flatMap_chars_split hi, ← htext,
      String.ofList_toList]
  have hend : byteLength (lead ++ (ps.take (i + 1)).flatMap Piece.chars) =
      byteLength (lead ++ (ps.take i).flatMap Piece.chars) + byteLength ps[i].chars := by
    rw [List.take_succ_eq_append_getElem hi, List.flatMap_append, List.flatMap_singleton,
      ← List.append_assoc, byteLength_append]
  rw [slice, startOf_lexemesOf htext hi.le, startOf_lexemesOf htext hi, hend,
    byteLength_eq_utf8Len, byteLength_eq_utf8Len, hsplit]
  exact String.extract_of_valid _ _ _

/-- A text that is cut into clean pieces is cut at their lexemes. -/
theorem cut_lexemesOf (hlead : IsGap ps.isEmpty lead) (hps : Clean ps) :
    Cut text (lexemesOf (byteLength lead) ps) := by
  have hlength := length_lexemesOf (byteLength lead) ps
  have htoken : ∀ i (hi : i < (lexemesOf (byteLength lead) ps).length),
      ∃ hi' : i < ps.length, (lexemesOf (byteLength lead) ps)[i] =
        ⟨byteLength (lead ++ (ps.take i).flatMap Piece.chars), ps[i].token⟩ := by
    intro i hi
    have hi' : i < ps.length := hlength ▸ hi
    refine ⟨hi', Option.some.inj ?_⟩
    rw [← List.getElem?_eq_getElem, getElem?_lexemesOf, List.getElem?_eq_getElem hi',
      byteLength_append]
    rfl
  constructor
  case ascending => exact hps.ascending _
  case boundary =>
    intro l hl
    obtain ⟨i, hi, rfl⟩ := List.getElem_of_mem hl
    obtain ⟨hi', htoken⟩ := htoken i hi
    have hsplit : text.toList = lead ++ (ps.take i).flatMap Piece.chars ++
        (ps[i].chars ++ (ps.drop (i + 1)).flatMap Piece.chars) := by
      rw [htext, flatMap_chars_split hi', List.append_assoc]
    rw [htoken]
    exact isValid_of_append hsplit
      (List.append_ne_nil_of_left_ne_nil (hps.getElem i hi').chars_ne_nil _)
  case lead =>
    have hwhole : text = String.ofList ([] ++ lead ++ ps.flatMap Piece.chars) := by
      rw [List.nil_append, ← htext, String.ofList_toList]
    have hextract := String.extract_of_valid [] lead (ps.flatMap Piece.chars)
    rw [← hwhole, String.utf8Len_nil, Nat.zero_add, ← byteLength_eq_utf8Len] at hextract
    have hempty : (lexemesOf (byteLength lead) ps).isEmpty = ps.isEmpty := by
      rw [Bool.eq_iff_iff, List.isEmpty_iff_length_eq_zero, List.isEmpty_iff_length_eq_zero,
        hlength]
    rw [startOf_lexemesOf htext (Nat.zero_le _), List.take_zero, List.flatMap_nil,
      List.append_nil, hextract, String.toList_ofList, hempty]
    exact hlead
  case spelled =>
    intro i hi
    obtain ⟨hi', htoken⟩ := htoken i hi
    have hclean := hps.getElem i hi'
    refine ⟨ps[i].spelling, ps[i].gap, ?_, ?_, ?_⟩
    · rw [slice_lexemesOf htext hi', String.toList_ofList]
      rfl
    · rw [htoken]
      exact hclean.spells
    · rw [hlength]
      exact hclean.gap
  case alone =>
    intro i hi
    obtain ⟨hi', htoken⟩ := htoken i hi
    rw [slice_lexemesOf htext hi', scan_eq_ok_iff, String.toList_ofList, htoken]
    exact (hps.getElem i hi').lexes 0

end Text

theorem scan_eq_error {text : String} {e : SyntaxError} (h : scan text = .error e) :
    e.text = text ∧ scanFrom 0 text.toList = .error (e.offset, e.fault) := by
  rw [scan] at h
  cases hfrom : scanFrom 0 text.toList with
  | ok ls =>
    rw [hfrom] at h
    cases h
  | error found =>
    rw [hfrom] at h
    cases h
    exact ⟨rfl, rfl⟩

/-- **A text is cut into tokens, and each slice gives its token.**  The tokens of a text that is
scanned start at ascending offsets inside the text, each where a character starts.  Nothing but
blanks stands outside of their spellings, and behind the last one a comment too.  The slice from
a token up to the next one, or to the end, scans to this token alone.  A comment behind the text
changes nothing.  A fault is found where a character of the text starts. -/
theorem scan_cut (text : String) :
    match scan text with
    | .ok ls => Cut text ls ∧ ∀ more, scan (text ++ "#" ++ more) = .ok ls
    | .error e => e.text = text ∧ String.Pos.Raw.IsValid text ⟨e.offset⟩ ∧
        e.offset < text.utf8ByteSize := by
  cases hscan : scan text with
  | ok ls =>
    have hlexes : Lexes 0 text.toList ls := scan_eq_ok_iff.1 hscan
    obtain ⟨lead, ps, htext, hlead, hps, rfl⟩ := exists_pieces hlexes
    rw [Nat.zero_add] at hlexes ⊢
    refine ⟨cut_lexemesOf htext hlead hps, fun more => scan_eq_ok_iff.2 ?_⟩
    have hmore : (text ++ "#" ++ more).toList = text.toList ++ '#' :: more.toList := by
      rw [String.toList_append, String.toList_append, List.append_assoc]
      rfl
    rw [hmore]
    exact hlexes.append_comment more.toList
  | error e =>
    obtain ⟨htext, hfrom⟩ := scan_eq_error hscan
    obtain ⟨before, c, after, hsplit, hoffset⟩ := split_of_scanFrom_error hfrom
    rw [Nat.zero_add] at hoffset
    refine ⟨htext, ?_⟩
    rw [hoffset]
    exact isValid_of_append hsplit (List.cons_ne_nil c after)

-- the letter takes two bytes, and what follows the decimal is a word
example : (scan "é <= 1.5_0 # x").toOption =
    some [⟨0, .ident "é"⟩, ⟨3, .le⟩, ⟨6, .decimal "1.5"⟩, ⟨9, .ident "_0"⟩] := by
  decide +kernel

end Progression.Rule
