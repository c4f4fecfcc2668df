/-!
# Names

An item has a display name (`Suns Song`) and an identifier form of it
(`Suns_Song`), which is what rule text can spell.  The identifier form turns
blanks into underscores and drops the punctuation `'`, `(`, `)`, `[`, `]` and
`-`; two display names with one identifier form name the same item.

## Main definitions

* `Name.escape` — the identifier form of a display name.
* `Name.unescape` — an identifier read as a display name.
-/

namespace Progression.Name

/-- The punctuation that an identifier form leaves out. -/
def isDropped (c : Char) : Bool :=
  c == '\'' || c == '(' || c == ')' || c == '[' || c == ']' || c == '-'

/-- Turn blanks into underscores. -/
def joinWords (c : Char) : Char := if c = ' ' then '_' else c

/-- The identifier form of a display name, as characters. -/
def escapeChars (cs : List Char) : List Char :=
  (cs.map joinWords).filter fun c => !isDropped c

/-- The identifier form of a display name. -/
def escape (name : String) : String := String.ofList (escapeChars name.toList)

/-- An identifier read as a display name: underscores stand for blanks. -/
def unescape (name : String) : String :=
  String.ofList (name.toList.map fun c => if c = '_' then ' ' else c)

@[simp] theorem joinWords_joinWords (c : Char) : joinWords (joinWords c) = joinWords c := by
  by_cases h : c = ' ' <;> simp [joinWords, h]

/-- Escaping an identifier form changes nothing. -/
@[simp] theorem escapeChars_escapeChars (cs : List Char) :
    escapeChars (escapeChars cs) = escapeChars cs := by
  have map_joinWords : ∀ xs : List Char,
      ((xs.map joinWords).filter fun c => !isDropped c).map joinWords =
        (xs.map joinWords).filter fun c => !isDropped c := by
    intro xs
    induction xs with
    | nil => rfl
    | cons x xs ih =>
      simp only [List.map_cons, List.filter_cons]
      split
      · simp [ih]
      · exact ih
  unfold escapeChars
  rw [map_joinWords, List.filter_filter]
  simp

/-- Escaping twice is escaping once. -/
@[simp] theorem escape_escape (name : String) : escape (escape name) = escape name := by
  simp [escape]

end Progression.Name
