import Progression.Text.InversionList

/-!
# White space

The characters with the Unicode property White_Space: twenty-five code points
in ten ranges, the same in every version of the standard since 6.3.

## Main definitions

* `isBlank` — the character class.
* `trimBlanks` — a text without the blanks at its ends.
-/

namespace Progression.Text

/-- The boundaries of the white-space characters. -/
def blankBounds : InversionList :=
  [
    0x9, 0xE, 0x20, 0x21, 0x85, 0x86, 0xA0, 0xA1, 0x1680, 0x1681,
    0x2000, 0x200B, 0x2028, 0x202A, 0x202F, 0x2030, 0x205F, 0x2060, 0x3000, 0x3001
  ]

/-- White space. -/
def isBlank (c : Char) : Bool := blankBounds.contains c.toNat

/-- Drop the blanks at the start of a text. -/
def dropBlanks (cs : List Char) : List Char := cs.dropWhile isBlank

/-- Drop the blanks at both ends of a text. -/
def trimBlanks (cs : List Char) : List Char :=
  (dropBlanks (dropBlanks cs).reverse).reverse

/-- A text of nothing but blanks. -/
def isBlankText (cs : List Char) : Bool := cs.all isBlank

/-- Every character that core counts as white space is blank. -/
theorem isBlank_of_isWhitespace {c : Char} (h : c.isWhitespace = true) : isBlank c = true := by
  simp only [Char.isWhitespace, Bool.or_eq_true, decide_eq_true_eq] at h
  rcases h with ((rfl | rfl) | rfl) | rfl <;> rfl

end Progression.Text
