import Progression.Text.GraphemeExtend
import Progression.Text.Printable

/-!
# Quoted text

The quoted form in which messages show a piece of text: between double quotes,
with a backslash before a double quote and before a backslash, the usual names
for tab, line feed, carriage return and the null character, and the code point
in braces for every other character that would not show as itself: one that
prints nothing, a mark that would join the character before it, a filler.

## Main definitions

* `isFiller` — the letters that print as nothing.
* `quotedChar` — the quoted form of one character.
* `quoted` — the quoted form of a text.
-/

namespace Progression.Text

/-- A number in lower-case hexadecimal digits. -/
def hexadecimal (n : Nat) : List Char := Nat.toDigits 16 n

/-- A Hangul filler: a letter that stands for a missing one and shows as nothing. -/
def isFiller (c : Char) : Bool :=
  c == '\u115F' || c == '\u1160' || c == '\u3164' || c == '\uFFA0'

/-- The quoted form of one character. -/
def quotedChar (c : Char) : List Char :=
  if c = '\x00' then ['\\', '0']
  else if c = '\t' then ['\\', 't']
  else if c = '\r' then ['\\', 'r']
  else if c = '\n' then ['\\', 'n']
  else if c = '"' then ['\\', '"']
  else if c = '\\' then ['\\', '\\']
  else if isPrintable c && !isGraphemeExtender c && !isFiller c then [c]
  else ['\\', 'u', '\x7b'] ++ hexadecimal c.toNat ++ ['\x7d']

/-- The quoted form of a text. -/
def quoted (s : String) : String :=
  String.ofList (['"'] ++ s.toList.flatMap quotedChar ++ ['"'])

end Progression.Text
