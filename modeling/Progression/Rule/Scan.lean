import Progression.Integer
import Progression.Rule.SyntaxError
import Progression.Text.Alphabetic
import Progression.Text.Blank
import Progression.Text.Numeric

/-!
# Reading tokens

Rule text is cut into tokens from left to right, each as long as it can be.
Blanks separate tokens and `#` starts a comment that runs to the end.

## Main definitions

* `readToken` — the token at the front of a text and how far it reaches.
* `scanFrom` — the lexemes of a text that starts at a given offset.
* `scan` — the lexemes of a rule.
-/

namespace Progression.Rule

open Text

/-- The number of bytes that a text takes up. -/
def byteLength : List Char → Nat
  | [] => 0
  | c :: cs => c.utf8Size + byteLength cs

/-- A character that can start an identifier. -/
def isIdentStart (c : Char) : Bool := isAlphabetic c || c == '_'

/-- A character that can go on with an identifier. -/
def isIdentPart (c : Char) : Bool := isAlphabetic c || isNumeric c || c == '_'

/-- A character that can go on with an integer. -/
def isDigitPart (c : Char) : Bool := c.isDigit || c == '_'

/-- The number that a list of decimal digits writes. -/
def ofDigits (ds : List Char) : Nat := ds.foldl (fun n d => 10 * n + (d.toNat - '0'.toNat)) 0

/-- The text up to the closing quote `q`, and the number of characters up to and
including it.  A backslash stands for the character after it. -/
def readQuoted (q : Char) : List Char → Option (List Char × Nat)
  | [] => none
  | c :: cs =>
    if c = q then some ([], 1)
    else if c = '\\' then
      match cs with
      | [] => none
      | d :: ds => (readQuoted q ds).map fun r => (d :: r.1, r.2 + 2)
    else (readQuoted q cs).map fun r => (c :: r.1, r.2 + 1)

/-- The integer or decimal that starts with the digit `c`.  A point belongs to
it only if a digit follows. -/
def readNumber (c : Char) (cs : List Char) : Except SyntaxFault (Token × Nat) :=
  let digits := cs.takeWhile isDigitPart
  let whole := (c :: digits).filter (· != '_')
  match cs.drop digits.length with
  | '.' :: d :: rest =>
    if d.isDigit then
      let fraction := d :: rest.takeWhile Char.isDigit
      .ok (.decimal (String.ofList (whole ++ '.' :: fraction)), digits.length + 1 + fraction.length)
    else ofWhole whole digits.length
  | _ => ofWhole whole digits.length
where
  /-- The integer of a list of digits. -/
  ofWhole (whole : List Char) (reach : Nat) : Except SyntaxFault (Token × Nat) :=
    if Integer.fits (ofDigits whole) then .ok (.int (ofDigits whole), reach)
    else .error (.integerRange (String.ofList whole))

/-- One of two tokens, by whether the mark `d` follows. -/
def readMark (d : Char) (cs : List Char) (two : Token) (one : Except SyntaxFault Token) :
    Except SyntaxFault (Token × Nat) :=
  match cs with
  | c :: _ => if c = d then .ok (two, 1) else one.map (·, 0)
  | [] => one.map (·, 0)

/-- The token that starts with `c`, and how many of the characters `cs` after
`c` belong to it. -/
def readToken (c : Char) (cs : List Char) : Except SyntaxFault (Token × Nat) :=
  match c with
  | '(' => .ok (.lparen, 0)
  | ')' => .ok (.rparen, 0)
  | '[' => .ok (.lbracket, 0)
  | ']' => .ok (.rbracket, 0)
  | ',' => .ok (.comma, 0)
  | '+' => .ok (.plus, 0)
  | '-' => .ok (.minus, 0)
  | '*' => .ok (.star, 0)
  | '%' => .ok (.percent, 0)
  | '/' => readMark '/' cs .slashSlash (.error .trueDivision)
  | '=' => readMark '=' cs .eqEq (.error .assignment)
  | '!' => readMark '=' cs .notEq (.error .loneBang)
  | '<' => readMark '=' cs .le (.ok .lt)
  | '>' => readMark '=' cs .ge (.ok .gt)
  | _ =>
    if c = '\'' ∨ c = '"' then
      match readQuoted c cs with
      | some (s, reach) => .ok (.str (String.ofList s), reach)
      | none => .error .unterminatedString
    else if c.isDigit then readNumber c cs
    else if isIdentStart c then
      let word := cs.takeWhile isIdentPart
      .ok (.ident (String.ofList (c :: word)), word.length)
    else .error (.unexpectedChar c)

/-- The lexemes of a text whose first character is at `offset`, or the first
fault and its offset. -/
def scanFrom (offset : Nat) : List Char → Except (Nat × SyntaxFault) (List Lexeme)
  | [] => .ok []
  | c :: cs =>
    if isBlank c then scanFrom (offset + c.utf8Size) cs
    else if c = '#' then .ok []
    else
      match readToken c cs with
      | .error fault => .error (offset, fault)
      | .ok (token, reach) =>
        (scanFrom (offset + byteLength (c :: cs.take reach)) (cs.drop reach)).map
          (⟨offset, token⟩ :: ·)
termination_by cs => cs.length

/-- The lexemes of a rule. -/
def scan (text : String) : Except SyntaxError (List Lexeme) :=
  (scanFrom 0 text.toList).mapError fun e => ⟨text, e.1, e.2⟩

end Progression.Rule
