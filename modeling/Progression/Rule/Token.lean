import Progression.Text.Quoted

/-!
# Tokens of rule text

Rule text is made of identifiers, quoted text, integers, decimals and a fixed
set of marks.  The keywords `and`, `or`, `not`, `in`, `True` and `False` are
identifiers to the reader of tokens.

## Main definitions

* `Token` — the tokens.
* `Token.text` — the form in which messages show a token.
-/

namespace Progression.Rule

/-- A token of rule text. -/
inductive Token where
  /-- An identifier or keyword. -/
  | ident (word : String)
  /-- Quoted text, without its quotes and escapes. -/
  | str (s : String)
  /-- An integer. -/
  | int (n : Int)
  /-- A decimal, as it was written but for underscores. -/
  | decimal (digits : String)
  | lparen
  | rparen
  | lbracket
  | rbracket
  | comma
  | eqEq
  | notEq
  | lt
  | le
  | gt
  | ge
  | plus
  | minus
  | star
  | slashSlash
  | percent
  deriving DecidableEq

/-- The form in which messages show a token. -/
def Token.text : Token → String
  | .ident word => "Ident(" ++ Text.quoted word ++ ")"
  | .str s => "Str(" ++ Text.quoted s ++ ")"
  | .int n => "Int(" ++ toString n ++ ")"
  | .decimal digits => "Decimal(" ++ Text.quoted digits ++ ")"
  | .lparen => "LParen"
  | .rparen => "RParen"
  | .lbracket => "LBracket"
  | .rbracket => "RBracket"
  | .comma => "Comma"
  | .eqEq => "EqEq"
  | .notEq => "NotEq"
  | .lt => "Lt"
  | .le => "LtE"
  | .gt => "Gt"
  | .ge => "GtE"
  | .plus => "Plus"
  | .minus => "Minus"
  | .star => "Star"
  | .slashSlash => "SlashSlash"
  | .percent => "Percent"

/-- A token and the byte offset at which it starts. -/
structure Lexeme where
  offset : Nat
  token : Token
  deriving DecidableEq

end Progression.Rule
