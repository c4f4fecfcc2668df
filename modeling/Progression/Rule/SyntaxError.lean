import Progression.Rule.Token

/-!
# What can be wrong with the form of a rule

## Main definitions

* `SyntaxFault` — the kinds of fault.
* `SyntaxError` — a fault, where it is and in which text.
* `SyntaxError.message` — its wording.
-/

namespace Progression.Rule

/-- A fault in the form of rule text. -/
inductive SyntaxFault where
  /-- A single `/`. -/
  | trueDivision
  /-- A single `=`. -/
  | assignment
  /-- A `!` that no `=` follows. -/
  | loneBang
  /-- Quoted text without its closing quote. -/
  | unterminatedString
  /-- An integer that does not fit in 64 bits. -/
  | integerRange (digits : String)
  /-- A character that starts no token. -/
  | unexpectedChar (c : Char)
  /-- A token after the end of the rule. -/
  | trailing (found : Token)
  /-- Another token was due. -/
  | expected (due : Token)
  /-- A call or subscript of something that is not a name. -/
  | notCallable
  /-- A call or subscript of a call. -/
  | chainedCall
  /-- A keyword where a value is due. -/
  | keyword (word : String)
  /-- Another token where a value is due. -/
  | unexpected (found : Token)
  /-- The text ends where a value is due. -/
  | endOfRule
  deriving DecidableEq

/-- The wording of a fault. -/
def SyntaxFault.message : SyntaxFault → String
  | .trueDivision => "true division is not supported, use `//`"
  | .assignment => "assignment is not an expression"
  | .loneBang => "unexpected `!`"
  | .unterminatedString => "unterminated string"
  | .integerRange digits => "integer `" ++ digits ++ "` out of range"
  | .unexpectedChar c => "unexpected character `" ++ c.toString ++ "`"
  | .trailing found => "unexpected " ++ found.text ++ " after expression"
  | .expected due => "expected " ++ due.text
  | .notCallable => "only plain identifiers can be called or subscripted"
  | .chainedCall => "chained calls are not supported"
  | .keyword word => "unexpected keyword `" ++ word ++ "`"
  | .unexpected found => "unexpected " ++ found.text
  | .endOfRule => "unexpected end of rule"

/-- A fault in a text, at a byte offset of it. -/
structure SyntaxError where
  text : String
  offset : Nat
  fault : SyntaxFault
  deriving DecidableEq

/-- The wording of a syntax error. -/
def SyntaxError.message (e : SyntaxError) : String :=
  "syntax error in `" ++ e.text ++ "` at offset " ++ toString e.offset ++ ": " ++ e.fault.message

end Progression.Rule
