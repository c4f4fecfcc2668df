import Progression.Rule.Parse
import Progression.Rule.RuleError
import Progression.Table
import Progression.Text.Word

/-!
# Templates

A template is a named rule with parameters.  A call of it stands for its body
with the arguments put in place of the parameters; the terms are substituted,
never their text.

## Main definitions

* `Term.substitute` — put terms in place of names.
* `Template`, `Template.instantiate` — a template and its body for given arguments.
* `readSignature` — the name and parameters that a signature declares.
* `Templates` — the templates by name.
-/

namespace Progression.Rule

open Text

/-! ### Substitution -/

namespace Term

/-- The table that a subscript of `table` reads once names are replaced: only a
name can take the place of a table's name. -/
def substituteTable (f : String → Option Term) (table : String) : String :=
  match f table with
  | some (.name word) => word
  | _ => table

mutual

/-- Put the terms that `f` gives in place of names, all at once.  The names of
called functions stay. -/
def substitute (f : String → Option Term) : Term → Term
  | .name word => (f word).getD (.name word)
  | .str s => .str s
  | .int n => .int n
  | .decimal digits => .decimal digits
  | .bool b => .bool b
  | .tuple items => .tuple (substituteList f items)
  | .call func args => .call func (substituteList f args)
  | .subscript table key => .subscript (substituteTable f table) (substitute f key)
  | .group op operands => .group op (substituteList f operands)
  | .not operand => .not (substitute f operand)
  | .compare left rest => .compare (substitute f left) (substituteChain f rest)
  | .arith op left right => .arith op (substitute f left) (substitute f right)
  | .neg operand => .neg (substitute f operand)

/-- Substitution in every term of a list. -/
def substituteList (f : String → Option Term) : List Term → List Term
  | [] => []
  | t :: ts => substitute f t :: substituteList f ts

/-- Substitution in every operand of a chain of comparisons. -/
def substituteChain (f : String → Option Term) :
    List (Comparator × Term) → List (Comparator × Term)
  | [] => []
  | (op, t) :: rest => (op, substitute f t) :: substituteChain f rest

end

end Term

/-- A named rule with parameters. -/
structure Template where
  name : String
  params : List String
  body : Term
  deriving DecidableEq

namespace Template

/-- The argument bound to a parameter; of two parameters of one name the later
one is bound. -/
def argument? (params : List String) (args : List Term) (word : String) : Option Term :=
  (params.zip args).reverse.lookup word

/-- The body with arguments in place of the parameters. -/
def instantiate (t : Template) (args : List Term) : Term :=
  t.body.substitute (argument? t.params args)

end Template

/-! ### Signatures -/

/-- A character that can start the name of a template or parameter. -/
def isParamStart (c : Char) : Bool := c.isAlpha || c == '_'

/-- Whether a text is the name of a parameter. -/
def isParam : List Char → Bool
  | [] => false
  | c :: cs => isParamStart c && cs.all isWord

/-- The pieces of a text between commas. -/
def splitCommas : List Char → List (List Char)
  | [] => [[]]
  | c :: cs =>
    if c = ',' then [] :: splitCommas cs
    else
      match splitCommas cs with
      | [] => [[c]]
      | piece :: pieces => (c :: piece) :: pieces

/-- The parameters that a list between parentheses declares. -/
def readParams (cs : List Char) : Option (List String) :=
  if isBlankText cs then some []
  else
    let params := (splitCommas cs).map trimBlanks
    if params.all isParam then some (params.map String.ofList) else none

/-- The parameters that the text after a template's name declares: none without
parentheses, and nothing may stand after the closing one. -/
def readParamList : List Char → Option (List String)
  | [] => some []
  | c :: cs =>
    let inside := cs.takeWhile fun d => d != '(' && d != ')'
    match cs.drop inside.length with
    | d :: after =>
      if c = '(' ∧ d = ')' ∧ isBlankText after then readParams inside else none
    | [] => none

/-- The name and the parameters that a signature declares. -/
def readSignature (signature : String) : Option (String × List String) :=
  match dropBlanks signature.toList with
  | [] => none
  | c :: cs =>
    if isParamStart c then
      let word := cs.takeWhile isWord
      (readParamList (dropBlanks (cs.drop word.length))).map fun params =>
        (String.ofList (c :: word), params)
    else none

/-! ### Collections of templates -/

/-- Templates by name. -/
structure Templates where
  byName : Table String Template
  deriving DecidableEq, Inhabited

namespace Templates

/-- No templates. -/
def empty : Templates := ⟨[]⟩

/-- The template of a name. -/
def get? (ts : Templates) (name : String) : Option Template := ts.byName.find? name

/-- Whether a name has a template. -/
def contains (ts : Templates) (name : String) : Bool := ts.byName.contains name

/-- The number of templates. -/
def size (ts : Templates) : Nat := ts.byName.length

/-- Add a template, or replace the one of the same name. -/
def define (ts : Templates) (signature body : String) : Except RuleError Templates :=
  match readSignature signature with
  | none => .error (.templateSignature signature)
  | some (name, params) =>
    match parse body with
    | .error e => .error (.malformed e)
    | .ok term => .ok ⟨ts.byName.insert name ⟨name, params, term⟩⟩

/-- The templates of a list of signatures and bodies. -/
def ofPairs (pairs : List (String × String)) : Except RuleError Templates :=
  pairs.foldlM (fun ts p => ts.define p.1 p.2) empty

end Templates

end Progression.Rule
