import Progression.Rule.Scan
import Progression.Rule.Term

/-!
# Reading terms

A term is read from lexemes by levels, from the loosest operator to the
tightest: `or`, `and`, `not`, comparisons, `+ -`, `* // %`, the sign `-`, calls
and subscripts, and last the values and everything in parentheses or brackets.
Only the last level reads whole terms again, and only from a shorter list of
lexemes; the levels above it are given the reader of the level below.

## Main definitions

* `Complaint` — a fault and the offset of the lexeme it was found at.
* `Parsed`, `Reader` — results that leave fewer lexemes, and readers of terms.
* `readTerm` — the reader of terms.
* `parse` — the term of a rule.
-/

namespace Progression.Rule

/-- A fault at the lexeme with the given offset, or at the end of the rule. -/
structure Complaint where
  offset : Option Nat
  fault : SyntaxFault
  deriving DecidableEq

/-- What was read, and the lexemes that are left, fewer than `n`. -/
structure Parsed (α : Type) (n : Nat) where
  value : α
  rest : List Lexeme
  fewer : rest.length < n

namespace Parsed

variable {α β : Type} {m n : Nat}

/-- Change what was read. -/
def map (f : α → β) (p : Parsed α n) : Parsed β n := ⟨f p.value, p.rest, p.fewer⟩

/-- Weaken the bound on the lexemes that are left. -/
def weaken (h : m ≤ n) (p : Parsed α m) : Parsed α n :=
  ⟨p.value, p.rest, Nat.lt_of_lt_of_le p.fewer h⟩

@[simp] theorem map_value (f : α → β) (p : Parsed α n) : (p.map f).value = f p.value := rfl

@[simp] theorem map_rest (f : α → β) (p : Parsed α n) : (p.map f).rest = p.rest := rfl

@[simp] theorem weaken_value (h : m ≤ n) (p : Parsed α m) : (p.weaken h).value = p.value := rfl

@[simp] theorem weaken_rest (h : m ≤ n) (p : Parsed α m) : (p.weaken h).rest = p.rest := rfl

end Parsed

/-- A reader of terms from lists of fewer than `n` lexemes; it takes at least one. -/
abbrev Reader (n : Nat) :=
  (ts : List Lexeme) → ts.length < n → Except Complaint (Parsed Term ts.length)

/-! ### The lexeme that comes next -/

/-- The offset of the next lexeme. -/
def offset? (ts : List Lexeme) : Option Nat := ts.head?.map Lexeme.offset

/-- Whether the next token is `t`. -/
def startsWith (t : Token) (ts : List Lexeme) : Bool := ts.head?.any (·.token == t)

/-- The words that are not names. -/
def isKeyword (word : String) : Bool :=
  word == "and" || word == "or" || word == "not" || word == "in"

/-- The comparison that comes next, and what follows it. -/
def comparator? :
    (ts : List Lexeme) → Option (Comparator × { rest : List Lexeme // rest.length < ts.length })
  | [] => none
  | t :: rest =>
    match t.token with
    | .eqEq => some (.eq, ⟨rest, by simp⟩)
    | .notEq => some (.ne, ⟨rest, by simp⟩)
    | .lt => some (.lt, ⟨rest, by simp⟩)
    | .le => some (.le, ⟨rest, by simp⟩)
    | .gt => some (.gt, ⟨rest, by simp⟩)
    | .ge => some (.ge, ⟨rest, by simp⟩)
    | .ident word =>
      if word = "in" then some (.mem, ⟨rest, by simp⟩)
      else if word = "not" then
        match rest with
        | [] => none
        | u :: rest =>
          if u.token = .ident "in" then
            some (.notMem, ⟨rest, by simp only [List.length_cons]; omega⟩)
          else none
      else none
    | _ => none

/-- The additive operation that a token writes. -/
def additive? : Token → Option ArithOp
  | .plus => some .add
  | .minus => some .sub
  | _ => none

/-- The multiplicative operation that a token writes. -/
def multiplicative? : Token → Option ArithOp
  | .star => some .mul
  | .slashSlash => some .floorDiv
  | .percent => some .mod
  | _ => none

/-! ### Values -/

section Levels

variable {n : Nat}

/-- The terms up to the token `close`, separated by commas; a comma may also
come before `close`. -/
def readList (inner : Reader n) (close : Token) (ts : List Lexeme) (h : ts.length < n) :
    Except Complaint (Parsed (List Term) ts.length) :=
  match ts with
  | [] => (inner [] h).map (·.map ([·]))
  | t :: rest =>
    if t.token = close then .ok ⟨[], rest, by simp⟩
    else do
      let first ← inner (t :: rest) h
      match hr : first.rest with
      | [] => .error ⟨none, .expected close⟩
      | u :: rest' =>
        have fewer : rest'.length + 1 < (t :: rest).length := by
          simpa [hr] using first.fewer
        if u.token = .comma then do
          let more ← readList inner close rest' (by omega)
          .ok ((more.map (first.value :: ·)).weaken (by omega))
        else if u.token = close then .ok ⟨[first.value], rest', by omega⟩
        else .error ⟨some u.offset, .expected close⟩
termination_by ts.length
decreasing_by omega

/-- What follows an opening parenthesis: a term, or a tuple of terms. -/
def readParenthesized (inner : Reader n) (ts : List Lexeme) (h : ts.length < n) :
    Except Complaint (Parsed Term ts.length) :=
  if hc : startsWith .rparen ts then
    .ok ⟨.tuple [], ts.tail, by cases ts <;> simp_all [startsWith]⟩
  else do
    let first ← inner ts h
    match hr : first.rest with
    | [] => .error ⟨none, .expected .comma⟩
    | u :: rest =>
      have fewer : rest.length + 1 < ts.length := by simpa [hr] using first.fewer
      if u.token = .rparen then .ok ⟨first.value, rest, by omega⟩
      else if u.token = .comma then do
        let more ← readList inner .rparen rest (by omega)
        .ok ((more.map fun items => .tuple (first.value :: items)).weaken (by omega))
      else .error ⟨some u.offset, .expected .comma⟩

/-- A literal, a name, or something in parentheses. -/
def readValue (inner : Reader n) : Reader (n + 1)
  | [], _ => .error ⟨none, .endOfRule⟩
  | t :: rest, h =>
    match t.token with
    | .int k => .ok ⟨.int k, rest, by simp⟩
    | .decimal digits => .ok ⟨.decimal digits, rest, by simp⟩
    | .str s => .ok ⟨.str s, rest, by simp⟩
    | .ident word =>
      if word = "True" then .ok ⟨.bool true, rest, by simp⟩
      else if word = "False" then .ok ⟨.bool false, rest, by simp⟩
      else if isKeyword word then .error ⟨some t.offset, .keyword word⟩
      else .ok ⟨.name word, rest, by simp⟩
    | .lparen =>
      (readParenthesized inner rest (by simpa using h)).map (·.weaken (by simp))
    | found => .error ⟨some t.offset, .unexpected found⟩

/-- A value, or a name that is called or subscripted.  Whether the value is a
name is seen on the term, so the name may stand in parentheses. -/
def readPostfix (inner : Reader n) : Reader (n + 1) := fun ts h => do
  let head ← readValue inner ts h
  match hr : head.rest with
  | [] => .ok head
  | u :: rest =>
    have fewer : rest.length + 1 < ts.length := by simpa [hr] using head.fewer
    if u.token = .lparen ∨ u.token = .lbracket then
      match head.value with
      | .name word =>
        if u.token = .lparen then do
          let args ← readList inner .rparen rest (by omega)
          if startsWith .lparen args.rest || startsWith .lbracket args.rest then
            .error ⟨offset? ts, .chainedCall⟩
          else .ok ((args.map (.call word)).weaken (by omega))
        else do
          let key ← inner rest (by omega)
          if hc : startsWith .rbracket key.rest then
            .ok ⟨.subscript word key.value, key.rest.tail, by
              have := key.fewer; simp only [List.length_tail]; omega⟩
          else .error ⟨offset? key.rest, .expected .rbracket⟩
      | _ => .error ⟨some u.offset, .notCallable⟩
    else .ok head

/-! ### Operators -/

/-- An operand with any number of `-` signs before it. -/
def readSigned (operand : Reader n) : Reader n
  | [], h => operand [] h
  | t :: rest, h =>
    if t.token = .minus then
      (readSigned operand rest (by simp at h; omega)).map fun p => (p.map .neg).weaken (by simp)
    else operand (t :: rest) h

/-- The operations that follow the term `left`, grouped to the left. -/
def readArithTail (op? : Token → Option ArithOp) (operand : Reader n) (left : Term)
    (ts : List Lexeme) (h : ts.length < n) : Except Complaint (Parsed Term (ts.length + 1)) :=
  match ts with
  | [] => .ok ⟨left, [], by simp⟩
  | t :: rest =>
    match op? t.token with
    | none => .ok ⟨left, t :: rest, by simp⟩
    | some op => do
      let right ← operand rest (by simp at h; omega)
      have := right.fewer
      let whole ← readArithTail op? operand (.arith op left right.value) right.rest
        (by simp at h; omega)
      .ok (whole.weaken (by simp; omega))
termination_by ts.length
decreasing_by simp; omega

/-- Operands joined by arithmetic operations of one level. -/
def readArith (op? : Token → Option ArithOp) (operand : Reader n) : Reader n := fun ts h => do
  let left ← operand ts h
  have := left.fewer
  let whole ← readArithTail op? operand left.value left.rest (by omega)
  .ok (whole.weaken (by omega))

/-- The comparisons that follow an operand. -/
def readChain (operand : Reader n) (ts : List Lexeme) (h : ts.length < n) :
    Except Complaint (Parsed (List (Comparator × Term)) (ts.length + 1)) :=
  match comparator? ts with
  | none => .ok ⟨[], ts, by simp⟩
  | some (op, ⟨rest, hrest⟩) => do
    let right ← operand rest (by omega)
    have := right.fewer
    let more ← readChain operand right.rest (by omega)
    .ok ((more.map ((op, right.value) :: ·)).weaken (by omega))
termination_by ts.length
decreasing_by omega

/-- An operand, or a chain of comparisons of operands. -/
def readComparison (operand : Reader n) : Reader n := fun ts h => do
  let left ← operand ts h
  have := left.fewer
  let chain ← readChain operand left.rest (by omega)
  .ok <| (chain.map fun rest =>
    if rest.isEmpty then left.value else .compare left.value rest).weaken (by omega)

/-- An operand with any number of `not` before it. -/
def readNegated (operand : Reader n) : Reader n
  | [], h => operand [] h
  | t :: rest, h =>
    if t.token = .ident "not" then
      (readNegated operand rest (by simp at h; omega)).map fun p => (p.map .not).weaken (by simp)
    else operand (t :: rest) h

/-- The further operands of a connective. -/
def readGroupTail (op : Connective) (operand : Reader n) (ts : List Lexeme) (h : ts.length < n) :
    Except Complaint (Parsed (List Term) (ts.length + 1)) :=
  match ts with
  | [] => .ok ⟨[], [], by simp⟩
  | t :: rest =>
    if t.token = .ident op.word then do
      let next ← operand rest (by simp at h; omega)
      have := next.fewer
      let more ← readGroupTail op operand next.rest (by simp at h; omega)
      .ok ((more.map (next.value :: ·)).weaken (by simp; omega))
    else .ok ⟨[], t :: rest, by simp⟩
termination_by ts.length
decreasing_by simp; omega

/-- An operand, or operands joined by one connective. -/
def readGroup (op : Connective) (operand : Reader n) : Reader n := fun ts h => do
  let first ← operand ts h
  have := first.fewer
  let more ← readGroupTail op operand first.rest (by omega)
  .ok <| (more.map fun rest =>
    if rest.isEmpty then first.value else .group op (first.value :: rest)).weaken (by omega)

/-- All levels over a reader of shorter terms. -/
def readLevels (inner : Reader n) : Reader (n + 1) :=
  readGroup .or <| readGroup .and <| readNegated <| readComparison <|
    readArith additive? <| readArith multiplicative? <| readSigned <| readPostfix inner

end Levels

/-! ### Rules -/

/-- Read a term off the front of a list of lexemes. -/
def readTerm (ts : List Lexeme) : Except Complaint (Parsed Term ts.length) :=
  readLevels (fun us (_ : us.length < ts.length) => readTerm us) ts (by omega)
termination_by ts.length

/-- Read a list of lexemes as one term. -/
def parseLexemes (ts : List Lexeme) : Except Complaint Term := do
  let p ← readTerm ts
  match p.rest with
  | [] => .ok p.value
  | t :: _ => .error ⟨some t.offset, .trailing t.token⟩

/-- The term of a rule.  A fault at its end has the offset of the end. -/
def parse (text : String) : Except SyntaxError Term := do
  let ts ← scan text
  (parseLexemes ts).mapError fun c =>
    ⟨text, c.offset.getD (byteLength text.toList), c.fault⟩

end Progression.Rule
