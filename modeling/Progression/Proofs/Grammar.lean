import Progression.Rule.Parse

/-!
# The grammar of rules

A rule is a phrase of tokens, and a phrase belongs to a level.  Every level but the last two
is made of phrases of the next tighter one, which is why the text of a rule needs no
parentheses where the levels alone tell how it is meant:

```text
or      := and ('or' and)*
and     := not ('and' not)*
not     := 'not' not | cmp
cmp     := sum (op sum)*       op one of == != < <= > >= in, not in
sum     := term (('+' | '-') term)*                     grouped to the left
term    := unary (('*' | '//' | '%') unary)*            grouped to the left
unary   := '-' unary | postfix
postfix := primary | name '(' list ')' | name '[' or ']'
primary := int | decimal | string | True | False | name
         | '(' ')' | '(' or ')' | '(' or ',' list ')'
list    := [or (',' or)* [',']]
```

The name that is called or subscripted may stand in parentheses.  The grammar says nothing
about how a phrase is found; whether a token can go on with a phrase is read off its
looseness, and that no phrase is followed by a token which could go on with it is what
makes the grammar easy to read from left to right.

## Main definitions

* `Level`, `Phrase` — the levels, and stretches of tokens with the terms that they write.
* `Derives` — the grammar.
* `Level.Ends` — what comes next cannot go on with a phrase of a level.

## Main results

* `Derives.of_applied` — a phrase of a tight level is one of every looser level.
* `Derives.named` — what is read as a name is a name, perhaps in parentheses.
* `Derives.begins` — the tokens that a phrase can begin with.
-/

namespace Progression.Rule

/-! ### Levels -/

/-- The two levels of arithmetic. -/
inductive Precedence where
  /-- `+` and `-`. -/
  | additive
  /-- `*`, `//` and `%`. -/
  | multiplicative
  deriving DecidableEq

/-- The levels of the grammar. -/
inductive Level where
  /-- `or`, and `and`. -/
  | group (op : Connective)
  /-- `not`. -/
  | negation
  /-- `cmp`. -/
  | comparison
  /-- `sum`, and `term`. -/
  | arith (k : Precedence)
  /-- `unary`. -/
  | signed
  /-- `postfix`. -/
  | applied
  /-- `primary`. -/
  | value
  deriving DecidableEq

/-- The level of the operands of a connective. -/
def Connective.operand : Connective → Level
  | .or => .group .and
  | .and => .negation

/-- The level of the operands of arithmetic operations. -/
def Precedence.operand : Precedence → Level
  | .additive => .arith .multiplicative
  | .multiplicative => .signed

/-- Where an arithmetic operation belongs. -/
def arithPrecedence : ArithOp → Precedence
  | .add | .sub => .additive
  | .mul | .floorDiv | .mod => .multiplicative

/-! ### Tokens of operators -/

/-- The token of an arithmetic operation. -/
def arithToken : ArithOp → Token
  | .add => .plus
  | .sub => .minus
  | .mul => .star
  | .floorDiv => .slashSlash
  | .mod => .percent

/-- The tokens of a comparison. -/
def Comparator.tokens : Comparator → List Token
  | .eq => [.eqEq]
  | .ne => [.notEq]
  | .lt => [.lt]
  | .le => [.le]
  | .gt => [.gt]
  | .ge => [.ge]
  | .mem => [.ident "in"]
  | .notMem => [.ident "not", .ident "in"]

/-- Whether a word is a name and no keyword. -/
def isName (word : String) : Bool := !isKeyword word && word != "True" && word != "False"

/-! ### Phrases -/

/-- A stretch of tokens and the term that it writes. -/
structure Phrase where
  tokens : List Token
  term : Term

/-- The term of operands that a connective joins; one operand stands for itself. -/
def joined (op : Connective) (first : Term) (rest : List Term) : Term :=
  if rest.isEmpty then first else .group op (first :: rest)

/-- The term of a chain of comparisons; without a comparison the operand stands for itself. -/
def chained (first : Term) (rest : List (Comparator × Term)) : Term :=
  if rest.isEmpty then first else .compare first rest

/-- A name that may stand in parentheses. -/
inductive Named : List Token → String → Prop where
  | word {w : String} (hw : isName w = true) : Named [.ident w] w
  | parens {us : List Token} {w : String} (h : Named us w) :
    Named (.lparen :: (us ++ [.rparen])) w

/-- Stretches of tokens with commas between them; a comma may also follow the last one. -/
inductive Listed : List (List Token) → List Token → Prop where
  | nil : Listed [] []
  | last (us : List Token) : Listed [us] us
  | cons (us : List Token) {parts : List (List Token)} {vs : List Token}
    (h : Listed parts vs) : Listed (us :: parts) (us ++ .comma :: vs)

/-- A stretch of tokens is a phrase of a level and writes a term. -/
inductive Derives : Level → List Token → Term → Prop where
  /-- `or := and ('or' and)*` and `and := not ('and' not)*`. -/
  | group {op : Connective} {us : List Token} {t : Term} {rest : List Phrase}
    (hfirst : Derives op.operand us t) (hrest : ∀ p ∈ rest, Derives op.operand p.tokens p.term) :
    Derives (.group op) (us ++ rest.flatMap fun p => .ident op.word :: p.tokens)
      (joined op t (rest.map Phrase.term))
  /-- `not := 'not' not`. -/
  | not {us : List Token} {t : Term} (h : Derives .negation us t) :
    Derives .negation (.ident "not" :: us) (.not t)
  /-- `not := cmp`. -/
  | unnegated {us : List Token} {t : Term} (h : Derives .comparison us t) :
    Derives .negation us t
  /-- `cmp := sum (op sum)*`. -/
  | comparison {us : List Token} {t : Term} {rest : List (Comparator × Phrase)}
    (hfirst : Derives (.arith .additive) us t)
    (hrest : ∀ p ∈ rest, Derives (.arith .additive) p.2.tokens p.2.term) :
    Derives .comparison (us ++ rest.flatMap fun p => p.1.tokens ++ p.2.tokens)
      (chained t (rest.map fun p => (p.1, p.2.term)))
  /-- `sum := term (('+' | '-') term)*` and `term := unary (('*' | '//' | '%') unary)*`. -/
  | arith {k : Precedence} {us : List Token} {t : Term} {rest : List (ArithOp × Phrase)}
    (hfirst : Derives k.operand us t) (hops : ∀ p ∈ rest, arithPrecedence p.1 = k)
    (hrest : ∀ p ∈ rest, Derives k.operand p.2.tokens p.2.term) :
    Derives (.arith k) (us ++ rest.flatMap fun p => arithToken p.1 :: p.2.tokens)
      (rest.foldl (fun left p => .arith p.1 left p.2.term) t)
  /-- `unary := '-' unary`. -/
  | neg {us : List Token} {t : Term} (h : Derives .signed us t) :
    Derives .signed (.minus :: us) (.neg t)
  /-- `unary := postfix`. -/
  | unsigned {us : List Token} {t : Term} (h : Derives .applied us t) : Derives .signed us t
  /-- `postfix := name '(' list ')'`. -/
  | call {us vs : List Token} {w : String} {args : List Phrase} (hname : Named us w)
    (hargs : ∀ p ∈ args, Derives (.group .or) p.tokens p.term)
    (hlist : Listed (args.map Phrase.tokens) vs) :
    Derives .applied (us ++ .lparen :: (vs ++ [.rparen])) (.call w (args.map Phrase.term))
  /-- `postfix := name '[' or ']'`. -/
  | subscript {us vs : List Token} {w : String} {key : Term} (hname : Named us w)
    (hkey : Derives (.group .or) vs key) :
    Derives .applied (us ++ .lbracket :: (vs ++ [.rbracket])) (.subscript w key)
  /-- `postfix := primary`. -/
  | unapplied {us : List Token} {t : Term} (h : Derives .value us t) : Derives .applied us t
  | int (n : Int) : Derives .value [.int n] (.int n)
  | decimal (digits : String) : Derives .value [.decimal digits] (.decimal digits)
  | str (s : String) : Derives .value [.str s] (.str s)
  | yes : Derives .value [.ident "True"] (.bool true)
  | no : Derives .value [.ident "False"] (.bool false)
  | name {w : String} (hw : isName w = true) : Derives .value [.ident w] (.name w)
  /-- `primary := '(' ')'`. -/
  | unit : Derives .value [.lparen, .rparen] (.tuple [])
  /-- `primary := '(' or ')'`. -/
  | parens {us : List Token} {t : Term} (h : Derives (.group .or) us t) :
    Derives .value (.lparen :: (us ++ [.rparen])) t
  /-- `primary := '(' or ',' list ')'`. -/
  | tuple {us vs : List Token} {t : Term} {rest : List Phrase}
    (hfirst : Derives (.group .or) us t)
    (hrest : ∀ p ∈ rest, Derives (.group .or) p.tokens p.term)
    (hlist : Listed (rest.map Phrase.tokens) vs) :
    Derives .value (.lparen :: (us ++ .comma :: (vs ++ [.rparen])))
      (.tuple (t :: rest.map Phrase.term))

namespace Derives

variable {l : Level} {us : List Token} {t : Term}

/-! ### From tight levels to loose ones -/

theorem arith_of_operand {k : Precedence} (h : Derives k.operand us t) :
    Derives (.arith k) us t := by
  have hone := @Derives.arith k us t [] h (fun _ hp => nomatch hp) fun _ hp => nomatch hp
  rwa [List.flatMap_nil, List.append_nil] at hone

theorem comparison_of_sum (h : Derives (.arith .additive) us t) : Derives .comparison us t := by
  have hone := @Derives.comparison us t [] h fun _ hp => nomatch hp
  rwa [List.flatMap_nil, List.append_nil] at hone

theorem group_of_operand {op : Connective} (h : Derives op.operand us t) :
    Derives (.group op) us t := by
  have hone := @Derives.group op us t [] h fun _ hp => nomatch hp
  rwa [List.flatMap_nil, List.append_nil] at hone

/-- A negation is a whole term. -/
theorem whole_of_negation (h : Derives .negation us t) : Derives (.group .or) us t :=
  group_of_operand (group_of_operand h)

theorem whole_of_arith {k : Precedence} (h : Derives (.arith k) us t) :
    Derives (.group .or) us t := by
  have hsum : Derives (.arith .additive) us t := by
    cases k with
    | additive => exact h
    | multiplicative => exact arith_of_operand h
  exact hsum.comparison_of_sum.unnegated.whole_of_negation

theorem whole_of_signed (h : Derives .signed us t) : Derives (.group .or) us t := by
  have hproduct : Derives (.arith .multiplicative) us t := arith_of_operand h
  exact hproduct.whole_of_arith

/-- A value, a call or a subscript is a phrase of every looser level. -/
theorem of_applied (h : Derives .applied us t) (hl : l ≠ .value) : Derives l us t := by
  have hproduct : Derives (.arith .multiplicative) us t := arith_of_operand h.unsigned
  have hsum : Derives (.arith .additive) us t := arith_of_operand hproduct
  have hnot : Derives .negation us t := hsum.comparison_of_sum.unnegated
  cases l with
  | group op =>
    cases op with
    | and => exact group_of_operand hnot
    | or => exact hnot.whole_of_negation
  | negation => exact hnot
  | comparison => exact hsum.comparison_of_sum
  | arith k =>
    cases k with
    | additive => exact hsum
    | multiplicative => exact hproduct
  | signed => exact h.unsigned
  | applied => exact h
  | value => exact absurd rfl hl

/-! ### Names -/

/-- Of several operands the term is no name. -/
theorem joined_eq_name {op : Connective} {rest : List Term} {w : String}
    (h : joined op t rest = .name w) : rest = [] ∧ t = .name w := by
  cases rest with
  | nil => exact ⟨rfl, h⟩
  | cons => cases h

theorem chained_eq_name {rest : List (Comparator × Term)} {w : String}
    (h : chained t rest = .name w) : rest = [] ∧ t = .name w := by
  cases rest with
  | nil => exact ⟨rfl, h⟩
  | cons => cases h

theorem foldl_arith_eq_name {rest : List (ArithOp × Phrase)} {w : String}
    (h : rest.foldl (fun left p => .arith p.1 left p.2.term) t = .name w) :
    rest = [] ∧ t = .name w := by
  induction rest generalizing t with
  | nil => exact ⟨rfl, h⟩
  | cons p rest ih =>
    obtain ⟨-, hp⟩ := ih h
    cases hp

/-- What is read as a name is a name, perhaps in parentheses. -/
theorem named (h : Derives l us t) {w : String} (ht : t = .name w) : Named us w := by
  induction h with
  | group _ _ ih _ =>
    obtain ⟨hrest, hfirst⟩ := joined_eq_name ht
    rw [List.map_eq_nil_iff.1 hrest, List.flatMap_nil, List.append_nil]
    exact ih hfirst
  | comparison _ _ ih _ =>
    obtain ⟨hrest, hfirst⟩ := chained_eq_name ht
    rw [List.map_eq_nil_iff.1 hrest, List.flatMap_nil, List.append_nil]
    exact ih hfirst
  | arith _ _ _ ih _ =>
    obtain ⟨rfl, hfirst⟩ := foldl_arith_eq_name ht
    rw [List.flatMap_nil, List.append_nil]
    exact ih hfirst
  | unnegated _ ih | unsigned _ ih | unapplied _ ih => exact ih ht
  | parens _ ih => exact (ih ht).parens
  | name hw =>
    cases ht
    exact .word hw
  | _ => cases ht

end Derives

/-- A name is a value, also in parentheses. -/
theorem Named.derives {us : List Token} {w : String} (h : Named us w) :
    Derives .value us (.name w) := by
  induction h with
  | word hw => exact .name hw
  | parens _ ih => exact .parens (ih.unapplied.of_applied nofun)

/-! ### How phrases begin and end -/

/-- Whether a value can begin with a token. -/
def Token.beginsValue : Token → Bool
  | .int _ | .decimal _ | .str _ | .lparen => true
  | .ident word => !isKeyword word
  | _ => false

/-- Whether a phrase of a level can begin with a token. -/
def Level.begins : Level → Token → Bool
  | .group _, u | .negation, u => u.beginsValue || u == .minus || u == .ident "not"
  | .comparison, u | .arith _, u | .signed, u => u.beginsValue || u == .minus
  | .applied, u | .value, u => u.beginsValue

theorem isKeyword_of_isName {w : String} (h : isName w = true) : isKeyword w = false := by
  simp only [isName, Bool.and_eq_true, Bool.not_eq_true'] at h
  exact h.1.1

theorem Named.begins {us : List Token} {w : String} (h : Named us w) :
    ∃ u us', us = u :: us' ∧ u.beginsValue = true := by
  cases h with
  | word hw => exact ⟨_, _, rfl, by simp [Token.beginsValue, isKeyword_of_isName hw]⟩
  | parens h => exact ⟨_, _, rfl, rfl⟩

/-- A phrase has a first token, and that is one of its level. -/
theorem Derives.begins {l : Level} {us : List Token} {t : Term} (h : Derives l us t) :
    ∃ u us', us = u :: us' ∧ l.begins u = true := by
  -- what a tighter phrase can begin with, a looser one can
  have loosen : ∀ {l l' : Level} {us vs : List Token},
      (∀ u, l.begins u = true → l'.begins u = true) →
      (∃ u us', us = u :: us' ∧ l.begins u = true) →
      ∃ u us', us ++ vs = u :: us' ∧ l'.begins u = true := by
    rintro l l' us vs hl ⟨u, us', rfl, hu⟩
    exact ⟨u, us' ++ vs, rfl, hl u hu⟩
  induction h with
  | @group op _ _ _ _ _ ih _ =>
    refine loosen (fun u hu => ?_) ih
    cases op <;> exact hu
  | not _ _ => exact ⟨_, _, rfl, by simp [Level.begins]⟩
  | unnegated _ ih =>
    obtain ⟨u, us', rfl, hu⟩ := ih
    refine ⟨u, us', rfl, ?_⟩
    simp only [Level.begins] at hu ⊢
    rw [hu, Bool.true_or]
  | comparison _ _ ih _ => exact loosen (fun _ hu => hu) ih
  | @arith k _ _ _ _ _ _ ih _ =>
    refine loosen (fun u hu => ?_) ih
    cases k <;> exact hu
  | neg _ _ => exact ⟨_, _, rfl, by simp [Level.begins]⟩
  | unsigned _ ih =>
    obtain ⟨u, us', rfl, hu⟩ := ih
    refine ⟨u, us', rfl, ?_⟩
    simp only [Level.begins] at hu ⊢
    rw [hu, Bool.true_or]
  | call hname _ _ _ | subscript hname _ _ =>
    obtain ⟨u, us', rfl, hu⟩ := hname.begins
    exact ⟨u, _, rfl, hu⟩
  | unapplied _ ih => exact ih
  | name hw => exact ⟨_, _, rfl, by simp [Level.begins, Token.beginsValue, isKeyword_of_isName hw]⟩
  | yes | no => exact ⟨_, _, rfl, by decide⟩
  | _ => exact ⟨_, _, rfl, rfl⟩

/-- How loose a level is. -/
def Level.looseness : Level → Nat
  | .value => 0
  | .applied | .signed => 1
  | .arith .multiplicative => 2
  | .arith .additive => 3
  | .comparison | .negation => 4
  | .group .and => 5
  | .group .or => 6

/-- How loose a level must be for a token to go on with a phrase of it. -/
def Token.looseness : Token → Nat
  | .lparen | .lbracket => 1
  | .star | .slashSlash | .percent => 2
  | .plus | .minus => 3
  | .eqEq | .notEq | .lt | .le | .gt | .ge => 4
  | .ident word =>
    if word = "in" ∨ word = "not" then 4
    else if word = "and" then 5
    else if word = "or" then 6
    else 7
  | _ => 7

/-- What comes next cannot go on with a phrase of a level. -/
def Level.Ends (l : Level) (vs : List Token) : Prop :=
  ∀ u ∈ vs.head?, l.looseness < u.looseness

theorem Level.ends_nil (l : Level) : l.Ends [] := nofun

theorem Level.ends_cons {l : Level} {u : Token} {vs : List Token} :
    l.Ends (u :: vs) ↔ l.looseness < u.looseness := by
  simp [Level.Ends]

/-- What ends a loose phrase ends the tight ones in it. -/
theorem Level.Ends.mono {l l' : Level} {vs : List Token} (h : l.Ends vs)
    (hl : l'.looseness ≤ l.looseness) : l'.Ends vs :=
  fun u hu => Nat.lt_of_le_of_lt hl (h u hu)

end Progression.Rule
