import Progression.Integer

/-!
# Terms

A term is what rule text says, before any name in it is looked up.

## Main definitions

* `Connective`, `Comparator` — the operators that are not arithmetic.
* `Term` — the terms, with decidable equality.
* `Term.text` — the canonical text of a term.
* `Term.induction` — induction on terms, with a hypothesis for every operand.
-/

namespace Progression.Rule

/-- A connective of two or more conditions. -/
inductive Connective where
  | and
  | or
  deriving DecidableEq, Inhabited

/-- A comparison. -/
inductive Comparator where
  | eq
  | ne
  | lt
  | le
  | gt
  | ge
  | mem
  | notMem
  deriving DecidableEq, Inhabited

/-- The written form of a connective. -/
def Connective.word : Connective → String
  | .and => "and"
  | .or => "or"

/-- The written form of a comparison. -/
def Comparator.symbol : Comparator → String
  | .eq => "=="
  | .ne => "!="
  | .lt => "<"
  | .le => "<="
  | .gt => ">"
  | .ge => ">="
  | .mem => "in"
  | .notMem => "not in"

/-- A term of rule text. -/
inductive Term where
  | name (word : String)
  | str (s : String)
  | int (n : Int)
  /-- A decimal, by its digits and point. -/
  | decimal (digits : String)
  | bool (b : Bool)
  | tuple (items : List Term)
  | call (func : String) (args : List Term)
  | subscript (table : String) (key : Term)
  | group (op : Connective) (operands : List Term)
  | not (operand : Term)
  /-- A chain `left op₁ t₁ op₂ t₂ …` of comparisons. -/
  | compare (left : Term) (rest : List (Comparator × Term))
  | arith (op : ArithOp) (left right : Term)
  | neg (operand : Term)
  deriving Inhabited

namespace Term

/-! ### Induction -/

/-- Induction on terms: the hypotheses cover every operand, also inside lists. -/
@[elab_as_elim]
theorem induction {motive : Term → Prop}
    (name : ∀ w, motive (.name w)) (str : ∀ s, motive (.str s)) (int : ∀ n, motive (.int n))
    (decimal : ∀ d, motive (.decimal d)) (bool : ∀ b, motive (.bool b))
    (tuple : ∀ ts, (∀ t ∈ ts, motive t) → motive (.tuple ts))
    (call : ∀ f ts, (∀ t ∈ ts, motive t) → motive (.call f ts))
    (subscript : ∀ n k, motive k → motive (.subscript n k))
    (group : ∀ op ts, (∀ t ∈ ts, motive t) → motive (.group op ts))
    (not : ∀ t, motive t → motive (.not t))
    (compare : ∀ l rs, motive l → (∀ r ∈ rs, motive r.2) → motive (.compare l rs))
    (arith : ∀ op l r, motive l → motive r → motive (.arith op l r))
    (neg : ∀ t, motive t → motive (.neg t)) (t : Term) : motive t :=
  @Term.rec motive (fun ts => ∀ t ∈ ts, motive t) (fun rs => ∀ r ∈ rs, motive r.2)
    (fun r => motive r.2)
    name str int decimal bool tuple call subscript group not compare arith neg
    (fun _ h => nomatch h) (fun _ _ h hs => List.forall_mem_cons.2 ⟨h, hs⟩)
    (fun _ h => nomatch h) (fun _ _ h hs => List.forall_mem_cons.2 ⟨h, hs⟩)
    (fun _ _ h => h) t

/-! ### Equality -/

mutual

/-- Whether two terms are the same. -/
def same : Term → Term → Bool
  | .name a, .name b => a == b
  | .str a, .str b => a == b
  | .int a, .int b => a == b
  | .decimal a, .decimal b => a == b
  | .bool a, .bool b => a == b
  | .tuple as, .tuple bs => sameList as bs
  | .call f as, .call g bs => f == g && sameList as bs
  | .subscript s a, .subscript t b => s == t && same a b
  | .group o as, .group p bs => o == p && sameList as bs
  | .not a, .not b => same a b
  | .compare a as, .compare b bs => same a b && sameChain as bs
  | .arith o a b, .arith p c d => o == p && same a c && same b d
  | .neg a, .neg b => same a b
  | _, _ => false

/-- Whether two lists of terms are the same. -/
def sameList : List Term → List Term → Bool
  | [], [] => true
  | a :: as, b :: bs => same a b && sameList as bs
  | _, _ => false

/-- Whether two chains of comparisons are the same. -/
def sameChain : List (Comparator × Term) → List (Comparator × Term) → Bool
  | [], [] => true
  | (o, a) :: as, (p, b) :: bs => o == p && same a b && sameChain as bs
  | _, _ => false

end

mutual

theorem same_iff : ∀ a b : Term, same a b = true ↔ a = b
  | .name _, b | .str _, b | .int _, b | .decimal _, b | .bool _, b => by
    cases b <;> simp [same]
  | .tuple as, b => by cases b <;> simp [same, sameList_iff as]
  | .call _ as, b => by cases b <;> simp [same, sameList_iff as]
  | .subscript _ a, b => by cases b <;> simp [same, same_iff a]
  | .group _ as, b => by cases b <;> simp [same, sameList_iff as]
  | .not a, b => by cases b <;> simp [same, same_iff a]
  | .compare a as, b => by cases b <;> simp [same, same_iff a, sameChain_iff as]
  | .arith _ a b, c => by cases c <;> simp [same, same_iff a, same_iff b, and_assoc]
  | .neg a, b => by cases b <;> simp [same, same_iff a]

theorem sameList_iff : ∀ as bs : List Term, sameList as bs = true ↔ as = bs
  | [], bs => by cases bs <;> simp [sameList]
  | a :: as, bs => by cases bs <;> simp [sameList, same_iff a, sameList_iff as]

theorem sameChain_iff :
    ∀ as bs : List (Comparator × Term), sameChain as bs = true ↔ as = bs
  | [], bs => by cases bs <;> simp [sameChain]
  | (o, a) :: as, bs => by
    cases bs <;> simp [sameChain, same_iff a, sameChain_iff as, Prod.ext_iff]

end

instance : DecidableEq Term := fun a b => decidable_of_iff _ (same_iff a b)

/-! ### Canonical text -/

/-- Whether a term is put into parentheses as an operand. -/
def isCompound : Term → Bool
  | .group .. | .not _ | .compare .. | .arith .. | .neg _ => true
  | _ => false

/-- The text of the operand `t`, whose own text is `s`. -/
def wrap (t : Term) (s : String) : String := if t.isCompound then "(" ++ s ++ ")" else s

mutual

/-- The canonical text of a term: every compound operand in parentheses. -/
def text : Term → String
  | .name word => word
  | .str s => "'" ++ s ++ "'"
  | .int n => toString n
  | .decimal digits => digits
  | .bool true => "True"
  | .bool false => "False"
  | .tuple [t] => "(" ++ t.text ++ ",)"
  | .tuple items => "(" ++ ", ".intercalate (texts items) ++ ")"
  | .call func args => func ++ "(" ++ ", ".intercalate (texts args) ++ ")"
  | .subscript table key => table ++ "[" ++ key.text ++ "]"
  | .group op operands => (" " ++ op.word ++ " ").intercalate (operandTexts operands)
  | .not operand => "not " ++ wrap operand operand.text
  | .compare left rest => wrap left left.text ++ chainText rest
  | .arith op left right =>
    wrap left left.text ++ " " ++ op.symbol ++ " " ++ wrap right right.text
  | .neg operand => "-" ++ wrap operand operand.text

/-- The canonical texts of a list of terms. -/
def texts : List Term → List String
  | [] => []
  | t :: ts => t.text :: texts ts

/-- The canonical texts of a list of operands. -/
def operandTexts : List Term → List String
  | [] => []
  | t :: ts => wrap t t.text :: operandTexts ts

/-- The canonical text of a chain of comparisons after its first operand. -/
def chainText : List (Comparator × Term) → String
  | [] => ""
  | (op, t) :: rest => " " ++ op.symbol ++ " " ++ wrap t t.text ++ chainText rest

end

end Term

end Progression.Rule
