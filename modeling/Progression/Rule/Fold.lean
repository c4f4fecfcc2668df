import Progression.Rule.Formula
import Progression.Table

/-!
# Folding formulas

The connectives simplify as they are put together.  A connective takes in the
operands of its own kind, merges the tests for items into one test for an
ascending list of items, drops repeated operands and neutral constants, and
becomes the other constant as soon as one of its operands is that.

## Main definitions

* `Formula.negate` — the negation of a formula.
* `Formula.leaves` — the operands of a connective once those of its own kind are opened.
* `Formula.group` — a connective of formulas.
* `Formula.hasAll`, `Formula.hasAny`, `Formula.has` — tests for items.
-/

namespace Progression.Rule.Formula

/-- The negation of a formula; a second negation undoes the first. -/
def negate : Formula → Formula
  | .const b => .const !b
  | .not f => f
  | f => .not f

/-! ### Connectives -/

mutual

/-- The operands that a formula contributes to a connective: its own operands if
it is of the same kind, else itself. -/
def leaves (op : Connective) : Formula → List Formula
  | .and fs => if op = .and then leavesList op fs else [.and fs]
  | .or fs => if op = .or then leavesList op fs else [.or fs]
  | f => [f]

/-- The operands that a list of formulas contributes to a connective. -/
def leavesList (op : Connective) : List Formula → List Formula
  | [] => []
  | f :: fs => leaves op f ++ leavesList op fs

end

/-- The constant that decides a connective: true for `or` and false for `and`. -/
def absorbing (op : Connective) : Bool := op == .or

/-- The items that an operand tests for, if its test merges with others. -/
def mergedItems (op : Connective) : Formula → Option (List ItemId)
  | .item id => some [id]
  | .all ids => if op = .and then some ids else none
  | .any ids => if op = .or then some ids else none
  | _ => none

/-- Whether an operand is neither a constant nor a test that merges. -/
def isOther (op : Connective) (f : Formula) : Bool :=
  match f with
  | .const _ => false
  | f => (mergedItems op f).isNone

/-- The first occurrence of each member of a list. -/
def firsts : List Formula → List Formula
  | [] => []
  | f :: fs => f :: (firsts fs).filter (· != f)

/-- A test for an ascending list of items. -/
def itemTest (op : Connective) : List ItemId → List Formula
  | [] => []
  | [id] => [.item id]
  | ids => [if op = .or then .any ids else .all ids]

/-- A connective of operands that are in order already. -/
def join (op : Connective) : List Formula → Formula
  | [] => .const !absorbing op
  | [f] => f
  | fs => if op = .or then .or fs else .and fs

/-- A connective of formulas: the test for items first, then the other operands. -/
def group (op : Connective) (fs : List Formula) : Formula :=
  let leaves := leavesList op fs
  if leaves.contains (.const (absorbing op)) then .const (absorbing op)
  else
    let items := (leaves.flatMap fun f => (mergedItems op f).getD []).foldr insertKey []
    join op (itemTest op items ++ firsts (leaves.filter (isOther op)))

/-! ### Tests for items -/

/-- There is a copy of each of the items. -/
def hasAll (ids : List ItemId) : Formula := group .and (ids.map .item)

/-- There is a copy of one of the items. -/
def hasAny (ids : List ItemId) : Formula := group .or (ids.map .item)

/-- There are at least `n` copies of the item. -/
def has (id : ItemId) (n : Int) : Formula :=
  if n ≤ 0 then .const true
  else if n = 1 then .item id
  else .count id (Count.clamp n)

end Progression.Rule.Formula
