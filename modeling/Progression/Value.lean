import Progression.Table

/-!
# Setting values

The values that a world's settings take: truth values, integers of 64 bits,
text, lists, and maps with text keys.

## Main definitions

* `Value` — the values, with decidable equality.
* `Value.truthy` — the condition a value stands for.
* `Value.int?`, `Value.str?` — its views as an integer and as text.
* `Value.text` — its written form.
* `Value.order` — the order of values, kind before content.
-/

namespace Progression

/-- A setting's value.  A map keeps its entries in ascending order of their keys. -/
inductive Value where
  | bool (b : Bool)
  | int (n : Int)
  | str (s : String)
  | list (items : List Value)
  | map (entries : List (String × Value))
  deriving Inhabited

namespace Value

/-- The map of a list of entries; a later entry of a key wins. -/
def ofEntries (entries : List (String × Value)) : Value := .map (Table.ofList entries)

/-! ### Equality -/

mutual

/-- Decide whether two values are the same. -/
def decEq : (a b : Value) → Decidable (a = b)
  | .bool a, .bool b => if h : a = b then .isTrue (h ▸ rfl) else .isFalse (by simp [h])
  | .int a, .int b => if h : a = b then .isTrue (h ▸ rfl) else .isFalse (by simp [h])
  | .str a, .str b => if h : a = b then .isTrue (h ▸ rfl) else .isFalse (by simp [h])
  | .list a, .list b =>
    match decEqList a b with
    | .isTrue h => .isTrue (h ▸ rfl)
    | .isFalse h => .isFalse (by simp [h])
  | .map a, .map b =>
    match decEqEntries a b with
    | .isTrue h => .isTrue (h ▸ rfl)
    | .isFalse h => .isFalse (by simp [h])
  | .bool _, .int _ | .bool _, .str _ | .bool _, .list _ | .bool _, .map _
  | .int _, .bool _ | .int _, .str _ | .int _, .list _ | .int _, .map _
  | .str _, .bool _ | .str _, .int _ | .str _, .list _ | .str _, .map _
  | .list _, .bool _ | .list _, .int _ | .list _, .str _ | .list _, .map _
  | .map _, .bool _ | .map _, .int _ | .map _, .str _ | .map _, .list _ => .isFalse (by simp)

/-- Decide whether two lists of values are the same. -/
def decEqList : (as bs : List Value) → Decidable (as = bs)
  | [], [] => .isTrue rfl
  | [], _ :: _ | _ :: _, [] => .isFalse (by simp)
  | a :: as, b :: bs =>
    match decEq a b, decEqList as bs with
    | .isTrue h, .isTrue hs => .isTrue (h ▸ hs ▸ rfl)
    | .isFalse h, _ => .isFalse (by simp [h])
    | _, .isFalse hs => .isFalse (by simp [hs])

/-- Decide whether two lists of entries are the same. -/
def decEqEntries : (as bs : List (String × Value)) → Decidable (as = bs)
  | [], [] => .isTrue rfl
  | [], _ :: _ | _ :: _, [] => .isFalse (by simp)
  | (k, a) :: as, (l, b) :: bs =>
    if hk : k = l then
      match decEq a b, decEqEntries as bs with
      | .isTrue h, .isTrue hs => .isTrue (hk ▸ h ▸ hs ▸ rfl)
      | .isFalse h, _ => .isFalse (by simp [h])
      | _, .isFalse hs => .isFalse (by simp [hs])
    else .isFalse (by simp [hk])

end

instance : DecidableEq Value := decEq

/-! ### Views -/

/-- The condition a value stands for: false, zero and everything empty are false. -/
def truthy : Value → Bool
  | .bool b => b
  | .int n => n != 0
  | .str s => s != ""
  | .list items => !items.isEmpty
  | .map entries => !entries.isEmpty

/-- The integer a value stands for; true and false count as one and zero. -/
def int? : Value → Option Int
  | .int n => some n
  | .bool b => some (if b then 1 else 0)
  | _ => none

/-- The text of a text value. -/
def str? : Value → Option String
  | .str s => some s
  | _ => none

/-! ### Written form -/

mutual

/-- The written form of a value. -/
def text : Value → String
  | .bool true => "True"
  | .bool false => "False"
  | .int n => toString n
  | .str s => "'" ++ s ++ "'"
  | .list items => "[" ++ ", ".intercalate (texts items) ++ "]"
  | .map entries => "\x7b" ++ ", ".intercalate (entryTexts entries) ++ "\x7d"

/-- The written forms of a list of values. -/
def texts : List Value → List String
  | [] => []
  | v :: vs => v.text :: texts vs

/-- The written forms of a list of entries. -/
def entryTexts : List (String × Value) → List String
  | [] => []
  | (k, v) :: es => ("'" ++ k ++ "': " ++ v.text) :: entryTexts es

end

/-! ### Order -/

/-- The rank of a value's kind. -/
def rank : Value → Nat
  | .bool _ => 0
  | .int _ => 1
  | .str _ => 2
  | .list _ => 3
  | .map _ => 4

mutual

/-- The order of values: by kind, then by content; lists and maps entry by entry. -/
def order : Value → Value → Ordering
  | .bool a, .bool b => compare a b
  | .int a, .int b => compare a b
  | .str a, .str b => compare a b
  | .list a, .list b => orderList a b
  | .map a, .map b => orderEntries a b
  | a, b => compare a.rank b.rank

/-- The order of lists of values: the first difference decides. -/
def orderList : List Value → List Value → Ordering
  | [], [] => .eq
  | [], _ :: _ => .lt
  | _ :: _, [] => .gt
  | a :: as, b :: bs => (order a b).then (orderList as bs)

/-- The order of lists of entries: the first difference decides, a key before its value. -/
def orderEntries : List (String × Value) → List (String × Value) → Ordering
  | [], [] => .eq
  | [], _ :: _ => .lt
  | _ :: _, [] => .gt
  | (k, a) :: as, (l, b) :: bs =>
    (compare k l).then ((order a b).then (orderEntries as bs))

end

end Value

end Progression
