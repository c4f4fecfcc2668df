/-!
# Inversion lists

A set of code points is stored as the ascending list of its boundaries: the
code points below the first boundary are outside the set, those from the first
up to the second are inside, and the sides go on alternating.

## Main definitions

* `InversionList` — the boundaries of a set of natural numbers.
* `InversionList.contains` — membership.
-/

namespace Progression.Text

/-- The ascending boundaries of a set of natural numbers. -/
abbrev InversionList := List Nat

namespace InversionList

/-- Whether `n` lies in the set: every boundary at or below `n` changes sides. -/
def contains : InversionList → Nat → Bool
  | [], _ => false
  | b :: bs, n => if n < b then false else !contains bs n

@[simp] theorem contains_nil (n : Nat) : contains [] n = false := rfl

theorem contains_cons (b : Nat) (bs : InversionList) (n : Nat) :
    contains (b :: bs) n = if n < b then false else !contains bs n := rfl

/-- Nothing below the first boundary is in the set. -/
theorem contains_eq_false_of_lt {b n : Nat} (bs : InversionList) (h : n < b) :
    contains (b :: bs) n = false := by
  simp [contains_cons, h]

end InversionList

end Progression.Text
