/-!
# Counts

The number of copies of an item that a world has collected, a number of 32
bits.  Adding copies stops at the greatest count and taking them away stops at
zero.  A total of several counts is exact: there is none if it is too great.

## Main definitions

* `Count` — the counts.
* `Count.plus`, `Count.minus` — adding and taking away copies.
* `Count.ofNat?`, `Count.add?` — a number and a sum of counts, if they are counts.
* `Count.total` — the total of a list of counts.
* `Count.clamp`, `Count.ofInt?` — an integer as a count.
-/

namespace Progression

/-- A number of copies. -/
abbrev Count := UInt32

namespace Count

/-- The greatest count, as a number. -/
def greatest : Nat := 4294967295

/-- A number as a count; a number that is too great becomes the greatest count. -/
def ofNat (n : Nat) : Count := UInt32.ofNat (min n greatest)

/-- The sum of two counts, or the greatest count. -/
def plus (a b : Count) : Count := ofNat (a.toNat + b.toNat)

/-- The difference of two counts, or zero. -/
def minus (a b : Count) : Count := ofNat (a.toNat - b.toNat)

/-- A number as a count, if it is one. -/
def ofNat? (n : Nat) : Option Count := if n ≤ greatest then some (ofNat n) else none

/-- The sum of two counts, if it is a count. -/
def add? (a b : Count) : Option Count := ofNat? (a.toNat + b.toNat)

/-- The total of a list of counts, added up from the first one on.  There is none if a sum on
the way is too great. -/
def total (counts : List Count) : Option Count := counts.foldlM add? 0

/-- What is reported where a total is too great. -/
def overflow : String := "attempt to add with overflow"

/-- An integer as a count, if it is one. -/
def ofInt? (n : Int) : Option Count :=
  if 0 ≤ n ∧ n.toNat ≤ greatest then some (ofNat n.toNat) else none

/-- The count nearest to an integer. -/
def clamp (n : Int) : Count := ofNat n.toNat

/-! ### Counts as numbers -/

theorem toNat_le_greatest (a : Count) : a.toNat ≤ greatest := by
  have := a.toNat_lt
  unfold greatest
  omega

@[simp] theorem toNat_ofNat (n : Nat) : (ofNat n).toNat = min n greatest := by
  have h : min n greatest < 2 ^ 32 := by unfold greatest; omega
  rw [ofNat, UInt32.toNat_ofNat_of_lt' h]

@[simp] theorem toNat_plus (a b : Count) : (plus a b).toNat = min (a.toNat + b.toNat) greatest :=
  toNat_ofNat _

@[simp] theorem toNat_minus (a b : Count) : (minus a b).toNat = a.toNat - b.toNat := by
  have := toNat_le_greatest a
  rw [minus, toNat_ofNat]
  omega

theorem ofNat_toNat (a : Count) : ofNat a.toNat = a := by
  rw [← UInt32.toNat_inj, toNat_ofNat, Nat.min_eq_left (toNat_le_greatest a)]

theorem ofNat?_of_le {n : Nat} (h : n ≤ greatest) : ofNat? n = some (ofNat n) := if_pos h

theorem ofNat?_of_gt {n : Nat} (h : greatest < n) : ofNat? n = none := if_neg (Nat.not_le.2 h)

/-- A number is a count just when it is the number of that count. -/
theorem ofNat?_eq_some_iff {n : Nat} {a : Count} : ofNat? n = some a ↔ n = a.toNat := by
  constructor
  · intro h
    unfold ofNat? at h
    split at h
    · next hn =>
      cases h
      rw [toNat_ofNat, Nat.min_eq_left hn]
    · cases h
  · rintro rfl
    rw [ofNat?_of_le (toNat_le_greatest a), ofNat_toNat]

@[simp] theorem toNat_clamp (n : Int) : (clamp n).toNat = min n.toNat greatest := toNat_ofNat _

end Count

end Progression
