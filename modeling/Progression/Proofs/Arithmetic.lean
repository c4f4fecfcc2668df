import Mathlib.Data.Rat.Floor
import Progression.Rule.Lexicon

/-!
# Arithmetic of constants

The constants of a rule are integers of 64 bits, and what is worked out from them is exact or
refused.  The quotient is the greatest integer that is not above the fraction, and the remainder
is what it leaves, which lies between zero and the divisor on the side of the divisor.  These two
are settled by that alone, so it does not matter how they are come by: a machine rounds the
quotient towards zero and has to correct it, and the remainder with it, when the operands have
opposite signs.

A result that fits is refused in one case only.  The least integer over minus one leaves nothing,
but its quotient is just above the greatest integer, and where there is no quotient the remainder
is refused as well.

## Main definitions

* `Integer.Divided` — a quotient and what it leaves.
* `ArithOp.exact` — the exact result of an operation.
* `ArithOp.corrected?` — the results from division that rounds towards zero.
* `Rule.Lexicon.HasInt` — the integer that a constant term stands for.

## Main results

* `Integer.Divided.unique` — only one quotient leaves a remainder on the side of the divisor.
* `ArithOp.eval?_eq_some_iff` — an operation has its exact result whenever this fits, but for
  the remainder of the least integer by minus one.
* `ArithOp.eval?_eq_corrected?` — rounding towards zero and correcting comes to the same.
* `Rule.Lexicon.literal?_arith_iff` — **constant terms are worked out exactly**, with that one
  exception.
-/

namespace Progression

namespace Integer

variable {a b q r q' r' : Int}

theorem fits_iff {n : Int} : fits n = true ↔ least ≤ n ∧ n ≤ greatest := by
  rw [fits, Bool.and_eq_true, decide_eq_true_iff, decide_eq_true_iff]

theorem checked_eq_some_iff {n m : Int} : checked n = some m ↔ m = n ∧ fits n = true := by
  unfold checked
  split
  · next h => simp [h, eq_comm]
  · next h => simp [h]

/-! ### Quotients that are rounded down -/

/-- The quotient `q` of `a` by `b` leaves the remainder `r`, which lies on the side of the
divisor. -/
structure Divided (a b q r : Int) : Prop where
  total : a = b * q + r
  side : 0 ≤ r ∧ r < b ∨ b < r ∧ r ≤ 0

namespace Divided

theorem abs_lt (h : Divided a b q r) : |r| < |b| := by
  rcases h.side with ⟨h₀, h₁⟩ | ⟨h₁, h₀⟩
  · rw [abs_of_nonneg h₀, abs_of_pos (h₀.trans_lt h₁)]
    exact h₁
  · rw [abs_of_nonpos h₀, abs_of_neg (h₁.trans_le h₀)]
    exact Int.neg_lt_neg h₁

/-- The remainder has the sign of the divisor. -/
theorem mul_nonneg (h : Divided a b q r) : 0 ≤ r * b := by
  rcases h.side with ⟨h₀, h₁⟩ | ⟨h₁, h₀⟩
  · exact Int.mul_nonneg h₀ (h₀.trans h₁.le)
  · exact Int.mul_nonneg_of_nonpos_of_nonpos h₀ (h₁.le.trans h₀)

/-- **Only one quotient leaves a remainder on the side of the divisor.** -/
theorem unique (h : Divided a b q r) (h' : Divided a b q' r') : q = q' ∧ r = r' := by
  -- the remainders differ by a multiple of the divisor, and by less than the divisor
  have hmultiple : r' - r = b * (q - q') := by
    rw [Int.mul_sub]
    linarith [h.total, h'.total]
  have hless : (r' - r).natAbs < b.natAbs := by
    have := h.side
    have := h'.side
    omega
  have hsame : r' - r = 0 :=
    Int.eq_zero_of_dvd_of_natAbs_lt_natAbs ⟨q - q', hmultiple⟩ hless
  have hb : b ≠ 0 := by
    have := h.side
    omega
  rw [hsame, eq_comm, Int.mul_eq_zero, or_iff_right hb] at hmultiple
  exact ⟨by omega, by omega⟩

end Divided

theorem divided_fdiv (a : Int) (hb : b ≠ 0) : Divided a b (a.fdiv b) (a.fmod b) where
  total := (Int.mul_fdiv_add_fmod a b).symm
  side := by
    rcases Int.lt_or_gt_of_ne hb with hneg | hpos
    · -- for a negative divisor, turn both signs
      have hturn : a.fmod b = -(-a).fmod (-b) := by
        rw [Int.fmod_def, Int.fmod_def, Int.neg_fdiv_neg]
        ring
      have h₀ := Int.fmod_nonneg_of_pos (-a) (Int.neg_pos_of_neg hneg)
      have h₁ := Int.fmod_lt_of_pos (-a) (Int.neg_pos_of_neg hneg)
      omega
    · exact .inl ⟨Int.fmod_nonneg_of_pos a hpos, Int.fmod_lt_of_pos a hpos⟩

/-- Rounding the fraction down gives the quotient. -/
theorem divided_floor (a : Int) (hb : b ≠ 0) :
    Divided a b ⌊(a / b : ℚ)⌋ (a - b * ⌊(a / b : ℚ)⌋) where
  total := by ring
  side := by
    have hlow := Int.floor_le (a / b : ℚ)
    have hhigh := Int.lt_floor_add_one (a / b : ℚ)
    rcases Int.lt_or_gt_of_ne hb with hneg | hpos
    · have hneg' : (b : ℚ) < 0 := by exact_mod_cast hneg
      rw [le_div_iff_of_neg hneg'] at hlow
      rw [div_lt_iff_of_neg hneg'] at hhigh
      have hlow' : a ≤ ⌊(a / b : ℚ)⌋ * b := by exact_mod_cast hlow
      have hhigh' : (⌊(a / b : ℚ)⌋ + 1) * b < a := by exact_mod_cast hhigh
      exact .inr ⟨by linarith, by linarith⟩
    · have hpos' : (0 : ℚ) < b := by exact_mod_cast hpos
      rw [le_div_iff₀ hpos'] at hlow
      rw [div_lt_iff₀ hpos'] at hhigh
      have hlow' : ⌊(a / b : ℚ)⌋ * b ≤ a := by exact_mod_cast hlow
      have hhigh' : a < (⌊(a / b : ℚ)⌋ + 1) * b := by exact_mod_cast hhigh
      exact .inl ⟨by linarith, by linarith⟩

/-- The quotient of a 64-bit integer fits, but for the least one over minus one. -/
theorem Divided.fits_quotient_iff (h : Divided a b q r) (ha : fits a = true) :
    fits q = true ↔ ¬(a = least ∧ b = -1) := by
  have htotal := h.total
  have hside := h.side
  rw [fits_iff] at ha ⊢
  unfold least greatest at *
  by_cases hone : b = -1
  · subst hone
    omega
  · simp only [hone, and_false, not_false_iff, iff_true]
    -- a quotient out of bounds takes the dividend out of bounds too
    rcases (show 0 < b ∨ b ≤ -2 by omega) with hb | hb
    · constructor
      · by_contra hlow
        have : b * (q + 1) ≤ 1 * (q + 1) := Int.mul_le_mul_of_nonpos_right hb (by omega)
        rw [Int.mul_add, Int.mul_one] at this
        omega
      · by_contra hhigh
        have : 1 * q ≤ b * q := Int.mul_le_mul_of_nonneg_right hb (by omega)
        omega
    · constructor
      · by_contra hlow
        have : -2 * (q + 1) ≤ b * (q + 1) := Int.mul_le_mul_of_nonpos_right hb (by omega)
        rw [Int.mul_add b, Int.mul_one] at this
        omega
      · by_contra hhigh
        have : b * q ≤ -2 * q := Int.mul_le_mul_of_nonneg_right hb (by omega)
        omega

theorem Divided.fits_remainder (h : Divided a b q r) (hb : fits b = true) : fits r = true := by
  rw [fits_iff] at hb ⊢
  have := h.side
  unfold least greatest at *
  omega

/-! ### Quotients that are rounded towards zero -/

/-- Whether one of two integers is negative and the other is not. -/
def opposed (a b : Int) : Bool := decide (a < 0) != decide (b < 0)

/-- The quotient rounded towards zero, and what it leaves.  There are none where the quotient
does not fit. -/
def truncated? (a b : Int) : Option (Int × Int) :=
  if b = 0 ∨ (a = least ∧ b = -1) then none else some (a.tdiv b, a.tmod b)

/-- A quotient that was rounded up is taken back by one, and the remainder with it. -/
theorem divided_tdiv (a : Int) (hb : b ≠ 0) :
    Divided a b (if a.tmod b ≠ 0 ∧ opposed a b then a.tdiv b - 1 else a.tdiv b)
      (if a.tmod b ≠ 0 ∧ opposed (a.tmod b) b then a.tmod b + b else a.tmod b) := by
  have htotal : a = b * a.tdiv b + a.tmod b := (Int.mul_tdiv_add_tmod a b).symm
  have hless : (a.tmod b).natAbs < b.natAbs := by
    rw [Int.natAbs_tmod]
    exact Nat.mod_lt _ (Int.natAbs_pos.2 hb)
  -- what is left has the sign of the dividend
  have hpos : 0 ≤ a → 0 ≤ a.tmod b := Int.tmod_nonneg b
  have hneg : a ≤ 0 → a.tmod b ≤ 0 := by
    intro ha
    have := Int.tmod_nonneg b (Int.neg_nonneg_of_nonpos ha)
    rw [Int.neg_tmod] at this
    omega
  have hopposed : a.tmod b ≠ 0 → opposed (a.tmod b) b = opposed a b := by
    intro hne
    have : a.tmod b < 0 ↔ a < 0 := by omega
    simp only [opposed, this]
  by_cases hcorrect : a.tmod b ≠ 0 ∧ opposed a b
  · rw [if_pos hcorrect, if_pos ⟨hcorrect.1, by rw [hopposed hcorrect.1]; exact hcorrect.2⟩]
    obtain ⟨hne, hsigns⟩ := hcorrect
    rw [opposed, bne_iff_ne, ne_eq, decide_eq_decide] at hsigns
    exact ⟨by rw [Int.mul_sub]; omega, by omega⟩
  · rw [if_neg hcorrect, if_neg fun h => hcorrect ⟨h.1, by rw [← hopposed h.1]; exact h.2⟩]
    refine ⟨htotal, ?_⟩
    rw [not_and', opposed, bne_iff_ne, ne_eq, decide_eq_decide] at hcorrect
    omega

end Integer

namespace ArithOp

variable {a b : Int}

/-- Whether an operation divides. -/
def divides : ArithOp → Bool
  | .floorDiv | .mod => true
  | .add | .sub | .mul => false

/-- The exact result of an operation: a fraction is rounded down, and the remainder is what this
leaves. -/
def exact : ArithOp → Int → Int → Int
  | .add, a, b => a + b
  | .sub, a, b => a - b
  | .mul, a, b => a * b
  | .floorDiv, a, b => ⌊(a / b : ℚ)⌋
  | .mod, a, b => a - b * ⌊(a / b : ℚ)⌋

/-- The results of a machine whose division rounds towards zero. -/
def corrected? : ArithOp → Int → Int → Option Int
  | .add, a, b => Integer.checked (a + b)
  | .sub, a, b => Integer.checked (a - b)
  | .mul, a, b => Integer.checked (a * b)
  | .floorDiv, a, b => (Integer.truncated? a b).map fun (q, r) =>
    if r ≠ 0 ∧ Integer.opposed a b then q - 1 else q
  | .mod, a, b => (Integer.truncated? a b).map fun (_, r) =>
    if r ≠ 0 ∧ Integer.opposed r b then r + b else r

theorem exact_divided (a : Int) (hb : b ≠ 0) :
    Integer.Divided a b (exact .floorDiv a b) (exact .mod a b) :=
  Integer.divided_floor a hb

/-- There is a quotient of 64-bit integers just when there is one that fits. -/
theorem eval?_floorDiv (b : Int) (ha : Integer.fits a = true) :
    eval? .floorDiv a b =
      if b = 0 ∨ a = Integer.least ∧ b = -1 then none else some (exact .floorDiv a b) := by
  change (if b = 0 then none else Integer.checked (a.fdiv b)) = _
  by_cases hb : b = 0
  · rw [if_pos hb, if_pos (.inl hb)]
  · have hdivided := Integer.divided_fdiv a hb
    rw [if_neg hb, (hdivided.unique (exact_divided a hb)).1, Integer.checked]
    simp only [(exact_divided a hb).fits_quotient_iff ha, hb, false_or, ite_not]

/-- There is a remainder just when there is a quotient. -/
theorem eval?_mod (b : Int) (ha : Integer.fits a = true) :
    eval? .mod a b =
      if b = 0 ∨ a = Integer.least ∧ b = -1 then none else some (exact .mod a b) := by
  have hquotient : eval? .mod a b = (eval? .floorDiv a b).map fun _ => a.fmod b := by
    simp only [eval?]
    split <;> rfl
  rw [hquotient, eval?_floorDiv b ha]
  split
  · rfl
  · next hb =>
    have hdivided := Integer.divided_fdiv a fun hzero => hb (.inl hzero)
    rw [Option.map_some, (hdivided.unique (exact_divided a fun hzero => hb (.inl hzero))).2]

/-- An operation has its exact result whenever there is one that fits, but for the remainder of
the least integer by minus one. -/
theorem eval?_eq_some_iff (op : ArithOp) (ha : Integer.fits a = true)
    (hb : Integer.fits b = true) {n : Int} :
    op.eval? a b = some n ↔
      n = op.exact a b ∧ Integer.fits (op.exact a b) = true ∧ (op.divides = true → b ≠ 0) ∧
        ¬(op = .mod ∧ a = Integer.least ∧ b = -1) := by
  cases op with
  | add | sub | mul => simp [eval?, exact, divides, Integer.checked_eq_some_iff]
  | floorDiv =>
    rw [eval?_floorDiv b ha]
    by_cases hzero : b = 0
    · simp [hzero, divides]
    · simp [hzero, divides, (exact_divided a hzero).fits_quotient_iff ha, eq_comm, and_comm]
  | mod =>
    rw [eval?_mod b ha]
    by_cases hzero : b = 0
    · simp [hzero, divides]
    · simp [hzero, divides, (exact_divided a hzero).fits_remainder hb, eq_comm, and_comm]

/-- Rounding towards zero and correcting comes to the same. -/
theorem eval?_eq_corrected? (op : ArithOp) (b : Int) (ha : Integer.fits a = true) :
    op.eval? a b = op.corrected? a b := by
  cases op with
  | add | sub | mul => rfl
  | floorDiv =>
    rw [eval?_floorDiv b ha, corrected?, Integer.truncated?]
    split
    · rfl
    · next hb =>
      have hzero : b ≠ 0 := fun hzero => hb (.inl hzero)
      rw [Option.map_some, ((exact_divided a hzero).unique (Integer.divided_tdiv a hzero)).1]
  | mod =>
    rw [eval?_mod b ha, corrected?, Integer.truncated?]
    split
    · rfl
    · next hb =>
      have hzero : b ≠ 0 := fun hzero => hb (.inl hzero)
      rw [Option.map_some, ((exact_divided a hzero).unique (Integer.divided_tdiv a hzero)).2]

end ArithOp

namespace Rule.Lexicon

variable {lx : Lexicon} {l r : Term} {a b : Int}

/-- A term is made of constants and stands for an integer. -/
def HasInt (lx : Lexicon) (t : Term) (n : Int) : Prop :=
  ∃ v, lx.literal? t = .ok (some v) ∧ v.int? = some n

/-- An operation on constants has its result, or is refused. -/
theorem literal?_arith (hl : lx.HasInt l a) (hr : lx.HasInt r b) (op : ArithOp) :
    lx.literal? (.arith op l r) =
      match op.eval? a b with
      | some n => .ok (some (.int n))
      | none => .error (.unsupported lx.spot .noResult (.arith op l r)) := by
  obtain ⟨x, hx, hxa⟩ := hl
  obtain ⟨y, hy, hyb⟩ := hr
  simp only [literal?, hx, hy, hxa, hyb, bind, Except.bind, pure, Except.pure]
  cases op.eval? a b <;> rfl

/-- The opposite of a constant is its value, or is refused. -/
theorem literal?_neg (hl : lx.HasInt l a) :
    lx.literal? (.neg l) =
      match Integer.negate? a with
      | some n => .ok (some (.int n))
      | none => .error (.unsupported lx.spot .overflow (.neg l)) := by
  obtain ⟨x, hx, hxa⟩ := hl
  simp only [literal?, hx, hxa, bind, Except.bind, pure, Except.pure]
  cases Integer.negate? a <;> rfl

theorem literal?_arith_eq_ok_iff (hl : lx.HasInt l a) (hr : lx.HasInt r b) (op : ArithOp)
    {v : Value} :
    lx.literal? (.arith op l r) = .ok (some v) ↔ ∃ n, op.eval? a b = some n ∧ v = .int n := by
  rw [literal?_arith hl hr]
  cases op.eval? a b <;> simp [eq_comm]

theorem literal?_neg_eq_ok_iff (hl : lx.HasInt l a) {v : Value} :
    lx.literal? (.neg l) = .ok (some v) ↔ ∃ n, Integer.negate? a = some n ∧ v = .int n := by
  rw [literal?_neg hl]
  cases Integer.negate? a <;> simp [eq_comm]

/-- **Constant terms are worked out exactly.**  Whatever constants the operands are, an operation
on two integers of 64 bits gives a value just when it does not divide by zero and its exact
result fits, and then it gives this result; only the remainder of the least integer by minus one
is refused.  The opposite of an integer is there just when it fits.  The quotient and the
remainder make up the dividend again, the remainder being less than the divisor and on its side,
and division that rounds towards zero gives the same once it is corrected. -/
theorem literal?_arith_iff (hl : lx.HasInt l a) (hr : lx.HasInt r b)
    (ha : Integer.fits a = true) (hb : Integer.fits b = true) :
    (∀ op v, lx.literal? (.arith op l r) = .ok (some v) ↔
      v = .int (op.exact a b) ∧ Integer.fits (op.exact a b) = true ∧
        (op.divides = true → b ≠ 0) ∧ ¬(op = .mod ∧ a = Integer.least ∧ b = -1)) ∧
      (∀ v, lx.literal? (.neg l) = .ok (some v) ↔ v = .int (-a) ∧ Integer.fits (-a) = true) ∧
      (b ≠ 0 → a = b * ArithOp.exact .floorDiv a b + ArithOp.exact .mod a b ∧
        |ArithOp.exact .mod a b| < |b| ∧ 0 ≤ ArithOp.exact .mod a b * b) ∧
      ∀ op : ArithOp, op.eval? a b = op.corrected? a b := by
  refine ⟨fun op v => ?_, fun v => ?_, fun hzero => ?_, fun op => op.eval?_eq_corrected? b ha⟩
  · rw [literal?_arith_eq_ok_iff hl hr]
    simp only [op.eval?_eq_some_iff ha hb]
    constructor
    · rintro ⟨n, ⟨rfl, hresult⟩, rfl⟩
      exact ⟨rfl, hresult⟩
    · rintro ⟨rfl, hresult⟩
      exact ⟨_, ⟨rfl, hresult⟩, rfl⟩
  · rw [literal?_neg_eq_ok_iff hl, Integer.negate?]
    simp only [Integer.checked_eq_some_iff, and_assoc, exists_eq_left, and_comm]
  · have hdivided := ArithOp.exact_divided a hzero
    exact ⟨hdivided.total, hdivided.abs_lt, hdivided.mul_nonneg⟩

/-- The least integer as rules can write it. -/
def leastTerm : Term := .arith .sub (.neg (.int Integer.greatest)) (.int 1)

/-- The least integer over minus one leaves nothing, which fits, but the remainder is refused. -/
theorem literal?_leastTerm_mod :
    Integer.fits (ArithOp.exact .mod Integer.least (-1)) = true ∧
      ∀ v, (default : Lexicon).literal? (.arith .mod leastTerm (.neg (.int 1))) ≠ .ok (some v) := by
  have hleast : HasInt default leastTerm Integer.least := ⟨.int Integer.least, rfl, rfl⟩
  have hone : HasInt default (.neg (.int 1)) (-1) := ⟨.int (-1), rfl, rfl⟩
  refine ⟨?_, fun v h => ?_⟩
  · exact (ArithOp.exact_divided _ (by decide)).fits_remainder rfl
  · obtain ⟨-, -, -, hnot⟩ := ((literal?_arith_iff hleast hone rfl rfl).1 .mod v).1 h
    exact hnot ⟨rfl, rfl, rfl⟩

end Rule.Lexicon

end Progression
