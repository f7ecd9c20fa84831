import Vectorial.Proofs.Binary64.Whole

/-!
# Arithmetic on whole numbers is exact

As long as a whole number has at most fifty-three bits it is the value of a double, so that an
operation on finite doubles whose exact result is such a number gives it without rounding. Sums,
differences and products of whole numbers are computed in this way, and so are the steps that fit
between two of them.

## Main definitions

* `Binary64.IsInteger`: a double is finite and has this whole number as its value.

## Main results

* `Binary64.nearest_scale`: rounding depends on the quotient alone;
* `Binary64.IsInteger.add`, `Binary64.IsInteger.sub`, `Binary64.IsInteger.mul`: the operations.
-/

namespace Vectorial

/-! ### Quotients -/

theorem roundHalfEven_scale (num den : Nat) {scale : Nat} (pos : 0 < scale) :
    roundHalfEven (num * scale) (den * scale) = roundHalfEven num den := by
  have rest : 2 * (num * scale % (den * scale)) = 2 * (num % den) * scale := by
    rw [Nat.mul_mod_mul_right, Nat.mul_assoc]
  simp only [roundHalfEven, rest, Nat.mul_div_mul_right _ _ pos, Nat.mul_lt_mul_right pos]

namespace Binary64

/-- Rounding depends on the quotient alone, not on the fraction that expresses it. -/
theorem nearest_scale (negative : Bool) (num den : Nat) {scale : Nat} (pos : 0 < scale) :
    nearest negative (num * scale) (den * scale) = nearest negative num den := by
  have bits : bitsCut (num * scale) (den * scale) = bitsCut num den := by
    rw [bitsCut, bitsCut, Nat.mul_div_mul_right _ _ pos]
  have digits : significand (num * scale) (den * scale) = significand num den := by
    rw [significand, significand, bits, Nat.mul_right_comm, roundHalfEven_scale _ _ pos]
  rw [nearest_eq, nearest_eq, bits, digits]

/-! ### Whole numbers -/

/-- The double is finite and its value is the whole number. -/
structure IsInteger (x : Binary64) (n : Int) : Prop where
  finite : x.isFinite
  grains_eq : x.grains = n * unit

variable {x y : Binary64} {m n : Int}

theorem isInteger_zero (negative : Bool) : (zero negative).IsInteger 0 where
  finite := by cases negative <;> decide
  grains_eq := by rw [grains_zero, Int.zero_mul]

theorem isInteger_ofInt (small : n.natAbs < Nat.pow 2 53) : (ofInt n).IsInteger n where
  finite := isFinite_whole small
  grains_eq := grains_ofInt small

namespace IsInteger

theorem magnitude_eq (whole : x.IsInteger n) : x.magnitude = n.natAbs * unit := by
  rw [← natAbs_grains, whole.grains_eq, Int.natAbs_mul, Int.natAbs_natCast]

/-- Whole numbers compare as their doubles do. -/
theorem le_iff (whole : x.IsInteger m) (whole' : y.IsInteger n) : x.le y ↔ m ≤ n := by
  have scaled : m * (unit : Int) ≤ n * (unit : Int) ↔ m ≤ n :=
    Int.mul_le_mul_right (Int.natCast_pos.mpr unit_pos)
  rw [le, (ordinary_of_isFinite whole.finite).1, (ordinary_of_isFinite whole'.finite).1,
    whole.grains_eq, whole'.grains_eq, Bool.not_false, Bool.true_and, Bool.true_and,
    decide_eq_true_eq, scaled]

theorem truncated_eq (whole : x.IsInteger n) : x.truncated = n := by
  rw [truncated, whole.grains_eq]
  exact Int.mul_tdiv_cancel n (Nat.cast_ne_zero.mpr unit_pos.ne')

theorem isWhole (whole : x.IsInteger n) : x.isWhole := by
  rw [Binary64.isWhole, whole.magnitude_eq, Nat.mul_mod_left]
  rfl

/-! ### Operations -/

theorem neg (whole : x.IsInteger n) : x.neg.IsInteger (-n) where
  finite := x.isFinite_neg.trans whole.finite
  grains_eq := by
    obtain ⟨sign, exponents, fractions⟩ := x.fields_neg
    have magnitudes : x.neg.magnitude = x.magnitude := by
      rw [magnitude, magnitude, exponents, fractions]
    rw [Int.neg_mul, ← whole.grains_eq, grains, grains, sign, magnitudes]
    cases x.negative <;> simp

/-- A sum of whole numbers that has few enough bits is not rounded. -/
theorem add (whole : x.IsInteger m) (whole' : y.IsInteger n)
    (small : (m + n).natAbs < Nat.pow 2 53) : (x.add y).IsInteger (m + n) := by
  have sum : x.grains + y.grains = (m + n) * unit := by
    rw [whole.grains_eq, whole'.grains_eq, Int.add_mul]
  simp only [Binary64.add, ordinary_of_isFinite whole.finite, ordinary_of_isFinite whole'.finite,
    Bool.or_self, Bool.false_eq_true, if_false, sum]
  split
  · next vanishes =>
    obtain zero | zero := Int.mul_eq_zero.mp vanishes
    · exact zero ▸ isInteger_zero _
    · exact absurd zero (Nat.cast_ne_zero.mpr unit_pos.ne')
  · -- The sign of the number of grains is the sign of the number.
    have sign : decide ((m + n) * (unit : Int) < 0) = decide (m + n < 0) := by
      rw [decide_eq_decide]
      exact ⟨fun below => neg_of_mul_neg_left below (Int.natCast_nonneg unit),
        fun below => mul_neg_of_neg_of_pos below (Int.natCast_pos.mpr unit_pos)⟩
    rw [sign, Int.natAbs_mul, Int.natAbs_natCast]
    exact isInteger_ofInt small

theorem sub (whole : x.IsInteger m) (whole' : y.IsInteger n)
    (small : (m - n).natAbs < Nat.pow 2 53) : (x.sub y).IsInteger (m - n) := by
  rw [Int.sub_eq_add_neg] at small ⊢
  exact whole.add whole'.neg small

/-- The sign bit is cleared by negation, once or twice. -/
theorem abs_eq_neg (x : Binary64) : x.abs = if x.negative then x.neg else x.neg.neg := by
  obtain ⟨sign, exponents, fractions⟩ := x.fields_neg
  cases negative : x.negative with
  | true => rw [if_pos rfl, Binary64.neg, negative]; rfl
  | false =>
    rw [if_neg Bool.false_ne_true, Binary64.neg, sign, exponents, fractions, negative]
    rfl

theorem abs (whole : x.IsInteger n) : x.abs.IsInteger n.natAbs := by
  have scale : (0 : Int) < unit := Int.natCast_pos.mpr unit_pos
  rw [abs_eq_neg]
  cases negative : x.negative with
  | true =>
    have below := grains_nonpos negative
    rw [whole.grains_eq] at below
    have nonpos : n ≤ 0 := Int.nonpos_of_mul_nonpos_left below scale
    rw [if_pos rfl, Int.ofNat_natAbs_of_nonpos nonpos]
    exact whole.neg
  | false =>
    have above := grains_nonneg negative
    rw [whole.grains_eq] at above
    have nonneg : 0 ≤ n := Int.nonneg_of_mul_nonneg_left above scale
    rw [if_neg Bool.false_ne_true, Int.natAbs_of_nonneg nonneg]
    simpa using whole.neg.neg

/-- Taking the whole part of a number that has no other leaves it as it is. -/
theorem floorNonnegative {n : Nat} (whole : x.IsInteger n) (small : n < Nat.pow 2 53) :
    x.floorNonnegative.IsInteger n := by
  have size : x.magnitude = n * unit := whole.magnitude_eq
  rw [Binary64.floorNonnegative, if_pos whole.finite, size, Nat.mul_div_cancel _ unit_pos]
  exact ⟨isFinite_whole small, grains_ofInt (n := n) small⟩

/-- A product of whole numbers that has few enough bits is not rounded. -/
theorem mul (whole : x.IsInteger m) (whole' : y.IsInteger n)
    (small : (m * n).natAbs < Nat.pow 2 53) : (x.mul y).IsInteger (m * n) := by
  have product : x.magnitude * y.magnitude = (m * n).natAbs * unit * unit := by
    rw [whole.magnitude_eq, whole'.magnitude_eq, Int.natAbs_mul, Nat.mul_mul_mul_comm,
      Nat.mul_assoc _ unit]
  have rounded := nearest_scale (x.negative != y.negative) ((m * n).natAbs * unit) 1 unit_pos
  rw [Nat.one_mul] at rounded
  simp only [Binary64.mul, ordinary_of_isFinite whole.finite, ordinary_of_isFinite whole'.finite,
    Bool.or_self, Bool.false_eq_true, if_false, product, rounded]
  refine ⟨isFinite_whole small, ?_⟩
  have scaled : (nearest (x.negative != y.negative) ((m * n).natAbs * unit) 1).grains * unit =
      m * n * unit * unit := by
    rw [grains_mul, negative_nearest, magnitude_whole small, ← product, signed_bne]
    calc
      x.grains * y.grains = m * unit * (n * unit) := by rw [whole.grains_eq, whole'.grains_eq]
      _ = m * n * unit * unit := by rw [mul_mul_mul_comm, mul_assoc (m * n)]
  exact Int.eq_of_mul_eq_mul_right (Nat.cast_ne_zero.mpr unit_pos.ne') scaled

end IsInteger

end Binary64

end Vectorial
