import Vectorial.Proofs.Binary64.Nearest

/-!
# Whole numbers as doubles

A whole number of at most fifty-three bits is the value of a double: the bits that are cut off
are zeros, so that nothing is rounded. Its integer part is the number itself, and it is zero
only if the number is.

## Main results

* `Binary64.grains_ofInt`: the value of the double of a whole number;
* `Binary64.truncated_ofInt`, `Binary64.isZero_ofInt`: its integer part, and when it is zero;
* `Binary64.isMissing_ofInt`: it is never the missing number.
-/

namespace Vectorial

/-- A quotient without remainder is not rounded. -/
theorem roundHalfEven_of_dvd {num den : Nat} (pos : 0 < den) (divides : den ∣ num) :
    roundHalfEven num den = num / den :=
  Nat.le_antisymm (roundHalfEven_le pos (Nat.div_mul_cancel divides).ge)
    (div_le_roundHalfEven num den)

namespace Binary64

variable {negative : Bool} {n : Nat}

/-- The unit is a power of two, whose exponent gets a name so that nothing tries to compute it. -/
theorem exists_unit_eq : ∃ places, places = 1074 ∧ unit = Nat.pow 2 places := by
  unfold unit
  generalize 1074 = places
  exact ⟨places, rfl, rfl⟩

/-- Of a whole number of at most fifty-three bits no more bits are cut off than stand for a
fraction. -/
theorem bitsCut_whole (small : n < Nat.pow 2 53) : bitsCut (n * unit) 1 ≤ 1074 := by
  obtain ⟨places, count, unit_eq⟩ := exists_unit_eq
  have bound : n * unit < Nat.pow 2 (53 + places) := by
    rw [unit_eq, show Nat.pow 2 (53 + places) = Nat.pow 2 53 * Nat.pow 2 places from
      Nat.pow_add ..]
    exact Nat.mul_lt_mul_of_pos_right small (Nat.two_pow_pos places)
  rw [bitsCut, Nat.div_one]
  by_cases nothing : n * unit = 0
  · rw [nothing]
    decide
  · have bits := (Nat.log2_lt nothing).mpr bound
    omega

theorem isFinite_whole (small : n < Nat.pow 2 53) :
    (nearest negative (n * unit) 1).isFinite := by
  have cut := bitsCut_whole small
  have most : significand (n * unit) 1 ≤ Nat.pow 2 53 := significand_le Nat.one_pos
  have low : bitsCut (n * unit) 1 * Nat.pow 2 52 + significand (n * unit) 1 <
      2047 * Nat.pow 2 52 := by
    rw [show Nat.pow 2 53 = 9007199254740992 from rfl] at most
    rw [show Nat.pow 2 52 = 4503599627370496 from rfl]
    omega
  rw [nearest_eq, if_neg (Nat.not_le_of_lt low), isFinite,
    exponent_ofFields (Nat.lt_trans low (by decide)), bne_iff_ne]
  exact Nat.ne_of_lt ((Nat.div_lt_iff_lt_mul (Nat.two_pow_pos 52)).mpr low)

/-- A whole number of at most fifty-three bits is the magnitude of its double. -/
theorem magnitude_whole (small : n < Nat.pow 2 53) :
    (nearest negative (n * unit) 1).magnitude = n * unit := by
  obtain ⟨places, count, unit_eq⟩ := exists_unit_eq
  have fits : bitsCut (n * unit) 1 ≤ places := count ▸ bitsCut_whole small
  have divides : Nat.pow 2 (bitsCut (n * unit) 1) ∣ n * unit := by
    rw [unit_eq] at fits ⊢
    exact Nat.dvd_mul_left_of_dvd (Nat.pow_dvd_pow 2 fits) n
  have kept := roundHalfEven_of_dvd (Nat.two_pow_pos _) divides
  rw [magnitude_nearest Nat.one_pos (isFinite_whole small), significand, Nat.one_mul]
  exact (congrArg (· * _) kept).trans (Nat.div_mul_cancel divides)

/-- A whole number of at most fifty-three bits is the value of its double. -/
theorem grains_ofInt {n : Int} (small : n.natAbs < Nat.pow 2 53) :
    (ofInt n).grains = n * unit := by
  have size : (ofInt n).magnitude = n.natAbs * unit := magnitude_whole small
  have sign : (ofInt n).negative = decide (n < 0) := negative_nearest ..
  simp only [grains, sign, size, decide_eq_true_eq, Nat.cast_mul]
  split
  · next below => rw [Int.ofNat_natAbs_of_nonpos (Int.le_of_lt below), Int.neg_mul, Int.neg_neg]
  · next above => rw [Int.natAbs_of_nonneg (Int.not_lt.mp above)]

theorem truncated_ofInt {n : Int} (small : n.natAbs < Nat.pow 2 53) : (ofInt n).truncated = n := by
  rw [truncated, grains_ofInt small]
  exact Int.mul_tdiv_cancel n (Nat.cast_ne_zero.mpr unit_pos.ne')

theorem isZero_ofInt {n : Int} (small : n.natAbs < Nat.pow 2 53) :
    (ofInt n).isZero = decide (n = 0) := by
  rw [Bool.eq_iff_iff, isZero_iff, grains_ofInt small, decide_eq_true_eq, Int.mul_eq_zero]
  exact or_iff_left (Nat.cast_ne_zero.mpr unit_pos.ne')

theorem isNaN_ofInt (n : Int) : (ofInt n).isNaN = false :=
  isNaN_nearest ..

theorem isMissing_ofInt (n : Int) : (ofInt n).isMissing = false := by
  refine Bool.eq_false_iff.mpr fun absent => ?_
  have number := isNaN_ofInt n
  rw [isNaN_of_isMissing absent] at number
  cases number

end Binary64

end Vectorial
