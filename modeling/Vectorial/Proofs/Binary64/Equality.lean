import Vectorial.Operator.Membership
import Vectorial.Proofs.Binary64.Rounding

/-!
# Equal doubles

Two doubles that are numbers and have the same value have the same bits, unless both are zero.
So the key of a double tells it from all others but those that it equals: the other zero, or
the other NaNs if it is one.

## Main definitions

* `Binary64.Equals`: equal as numbers, or neither is one.

## Main results

* `Binary64.eq_of_magnitude`: exponent and fraction are determined by the magnitude;
* `Binary64.eq_of_same`: equal numbers are the same double, or both are zero;
* `Binary64.key_iff`: which doubles have the same key.
-/

namespace Vectorial.Binary64

variable {x y key : Binary64}

/-- The doubles compare equal, or both are no number. -/
def Equals (x y : Binary64) : Prop :=
  x.same y ∨ x.isNaN ∧ y.isNaN

/-! ### Bits and magnitude -/

/-- A double is its sign, its exponent and its fraction. -/
theorem toNat_bits (x : Binary64) : x.bits.toNat =
    (if x.negative then Nat.pow 2 63 else 0) + x.exponent * Nat.pow 2 52 + x.fraction := by
  have small : x.bits.toNat < 18446744073709551616 := x.bits.toNat_lt
  have pow_63 : Nat.pow 2 63 = 9223372036854775808 := rfl
  have pow_52 : Nat.pow 2 52 = 4503599627370496 := rfl
  have pow_11 : Nat.pow 2 11 = 2048 := rfl
  simp only [negative, exponent, fraction, pow_63, pow_52, pow_11, beq_iff_eq]
  split <;> omega

theorem eq_of_fields (sign : x.negative = y.negative) (exponents : x.exponent = y.exponent)
    (fractions : x.fraction = y.fraction) : x = y := by
  have bits : x.bits = y.bits := by
    rw [← UInt64.toNat_inj, toNat_bits x, toNat_bits y, sign, exponents, fractions]
  cases x
  cases y
  exact congrArg mk bits

theorem fraction_lt (x : Binary64) : x.fraction < Nat.pow 2 52 :=
  Nat.mod_lt _ (by decide)

/-- With a smaller exponent field the magnitude is smaller. -/
theorem magnitude_lt (less : x.exponent < y.exponent) : x.magnitude < y.magnitude := by
  have least : Nat.pow 2 52 * Nat.pow 2 (y.exponent - 1) ≤ y.magnitude := by
    rw [magnitude, if_neg (by omega)]
    exact Nat.mul_le_mul_right _ (Nat.le_add_right _ _)
  refine Nat.lt_of_lt_of_le ?_ least
  have below := x.fraction_lt
  by_cases subnormal : x.exponent = 0
  · rw [magnitude, if_pos subnormal]
    exact Nat.lt_of_lt_of_le below (Nat.le_mul_of_pos_right _ (Nat.two_pow_pos _))
  · rw [magnitude, if_neg subnormal]
    -- The hidden bit carries the magnitude to less than the next power of two.
    have next : Nat.pow 2 (x.exponent - 1 + 1) ≤ Nat.pow 2 (y.exponent - 1) :=
      Nat.pow_le_pow_right (by decide) (by omega)
    calc
      (Nat.pow 2 52 + x.fraction) * Nat.pow 2 (x.exponent - 1)
      _ < (Nat.pow 2 52 * 2) * Nat.pow 2 (x.exponent - 1) :=
        Nat.mul_lt_mul_of_pos_right (by omega) (Nat.two_pow_pos _)
      _ = Nat.pow 2 52 * Nat.pow 2 (x.exponent - 1 + 1) := by
        rw [Nat.mul_assoc]
        exact congrArg _ Nat.pow_succ'.symm
      _ ≤ Nat.pow 2 52 * Nat.pow 2 (y.exponent - 1) := Nat.mul_le_mul_left _ next

theorem eq_of_magnitude (same : x.magnitude = y.magnitude) :
    x.exponent = y.exponent ∧ x.fraction = y.fraction := by
  have exponents : x.exponent = y.exponent := by
    rcases Nat.lt_trichotomy x.exponent y.exponent with less | equal | more
    · exact absurd same (Nat.ne_of_lt (magnitude_lt less))
    · exact equal
    · exact absurd same (Nat.ne_of_gt (magnitude_lt more))
  refine ⟨exponents, ?_⟩
  rw [magnitude, magnitude, exponents] at same
  split at same
  · exact same
  · have scaled := Nat.eq_of_mul_eq_mul_right (Nat.two_pow_pos _) same
    omega

/-! ### Comparison -/

theorem isZero_iff : x.isZero ↔ x.grains = 0 := by
  rw [isZero, beq_iff_eq, ← x.natAbs_grains, Int.natAbs_eq_zero]

theorem same_iff : x.same y ↔ x.isNaN = false ∧ y.isNaN = false ∧ x.grains = y.grains := by
  simp [same, and_assoc]

/-- Equal numbers that are not zero are the same double. -/
theorem eq_of_same (equal : x.grains = y.grains) (nonzero : x.grains ≠ 0) : x = y := by
  have magnitudes : x.magnitude = y.magnitude := by
    rw [← x.natAbs_grains, ← y.natAbs_grains, equal]
  obtain ⟨exponents, fractions⟩ := eq_of_magnitude magnitudes
  refine eq_of_fields ?_ exponents fractions
  -- The sign of the value is the sign bit.
  cases sign : x.negative <;> cases sign' : y.negative
  · rfl
  · have above := grains_nonneg sign
    have below := grains_nonpos sign'
    omega
  · have below := grains_nonpos sign
    have above := grains_nonneg sign'
    omega
  · rfl

/-! ### Keys -/

theorem isNaN_of_isMissing (absent : x.isMissing) : x.isNaN := by
  rw [isMissing, beq_iff_eq] at absent
  subst absent
  decide

theorem isNaN_of_isZero (null : x.isZero) : x.isNaN = false := by
  rw [isZero, beq_iff_eq, magnitude] at null
  split at null
  · next subnormal => simp [isNaN, subnormal]
  · -- The hidden bit of a normal number keeps it from being zero.
    have positive : 0 < (Nat.pow 2 52 + x.fraction) * Nat.pow 2 (x.exponent - 1) :=
      Nat.mul_pos (Nat.add_pos_left (by decide) _) (Nat.two_pow_pos _)
    omega

theorem key_of_isZero (null : x.isZero) : x.key = some (zero false) := by
  have present : x.isMissing = false := by
    refine Bool.eq_false_iff.mpr fun absent => ?_
    simpa [isNaN_of_isZero null] using isNaN_of_isMissing absent
  simp [key, present, null]

theorem key_of_isNaN (present : x.isMissing = false) (other : x.isNaN) : x.key = some nan := by
  have nonzero : x.isZero = false := by
    refine Bool.eq_false_iff.mpr fun null => ?_
    simp [isNaN_of_isZero null] at other
  simp [key, present, nonzero, other]

theorem key_of_number (number : x.isNaN = false) (nonzero : x.isZero = false) :
    x.key = some x := by
  have present : x.isMissing = false := by
    refine Bool.eq_false_iff.mpr fun absent => ?_
    simp [isNaN_of_isMissing absent] at number
  simp [key, present, nonzero, number]

/-- A double with a key is a zero, another NaN than the missing one, or its own key. -/
theorem cases_of_key (h : x.key = some key) :
    x.isMissing = false ∧
      (x.isZero ∧ key = zero false ∨ x.isNaN ∧ key = nan ∨
        (x.isNaN = false ∧ x.isZero = false) ∧ key = x) := by
  cases absent : x.isMissing with
  | true => simp [Binary64.key, absent] at h
  | false =>
    refine ⟨rfl, ?_⟩
    cases null : x.isZero with
    | true => exact .inl ⟨rfl, Option.some.inj (h.symm.trans (key_of_isZero null))⟩
    | false =>
      cases other : x.isNaN with
      | true => exact .inr (.inl ⟨rfl, Option.some.inj (h.symm.trans (key_of_isNaN absent other))⟩)
      | false =>
        exact .inr (.inr ⟨⟨rfl, rfl⟩, Option.some.inj (h.symm.trans (key_of_number other null))⟩)

theorem equals_of_key (h : x.key = some key) (h' : y.key = some key) : x.Equals y := by
  -- Three forms of key against three: only alike forms can be one key, and the other six clash.
  obtain ⟨-, ⟨null, rfl⟩ | ⟨other, rfl⟩ | ⟨⟨number, nonzero⟩, rfl⟩⟩ := cases_of_key h <;>
    obtain ⟨-, ⟨null', same⟩ | ⟨other', same⟩ | ⟨⟨number', nonzero'⟩, same⟩⟩ := cases_of_key h'
  · exact .inl (same_iff.mpr ⟨isNaN_of_isZero null, isNaN_of_isZero null',
      (isZero_iff.mp null).trans (isZero_iff.mp null').symm⟩)
  · exact absurd same (by decide)
  · subst same
    exact absurd nonzero' (by decide)
  · exact absurd same (by decide)
  · exact .inr ⟨other, other'⟩
  · subst same
    exact absurd number' (by decide)
  · subst same
    exact absurd nonzero (by decide)
  · subst same
    exact absurd number (by decide)
  · subst same
    exact .inl (same_iff.mpr ⟨number, number, rfl⟩)

/-- Two doubles have a key in common exactly when neither is missing and they are equal. -/
theorem key_iff : (∃ key, x.key = some key ∧ y.key = some key) ↔
    x.isMissing = false ∧ y.isMissing = false ∧ x.Equals y := by
  constructor
  · rintro ⟨key, h, h'⟩
    exact ⟨(cases_of_key h).1, (cases_of_key h').1, equals_of_key h h'⟩
  · rintro ⟨present, present', same | ⟨other, other'⟩⟩
    · obtain ⟨number, number', equal⟩ := same_iff.mp same
      by_cases null : x.grains = 0
      · exact ⟨_, key_of_isZero (isZero_iff.mpr null),
          key_of_isZero (isZero_iff.mpr (equal ▸ null))⟩
      · have nonzero : x.isZero = false := Bool.eq_false_iff.mpr (mt isZero_iff.mp null)
        rw [← eq_of_same equal null]
        exact ⟨x, key_of_number number nonzero, key_of_number number nonzero⟩
    · exact ⟨nan, key_of_isNaN present other, key_of_isNaN present' other'⟩

end Vectorial.Binary64
