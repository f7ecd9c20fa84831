import Mathlib.Tactic.Ring
import Vectorial.Proofs.Binary64.Neighbours
import Vectorial.Proofs.Decimal.Whole

/-!
# The value of a decimal

The double that a decimal is read as depends only on its value: neither zeros at its end nor the
bounds beyond which no power of ten is computed matter. So it is the double in whose interval the
value lies.

## Main definitions

* `Decimal.value`: a decimal as a rational number.

## Main results

* `Decimal.toBinary64_eq`, `Decimal.toBinary64_congr`: reading depends on the value;
* `Decimal.toBinary64_of_contains`: a decimal in the interval of a double is read as the double;
* `Decimal.value_trimmed`: zeros at the end do not matter;
* `Decimal.leadingPlace_spec`: the place of the first digit of a double.
-/

namespace Vectorial

open Binary64

/-! ### Digits -/

/-- A number is at least the power of ten of its first digit. -/
theorem pow_digitCount_le {n : Nat} (pos : 0 < n) : 10 ^ (digitCount n - 1) ≤ n := by
  rcases Nat.lt_or_ge 1 (digitCount n) with several | single
  · refine Nat.not_lt.mp fun less => ?_
    have fewer := (digitCount_le_iff (by omega)).mpr less
    omega
  · rw [show digitCount n - 1 = 0 by omega]
    exact pos

theorem digitCount_pos (n : Nat) : 0 < digitCount n := by
  rw [digitCount]
  split <;> omega

theorem lt_pow_digitCount (n : Nat) : n < 10 ^ digitCount n :=
  (digitCount_le_iff (digitCount_pos n)).mp (Nat.le_refl _)

namespace Decimal

/-! ### Powers of ten -/

/-- A power of ten as a fraction of natural numbers. -/
theorem zpow_ten_eq (place : Int) :
    (10 : Rat) ^ place = (Nat.pow 10 place.toNat : Nat) / (Nat.pow 10 (-place).toNat : Nat) := by
  rcases Int.le_total 0 place with up | down
  · obtain ⟨n, rfl⟩ := Int.eq_ofNat_of_zero_le up
    simp
  · obtain ⟨n, eq⟩ := Int.eq_ofNat_of_zero_le (Int.neg_nonneg.mpr down)
    obtain rfl : place = -n := by omega
    simp

theorem zpow_ten_pos (place : Int) : (0 : Rat) < 10 ^ place :=
  zpow_pos (by norm_num) place

theorem zpow_ten_le {p q : Int} : (10 : Rat) ^ p ≤ 10 ^ q ↔ p ≤ q :=
  zpow_le_zpow_iff_right₀ (by norm_num)

theorem cast_le_zpow {n places scale : Nat} (bound : n ≤ Nat.pow 10 places * scale) :
    (n : Rat) ≤ 10 ^ (places : Int) * scale := by
  rw [zpow_natCast]
  exact_mod_cast bound

theorem mul_le_half {q : Rat} {places scale : Nat} (bound : 2 * scale ≤ Nat.pow 10 places)
    (small : q ≤ 10 ^ (-(places : Int))) : q * scale ≤ 1 / 2 := by
  have bound_cast : (2 * scale : Rat) ≤ 10 ^ (places : Int) := by
    rw [zpow_natCast]
    exact_mod_cast bound
  have inverse : (10 : Rat) ^ (-(places : Int)) * 10 ^ (places : Int) = 1 := by
    rw [← zpow_add₀ (by norm_num), Int.add_left_neg, zpow_zero]
  calc
    q * scale ≤ 10 ^ (-(places : Int)) * scale :=
      mul_le_mul_of_nonneg_right small (Nat.cast_nonneg scale)
    _ ≤ 10 ^ (-(places : Int)) * (10 ^ (places : Int) / 2) :=
      mul_le_mul_of_nonneg_left (by linarith) (zpow_ten_pos _).le
    _ = 1 / 2 := by rw [mul_div_assoc', inverse]

/-! ### Values -/

/-- A decimal as a rational number. -/
def value (d : Decimal) : Rat :=
  d.significand * 10 ^ d.place

variable {d d' : Decimal} {num den : Nat} {negative : Bool}

theorem unit_cast_pos : (0 : Rat) < Binary64.unit :=
  Nat.cast_pos.mpr unit_pos

theorem pow_firstPlace_le (nonzero : d.significand ≠ 0) : (10 : Rat) ^ d.firstPlace ≤ d.value := by
  have digits : (10 : Rat) ^ (digitCount d.significand - 1 : Nat) ≤ d.significand := by
    exact_mod_cast pow_digitCount_le (Nat.pos_of_ne_zero nonzero)
  have split : (10 : Rat) ^ d.firstPlace =
      10 ^ (digitCount d.significand - 1 : Nat) * 10 ^ d.place := by
    have count := digitCount_pos d.significand
    rw [← zpow_natCast, ← zpow_add₀ (by norm_num), firstPlace]
    congr 1
    omega
  rw [split, value]
  exact mul_le_mul_of_nonneg_right digits (zpow_ten_pos _).le

theorem value_lt_pow_firstPlace (d : Decimal) : d.value < 10 ^ (d.firstPlace + 1) := by
  have digits : (d.significand : Rat) < 10 ^ digitCount d.significand := by
    exact_mod_cast lt_pow_digitCount d.significand
  have split : (10 : Rat) ^ (d.firstPlace + 1) = 10 ^ digitCount d.significand * 10 ^ d.place := by
    rw [← zpow_natCast, ← zpow_add₀ (by norm_num), firstPlace]
    congr 1
    omega
  rw [split, value]
  exact mul_lt_mul_of_pos_right digits (zpow_ten_pos _)

/-- Equal quotients are rounded to the same double. -/
theorem nearest_congr {num' den' : Nat} (pos : 0 < den) (pos' : 0 < den')
    (same : (num : Rat) / den = num' / den') :
    nearest negative num den = nearest negative num' den' := by
  have cross : num * den' = num' * den := by
    have products := (div_eq_div_iff (Nat.cast_ne_zero.mpr pos.ne')
      (Nat.cast_ne_zero.mpr pos'.ne')).mp same
    exact_mod_cast products
  rw [← nearest_scale negative num den pos', ← nearest_scale negative num' den' pos, cross,
    Nat.mul_comm den]

/-- What is at most half a grain is rounded to zero. -/
theorem nearest_of_le_half (pos : 0 < den) (small : (num : Rat) / den ≤ 1 / 2) :
    nearest negative num den = .zero negative := by
  have sign : (Binary64.zero negative).negative = negative := by cases negative <;> decide
  have ends : (Binary64.zero negative).neighbourhood = ⟨0, 0, 2, true⟩ := by
    cases negative <;> rfl
  have nonneg : (0 : Rat) ≤ num / den := by positivity
  have inside : (Binary64.zero negative).neighbourhood.Contains (num / den) := by
    rw [ends, Neighbourhood.Contains, if_pos rfl]
    push_cast
    constructor <;> linarith
  have rounded := nearest_of_contains pos (isNaN_zero negative) inside
  rwa [sign] at rounded

/-- A decimal is read as the double that is nearest its value. -/
theorem toBinary64_eq (negative : Bool) (pos : 0 < den)
    (same : (num : Rat) / den = d.value * Binary64.unit) :
    d.toBinary64 negative = nearest negative num den := by
  have scale := unit_cast_pos
  rw [toBinary64]
  split
  · next nothing =>
    -- Zero digits.
    refine (nearest_of_le_half pos ?_).symm
    rw [same, value, nothing, Nat.cast_zero, zero_mul, zero_mul]
    norm_num
  split
  · next nonzero large =>
    -- So large that the value is cut off without a power being formed.
    refine (nearest_of_infinity_le pos ?_).symm
    have most : (infinity negative).magnitude ≤ Nat.pow 10 310 * Binary64.unit := by
      cases negative <;> decide +kernel
    have least : (10 : Rat) ^ ((310 : Nat) : Int) ≤ d.value :=
      (zpow_ten_le.mpr large).trans (pow_firstPlace_le nonzero)
    have bound := (cast_le_zpow most).trans (mul_le_mul_of_nonneg_right least scale.le)
    rw [← same, le_div_iff₀ (Nat.cast_pos.mpr pos)] at bound
    exact_mod_cast bound
  split
  · next small =>
    -- So small that it is, likewise.
    refine (nearest_of_le_half pos ?_).symm
    have bound : 2 * Binary64.unit ≤ Nat.pow 10 330 := by decide +kernel
    have least : d.value ≤ 10 ^ (-(330 : Nat) : Int) :=
      d.value_lt_pow_firstPlace.le.trans (zpow_ten_le.mpr small)
    rw [same]
    exact mul_le_half bound least
  split
  · next up =>
    -- A whole number.
    refine nearest_congr Nat.one_pos pos ?_
    have down : (-d.place).toNat = 0 := by omega
    rw [same, value, zpow_ten_eq, down]
    generalize Binary64.unit = scale
    push_cast
    simp
  · next down =>
    -- A quotient by a power of ten.
    refine nearest_congr (Nat.pow_pos (by decide)) pos ?_
    have up : d.place.toNat = 0 := by omega
    rw [same, value, zpow_ten_eq, up]
    push_cast
    ring

/-- Every decimal is read as the double nearest a quotient. -/
theorem exists_quotient (d : Decimal) :
    ∃ num den : Nat, 0 < den ∧ (num : Rat) / den = d.value * Binary64.unit := by
  refine ⟨d.significand * Nat.pow 10 d.place.toNat * Binary64.unit,
    Nat.pow 10 (-d.place).toNat, Nat.pow_pos (by decide), ?_⟩
  rw [value, zpow_ten_eq]
  push_cast
  ring

theorem negative_toBinary64 (negative : Bool) (d : Decimal) :
    (d.toBinary64 negative).negative = negative := by
  obtain ⟨num, den, pos, quotient⟩ := d.exists_quotient
  rw [toBinary64_eq negative pos quotient]
  exact negative_nearest ..

/-- Decimals of the same value are read as the same double. -/
theorem toBinary64_congr (negative : Bool) (same : d.value = d'.value) :
    d.toBinary64 negative = d'.toBinary64 negative := by
  obtain ⟨num, den, pos, quotient⟩ := d.exists_quotient
  rw [toBinary64_eq negative pos quotient, toBinary64_eq negative pos (same ▸ quotient)]

/-- A decimal in the interval of a double is read as the double. -/
theorem toBinary64_of_contains {x : Binary64} (number : x.isNaN = false)
    (inside : x.neighbourhood.Contains (d.value * Binary64.unit)) :
    d.toBinary64 x.negative = x := by
  obtain ⟨num, den, pos, quotient⟩ := d.exists_quotient
  rw [toBinary64_eq x.negative pos quotient]
  exact nearest_of_contains pos number (quotient ▸ inside)

theorem value_trimmed (d : Decimal) : d.trimmed.value = d.value := by
  induction d using trimmed.induct with
  | case1 d ends ih =>
    rw [trimmed, dif_pos ends, ih]
    have digits : (d.significand : Rat) = (d.significand / 10 : Nat) * 10 := by
      exact_mod_cast (Nat.div_mul_cancel (Nat.dvd_of_mod_eq_zero ends.2)).symm
    rw [value, value, digits, zpow_add_one₀ (by norm_num)]
    ring
  | case2 d ends => rw [trimmed, dif_neg ends]

/-! ### The first digit of a double -/

variable {magnitude : Nat}

/-- The leading place is that of the first digit. -/
theorem leadingPlace_spec (pos : 0 < magnitude) :
    (10 : Rat) ^ leadingPlace magnitude ≤ magnitude / Binary64.unit ∧
      (magnitude : Rat) / Binary64.unit < 10 ^ (leadingPlace magnitude + 1) := by
  have unit_le : Binary64.unit ≤ Nat.pow 10 324 := by decide +kernel
  have place : leadingPlace magnitude =
      digitCount (magnitude * Nat.pow 10 324 / Binary64.unit) - 1 - (324 : Nat) := by
    rw [leadingPlace]
    omega
  rw [place]
  -- The power of ten is kept as a variable, as otherwise it would be multiplied out.
  clear place
  generalize 324 = places at *
  have scale := unit_cast_pos
  have scaled : 0 < magnitude * Nat.pow 10 places / Binary64.unit :=
    Nat.div_pos (Nat.le_trans unit_le (Nat.le_mul_of_pos_left _ pos)) unit_pos
  have count := digitCount_pos (magnitude * Nat.pow 10 places / Binary64.unit)
  have least := pow_digitCount_le scaled
  have most := lt_pow_digitCount (magnitude * Nat.pow 10 places / Binary64.unit)
  generalize digitCount (magnitude * Nat.pow 10 places / Binary64.unit) = digits at *
  rw [Nat.le_div_iff_mul_le unit_pos] at least
  rw [Nat.div_lt_iff_lt_mul unit_pos] at most
  have least_cast : (10 ^ (digits - 1) * Binary64.unit : Rat) ≤ magnitude * 10 ^ places := by
    exact_mod_cast least
  have most_cast : (magnitude * 10 ^ places : Rat) < 10 ^ digits * Binary64.unit := by
    exact_mod_cast most
  have power : (0 : Rat) < 10 ^ places := by positivity
  have first : (10 : Rat) ^ ((digits : Int) - 1 - places) = 10 ^ (digits - 1) / 10 ^ places := by
    rw [zpow_sub₀ (by norm_num), zpow_natCast, ← Nat.cast_pred count, zpow_natCast]
  have next : (10 : Rat) ^ ((digits : Int) - 1 - places + 1) = 10 ^ digits / 10 ^ places := by
    rw [show (digits : Int) - 1 - places + 1 = digits - places by omega, zpow_sub₀ (by norm_num),
      zpow_natCast, zpow_natCast]
  rw [first, next, div_le_div_iff₀ power scale, div_lt_div_iff₀ scale power]
  exact ⟨least_cast, most_cast⟩

end Decimal

end Vectorial
