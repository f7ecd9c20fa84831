import Vectorial.Proofs.Decimal.Shortest

/-!
# Fifteen digits are kept by a double

The double nearest a decimal of fifteen significant digits has that decimal, or one of the same
value, as its own nearest decimal of fifteen digits: the steps of a normal double are smaller than
those of the decimal. Where a subnormal double has larger ones, its own decimal is closer to it than
any other double. So a second rounding to fifteen digits changes nothing, except that the doubles at
the end of the finite range have a decimal that is past it.

## Main definitions

* `Binary64.stepAt`: one unit of a decimal place;
* `Binary64.fifteen`: the decimal of fifteen digits that is nearest a double;
* `Binary64.fifteenLimit`: where the decimal passes the finite range.

## Main results

* `Binary64.toBinary64_significant`: rounding to fifteen digits twice is rounding once;
* `Binary64.isZero_rounded`: rounding does not lead to zero;
* `Binary64.isFinite_rounded`, `Binary64.rounded_eq_infinity`: when it leads to an infinity.
-/

namespace Vectorial

open Decimal

/-! ### Rounding to whole numbers -/

section Rounding

variable {num den n : Nat}

theorem abs_roundHalfEven_sub_le (num : Nat) (pos : 0 < den) :
    |(roundHalfEven num den : Rat) - num / den| ≤ 1 / 2 := by
  have half : (2 * gap num den (roundHalfEven num den) : Rat) ≤ den := by
    exact_mod_cast two_mul_gap_roundHalfEven num pos
  rw [Binary64.abs_sub_eq_gap pos, div_le_iff₀ (Nat.cast_pos.mpr pos)]
  linarith

/-- The whole number that is less than one half away is the one to which a quotient is rounded. -/
theorem roundHalfEven_of_abs_lt (pos : 0 < den) (near : |(n : Rat) - num / den| < 1 / 2) :
    roundHalfEven num den = n := by
  have rounded := abs_roundHalfEven_sub_le num pos
  rw [abs_le] at rounded
  rw [abs_lt] at near
  have below : (roundHalfEven num den : Rat) < (n + 1 : Nat) := by push_cast; linarith
  have above : (n : Rat) < (roundHalfEven num den + 1 : Nat) := by push_cast; linarith
  rw [Nat.cast_lt] at below above
  omega

/-- From the middle above an odd number on a quotient is rounded up. -/
theorem succ_le_roundHalfEven (pos : 0 < den) (odd : n % 2 = 1)
    (half : (2 * n + 1) * den ≤ 2 * num) : n + 1 ≤ roundHalfEven num den := by
  have parts := Nat.div_add_mod' num den
  have rest := Nat.mod_lt num pos
  rcases Nat.lt_or_ge n (num / den) with more | few
  · exact Nat.le_trans more (div_le_roundHalfEven num den)
  · have least : n ≤ num / den := by
      rw [Nat.le_div_iff_mul_le pos]
      rw [Nat.add_mul, Nat.one_mul, Nat.mul_assoc] at half
      omega
    obtain rfl : n = num / den := Nat.le_antisymm least few
    rw [Nat.add_mul, Nat.one_mul, Nat.mul_assoc] at half
    simp only [roundHalfEven]
    split
    · omega
    -- Above the middle the quotient is rounded up; in the middle it is because `n` is odd.
    split
    · exact Nat.le_refl _
    · rw [odd]

end Rounding

namespace Binary64

variable {x : Binary64}

/-! ### Decimal places -/

/-- One unit of a decimal place, in grains. -/
def stepAt (place : Int) : Rat :=
  unit * 10 ^ place

theorem stepAt_pos (place : Int) : 0 < stepAt place :=
  mul_pos unit_cast_pos (zpow_ten_pos _)

theorem stepAt_le {p q : Int} (le : p ≤ q) : stepAt p ≤ stepAt q :=
  mul_le_mul_of_nonneg_left (zpow_ten_le.mpr le) unit_cast_pos.le

theorem stepAt_add (place : Int) (more : Nat) :
    stepAt (place + more) = 10 ^ more * stepAt place := by
  rw [stepAt, zpow_add₀ (by norm_num), zpow_natCast, stepAt]
  ring

theorem stepAt_succ (place : Int) : stepAt (place + 1) = 10 * stepAt place :=
  (stepAt_add place 1).trans (by rw [pow_one])

/-- A unit of a decimal place is never one grain. -/
theorem stepAt_ne_one (place : Int) : stepAt place ≠ 1 := by
  intro one
  have scaled : unit * 10 ^ place.toNat = 10 ^ (-place).toNat := by
    rw [stepAt, zpow_ten_eq, mul_div_assoc',
      div_eq_one_iff_eq (Nat.cast_ne_zero.mpr (Nat.pow_pos (by decide)).ne')] at one
    exact_mod_cast one
  have last : unit % 10 = 4 := by decide +kernel
  generalize unit = n at scaled last
  rcases Int.lt_or_le place 0 with down | up
  · -- A power of two is no multiple of ten.
    obtain ⟨more, eq⟩ := Int.eq_ofNat_of_zero_le (show 0 ≤ -place - 1 by omega)
    rw [show place.toNat = 0 by omega, show (-place).toNat = more + 1 by omega, Nat.pow_zero,
      Nat.mul_one, Nat.pow_succ] at scaled
    omega
  · rw [show (-place).toNat = 0 by omega, Nat.pow_zero] at scaled
    rw [Nat.eq_one_of_mul_eq_one_right scaled] at last
    cases last

/-! ### Fifteen digits -/

/-- The place of the last of fifteen digits. -/
def lastPlace (x : Binary64) : Int :=
  leadingPlace x.magnitude - 14

theorem significant_eq (x : Binary64) : x.significant 15 =
    ⟨roundHalfEven (gridRatio x.magnitude x.lastPlace).1 (gridRatio x.magnitude x.lastPlace).2,
      x.lastPlace⟩ :=
  rfl

/-- In units of the last place a magnitude has fifteen digits. -/
theorem magnitude_bounds (nonzero : x.isZero = false) :
    10 ^ 14 * stepAt x.lastPlace ≤ (x.magnitude : Rat) ∧
      (x.magnitude : Rat) < 10 ^ 15 * stepAt x.lastPlace := by
  obtain ⟨least, most⟩ := leadingPlace_spec (magnitude_pos nonzero)
  have leading : leadingPlace x.magnitude = x.lastPlace + (14 : Nat) := by
    rw [lastPlace]
    omega
  rw [le_div_iff₀' unit_cast_pos, ← stepAt, leading, stepAt_add] at least
  rw [div_lt_iff₀' unit_cast_pos, ← stepAt, stepAt_succ, leading, stepAt_add] at most
  exact ⟨least, by linarith⟩

/-- The quotient that is rounded to a whole number of units of the last place. -/
theorem exists_significand (x : Binary64) : ∃ num den : Nat, 0 < den ∧
    (x.significant 15).significand = roundHalfEven num den ∧
      (num : Rat) / den = x.magnitude / stepAt x.lastPlace := by
  refine ⟨(gridRatio x.magnitude x.lastPlace).1, (gridRatio x.magnitude x.lastPlace).2, ?_,
    by rw [significant_eq], ?_⟩
  · rw [gridRatio]
    exact Nat.mul_pos unit_pos (Nat.pow_pos (by decide))
  · rw [gridRatio, stepAt, zpow_ten_eq]
    generalize unit = scale
    push_cast
    field_simp

/-- The decimal is at most half a unit of its last place away. -/
theorem abs_significand_sub_le (x : Binary64) :
    |((x.significant 15).significand : Rat) - x.magnitude / stepAt x.lastPlace| ≤ 1 / 2 := by
  obtain ⟨num, den, pos, eq, quotient⟩ := x.exists_significand
  rw [eq, ← quotient]
  exact abs_roundHalfEven_sub_le num pos

theorem significand_of_abs_lt {n : Nat}
    (near : |(n : Rat) - x.magnitude / stepAt x.lastPlace| < 1 / 2) :
    (x.significant 15).significand = n := by
  obtain ⟨num, den, pos, eq, quotient⟩ := x.exists_significand
  rw [eq]
  exact roundHalfEven_of_abs_lt pos (quotient ▸ near)

/-- There are fifteen digits, or one more than that after a carry. -/
theorem significand_bounds (nonzero : x.isZero = false) :
    10 ^ 14 ≤ (x.significant 15).significand ∧ (x.significant 15).significand ≤ 10 ^ 15 := by
  have scale := stepAt_pos x.lastPlace
  obtain ⟨least, most⟩ := magnitude_bounds nonzero
  rw [← le_div_iff₀ scale] at least
  rw [← div_lt_iff₀ scale] at most
  have near := abs_le.mp x.abs_significand_sub_le
  have below : ((10 ^ 14 : Nat) : Rat) < ((x.significant 15).significand + 1 : Nat) := by
    push_cast
    linarith [near.1]
  have above : ((x.significant 15).significand : Rat) < (10 ^ 15 + 1 : Nat) := by
    push_cast
    linarith [near.2]
  rw [Nat.cast_lt] at below above
  omega

/-- The decimal in grains. -/
def fifteen (x : Binary64) : Rat :=
  (x.significant 15).value * unit

theorem fifteen_eq (x : Binary64) :
    x.fifteen = (x.significant 15).significand * stepAt x.lastPlace := by
  rw [fifteen, Decimal.value, show (x.significant 15).place = x.lastPlace by rw [significant_eq],
    stepAt]
  ring

theorem abs_fifteen_sub_le (x : Binary64) :
    |x.fifteen - x.magnitude| ≤ stepAt x.lastPlace / 2 := by
  have scale := stepAt_pos x.lastPlace
  have parts : x.fifteen - x.magnitude =
      ((x.significant 15).significand - x.magnitude / stepAt x.lastPlace) * stepAt x.lastPlace := by
    rw [fifteen_eq, sub_mul, div_mul_cancel₀ _ scale.ne']
  have near := mul_le_mul_of_nonneg_right x.abs_significand_sub_le scale.le
  rw [parts, abs_mul, abs_of_pos scale]
  linarith

/-! ### The double that is nearest the decimal -/

section Rounded

variable {negative : Bool}

/-- The double that is read is as close to the decimal as the one that was rounded. -/
theorem abs_rounded_sub_le (finite : x.isFinite) (negative : Bool) :
    |(((x.significant 15).toBinary64 negative).magnitude : Rat) - x.fifteen| ≤
      stepAt x.lastPlace / 2 := by
  obtain ⟨num, den, pos, quotient⟩ := (x.significant 15).exists_quotient
  rw [toBinary64_eq negative pos quotient]
  refine le_trans ?_ x.abs_fifteen_sub_le
  rw [abs_sub_comm x.fifteen, fifteen, ← quotient]
  exact abs_magnitude_sub_le negative num pos (ordinary_of_isFinite finite).1

/-- It is also at most half a step of its own away. -/
theorem abs_rounded_sub_le_spacing (finite : ((x.significant 15).toBinary64 negative).isFinite) :
    |(((x.significant 15).toBinary64 negative).magnitude : Rat) - x.fifteen| ≤
      ((x.significant 15).toBinary64 negative).spacing / 2 := by
  obtain ⟨num, den, pos, quotient⟩ := (x.significant 15).exists_quotient
  rw [toBinary64_eq negative pos quotient] at finite ⊢
  rw [fifteen, ← quotient]
  exact abs_magnitude_nearest_le pos finite

/-- Rounding does not lead to zero. -/
theorem isZero_rounded (finite : x.isFinite) (nonzero : x.isZero = false) (negative : Bool) :
    ((x.significant 15).toBinary64 negative).isZero = false := by
  have near := (abs_le.mp (abs_rounded_sub_le finite negative)).1
  have scale := stepAt_pos x.lastPlace
  have digits : (10 ^ 14 : Rat) ≤ (x.significant 15).significand := by
    exact_mod_cast (significand_bounds nonzero).1
  have least := mul_le_mul_of_nonneg_right digits scale.le
  rw [fifteen_eq] at near
  refine beq_eq_false_iff_ne.mpr fun vanishes => ?_
  rw [vanishes, Nat.cast_zero, zero_sub] at near
  linarith

/-- The decimal is a whole number of units of the last of fifteen digits of the double as well. -/
theorem exists_fifteen_eq (finite : x.isFinite) (nonzero : x.isZero = false) (negative : Bool) :
    ∃ n : Nat, x.fifteen = n * stepAt ((x.significant 15).toBinary64 negative).lastPlace := by
  have rounded_nonzero := isZero_rounded finite nonzero negative
  have near := (abs_le.mp (abs_rounded_sub_le finite negative)).2
  generalize (x.significant 15).toBinary64 negative = r at *
  rw [fifteen_eq] at near ⊢
  have scale := stepAt_pos x.lastPlace
  rcases Int.lt_or_le x.lastPlace r.lastPlace with carried | kept
  · -- A decimal that leads to the next place is a power of ten.
    have least := (magnitude_bounds rounded_nonzero).1
    have next := stepAt_le (show x.lastPlace + 1 ≤ r.lastPlace from carried)
    rw [stepAt_succ] at next
    have digits : (x.significant 15).significand = 10 ^ 15 := by
      have most := (significand_bounds nonzero).2
      by_contra fewer
      have less : ((x.significant 15).significand + 1 : Rat) ≤ 10 ^ 15 := by
        exact_mod_cast (show (x.significant 15).significand + 1 ≤ 10 ^ 15 by omega)
      have scaled := mul_le_mul_of_nonneg_right less scale.le
      linarith
    have place : r.lastPlace = x.lastPlace + 1 := by
      by_contra further
      have beyond := stepAt_le (show x.lastPlace + (2 : Nat) ≤ r.lastPlace by omega)
      rw [stepAt_add] at beyond
      rw [digits] at near
      norm_num at near beyond
      linarith
    refine ⟨10 ^ 14, ?_⟩
    rw [digits, place, stepAt_succ]
    push_cast
    ring
  · obtain ⟨more, eq⟩ := Int.eq_ofNat_of_zero_le (Int.sub_nonneg.mpr kept)
    refine ⟨(x.significant 15).significand * 10 ^ more, ?_⟩
    rw [show x.lastPlace = r.lastPlace + more by omega, stepAt_add]
    push_cast
    ring

/-- The last of fifteen digits of a normal double stands for more than its spacing. -/
theorem spacing_lt_stepAt (nonzero : x.isZero = false) (normal : x.exponent ≠ 0) :
    x.spacing < stepAt x.lastPlace := by
  have bits : Nat.pow 2 52 * x.spacing ≤ x.magnitude := by
    rw [magnitude, if_neg normal]
    exact Nat.mul_le_mul_right _ (Nat.le_add_right _ _)
  have bits_cast : (4503599627370496 * x.spacing : Rat) ≤ x.magnitude := by exact_mod_cast bits
  have spacing : (0 : Rat) < x.spacing := Nat.cast_pos.mpr x.spacing_pos
  linarith [(magnitude_bounds nonzero).2]

/-- A decimal that is close enough to a double has fifteen digits of the double. -/
theorem fifteen_of_spacing_lt {q : Rat} {n : Nat} (eq : q = n * stepAt x.lastPlace)
    (near : |(x.magnitude : Rat) - q| ≤ x.spacing / 2)
    (coarse : x.spacing < stepAt x.lastPlace) : x.fifteen = q := by
  have scale := stepAt_pos x.lastPlace
  have parts : (n : Rat) - x.magnitude / stepAt x.lastPlace =
      (q - x.magnitude) / stepAt x.lastPlace := by
    rw [eq, sub_div, mul_div_cancel_right₀ _ scale.ne']
  have digits : (x.significant 15).significand = n := by
    refine significand_of_abs_lt ?_
    rw [parts, abs_div, abs_of_pos scale, div_lt_iff₀ scale, abs_sub_comm]
    linarith
  rw [fifteen_eq, eq, digits]

/-- The decimal is read as the double again where fifteen digits are finer than the spacing. Only
a subnormal double has so few digits, and it has its neighbours one grain away. -/
theorem toBinary64_significant_of_le (finite : x.isFinite) (nonzero : x.isZero = false)
    (fine : stepAt x.lastPlace ≤ x.spacing) :
    (x.significant 15).toBinary64 x.negative = x := by
  have subnormal : x.exponent = 0 := by
    by_contra normal
    exact absurd fine (not_le_of_gt (spacing_lt_stepAt nonzero normal))
  have spacing_eq : x.spacing = 1 := by rw [spacing, subnormal]
  rw [spacing_eq, Nat.cast_one] at fine
  -- A step of the decimals is never exactly one grain, so that half of it is less than half.
  have less := lt_of_le_of_ne fine (stepAt_ne_one x.lastPlace)
  have near := abs_le.mp x.abs_fifteen_sub_le
  have pos := magnitude_pos nonzero
  refine toBinary64_of_contains (ordinary_of_isFinite finite).1 (Neighbourhood.contains_of_lt ?_ ?_)
  · have reach_eq : x.reach = 2 := by rw [reach, if_neg (by omega), spacing_eq]
    have lower : x.neighbourhood.lower + 2 = 4 * x.magnitude := by
      rw [lower_neighbourhood, reach_eq]
      omega
    have lower_cast : (x.neighbourhood.lower + 2 : Rat) = 4 * x.magnitude := by exact_mod_cast lower
    rw [← fifteen]
    linarith
  · rw [upper_neighbourhood, spacing_eq, ← fifteen]
    push_cast
    linarith

/-- Rounding to fifteen digits twice is rounding once. -/
theorem toBinary64_significant (finite : x.isFinite) (nonzero : x.isZero = false)
    (bounded : ((x.significant 15).toBinary64 negative).isFinite) :
    (((x.significant 15).toBinary64 negative).significant 15).toBinary64 negative =
      (x.significant 15).toBinary64 negative := by
  obtain ⟨n, eq⟩ := exists_fifteen_eq finite nonzero negative
  have near := abs_rounded_sub_le_spacing bounded
  have rounded_nonzero := isZero_rounded finite nonzero negative
  rcases lt_or_ge (((x.significant 15).toBinary64 negative).spacing : Rat)
    (stepAt ((x.significant 15).toBinary64 negative).lastPlace) with coarse | fine
  · -- Both decimals have the same value.
    refine toBinary64_congr negative ?_
    have same := fifteen_of_spacing_lt eq near coarse
    rw [fifteen, fifteen] at same
    exact mul_right_cancel₀ unit_cast_pos.ne' same
  · have same := toBinary64_significant_of_le bounded rounded_nonzero fine
    rwa [negative_toBinary64] at same

end Rounded

/-! ### Past the finite range -/

/-- A double of the value 1.797693134862315e308 or more has a decimal of fifteen digits that is
past all finite doubles. -/
def fifteenLimit : Nat :=
  1797693134862315 * Nat.pow 10 293 * unit

/-- The largest finite double. -/
def largest : Binary64 :=
  ⟨0x7FEFFFFFFFFFFFFF⟩

/-- The decimals next to the limit are on the two sides of the end of the finite range. -/
theorem fifteenLimit_spec (negative : Bool) : ∃ top : Int,
    (fifteenLimit : Rat) = 1797693134862315 * stepAt top ∧
      1797693134862310 * stepAt top ≤ (largest.magnitude : Rat) ∧
      ((infinity negative).magnitude : Rat) ≤ 1797693134862320 * stepAt top := by
  have below : 1797693134862310 * Nat.pow 10 293 * unit ≤ largest.magnitude := by decide +kernel
  have above : (infinity negative).magnitude ≤ 1797693134862320 * Nat.pow 10 293 * unit := by
    cases negative <;> decide +kernel
  rw [fifteenLimit]
  -- The numbers are far too large to be computed with from here on.
  generalize largest.magnitude = most at *
  generalize (infinity negative).magnitude = least at *
  generalize 293 = places at *
  have scaled (n : Nat) : ((n * Nat.pow 10 places * unit : Nat) : Rat) = n * stepAt places := by
    rw [stepAt, zpow_natCast, Nat.pow_eq]
    push_cast
    ring
  refine ⟨places, scaled _, ?_, ?_⟩
  · have bound := Nat.cast_le (α := Rat).mpr below
    rwa [scaled] at bound
  · have bound := Nat.cast_le (α := Rat).mpr above
    rwa [scaled] at bound

section Limit

variable {top : Int}

/-- A double below the end of the finite range has its last place there or before. -/
theorem lastPlace_le (nonzero : x.isZero = false)
    (below : (x.magnitude : Rat) < 1797693134862320 * stepAt top) : x.lastPlace ≤ top + 1 := by
  by_contra beyond
  have least := (magnitude_bounds nonzero).1
  have step := stepAt_le (show top + (2 : Nat) ≤ x.lastPlace by omega)
  have scale := stepAt_pos top
  rw [stepAt_add] at step
  linarith

/-- Below the limit the decimal is at most the largest finite double. -/
theorem fifteen_le_of_lt (nonzero : x.isZero = false)
    (below : (x.magnitude : Rat) < 1797693134862315 * stepAt top) :
    x.fifteen ≤ 1797693134862310 * stepAt top := by
  have scale := stepAt_pos top
  have near := (abs_le.mp x.abs_fifteen_sub_le).2
  rw [fifteen_eq] at near ⊢
  -- Either the digits end one place above `top`, or they end there or below and are small enough.
  rcases Int.lt_or_le top x.lastPlace with last | before
  · have ceiling : (x.magnitude : Rat) < 1797693134862320 * stepAt top := by linarith
    have place := lastPlace_le nonzero ceiling
    rw [show x.lastPlace = top + 1 by omega, stepAt_succ] at near ⊢
    have fewer : (x.significant 15).significand < 179769313486232 := by
      by_contra more
      have digits : (179769313486232 : Rat) ≤ (x.significant 15).significand := by
        exact_mod_cast Nat.le_of_not_lt more
      linarith [mul_le_mul_of_nonneg_right digits scale.le]
    have digits : ((x.significant 15).significand : Rat) ≤ 179769313486231 := by
      exact_mod_cast Nat.le_of_lt_succ fewer
    linarith [mul_le_mul_of_nonneg_right digits scale.le]
  · have digits : ((x.significant 15).significand : Rat) ≤ 10 ^ 15 := by
      exact_mod_cast (significand_bounds nonzero).2
    have scaled := mul_le_mul digits (stepAt_le before) (stepAt_pos _).le (by norm_num)
    linarith

/-- From the limit on it is past all finite doubles. -/
theorem le_fifteen_of_le (nonzero : x.isZero = false)
    (above : 1797693134862315 * stepAt top ≤ (x.magnitude : Rat))
    (ceiling : (x.magnitude : Rat) < 1797693134862320 * stepAt top) :
    1797693134862320 * stepAt top ≤ x.fifteen := by
  have scale := stepAt_pos top
  have place : x.lastPlace = top + 1 := by
    have last := lastPlace_le nonzero ceiling
    by_contra before
    linarith [(magnitude_bounds nonzero).2, stepAt_le (show x.lastPlace ≤ top by omega)]
  -- The last digit is rounded up, since the limit lies in the middle above an odd number.
  have digits : 179769313486231 + 1 ≤ (x.significant 15).significand := by
    obtain ⟨num, den, pos, eq, quotient⟩ := x.exists_significand
    have den_pos : (0 : Rat) < den := Nat.cast_pos.mpr pos
    rw [eq]
    refine succ_le_roundHalfEven pos (by decide) ?_
    rw [place, stepAt_succ, div_eq_div_iff den_pos.ne' (by linarith)] at quotient
    have scaled := mul_le_mul_of_nonneg_right above den_pos.le
    rw [← quotient] at scaled
    have bound : (1797693134862315 * den : Rat) ≤ num * 10 :=
      le_of_mul_le_mul_right (by linarith) scale
    have bound_nat : 1797693134862315 * den ≤ num * 10 := by exact_mod_cast bound
    omega
  have digits_cast : (179769313486232 : Rat) ≤ (x.significant 15).significand := by
    exact_mod_cast digits
  rw [fifteen_eq, place, stepAt_succ]
  linarith [mul_le_mul_of_nonneg_right digits_cast scale.le]

/-- Rounding to fifteen digits leads to a finite double below the limit. -/
theorem isFinite_rounded (nonzero : x.isZero = false) (below : x.magnitude < fifteenLimit)
    (negative : Bool) : ((x.significant 15).toBinary64 negative).isFinite := by
  obtain ⟨top, limit, inside, -⟩ := fifteenLimit_spec negative
  have below_cast : (x.magnitude : Rat) < fifteenLimit := Nat.cast_lt.mpr below
  rw [limit] at below_cast
  have most := fifteen_le_of_lt nonzero below_cast
  obtain ⟨num, den, pos, quotient⟩ := (x.significant 15).exists_quotient
  rw [toBinary64_eq negative pos quotient]
  refine isFinite_nearest_of_le (x := largest) pos (by decide) ?_
  have bound : (num : Rat) / den ≤ largest.magnitude := by
    rw [quotient, ← fifteen]
    exact most.trans inside
  rw [div_le_iff₀ (Nat.cast_pos.mpr pos)] at bound
  exact_mod_cast bound

/-- From the limit on it leads to an infinity. -/
theorem rounded_eq_infinity (finite : x.isFinite) (nonzero : x.isZero = false)
    (above : fifteenLimit ≤ x.magnitude) (negative : Bool) :
    (x.significant 15).toBinary64 negative = infinity negative := by
  obtain ⟨top, limit, -, beyond⟩ := fifteenLimit_spec negative
  have above_cast : (fifteenLimit : Rat) ≤ x.magnitude := Nat.cast_le.mpr above
  rw [limit] at above_cast
  have ceiling : (x.magnitude : Rat) < (infinity negative).magnitude :=
    Nat.cast_lt.mpr (magnitude_lt_infinity finite negative)
  have least := le_fifteen_of_le nonzero above_cast (ceiling.trans_le beyond)
  obtain ⟨num, den, pos, quotient⟩ := (x.significant 15).exists_quotient
  rw [toBinary64_eq negative pos quotient]
  refine nearest_of_infinity_le pos ?_
  have bound : ((infinity negative).magnitude : Rat) ≤ num / den := by
    rw [quotient, ← fifteen]
    exact beyond.trans least
  rw [le_div_iff₀ (Nat.cast_pos.mpr pos)] at bound
  exact_mod_cast bound

end Limit

end Binary64

end Vectorial
