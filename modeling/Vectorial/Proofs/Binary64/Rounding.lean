import Vectorial.Binary64.Arithmetic

/-!
# Rounding keeps order

A finite result is a multiple of the power of two to which its exact value was cut. A double
on one side of the exact value lies on that side of the result as well: it is such a multiple
too, or so small that the result has passed it anyway. So adding a number that is not
negative does not lead below a finite summand, however the sum is rounded.

## Main results

* `Binary64.magnitude_nearest`: what a finite result amounts to;
* `Binary64.magnitude_le_nearest`, `Binary64.nearest_le_magnitude`: rounding passes no double;
* `Binary64.le_grains_add`, `Binary64.grains_add_le`: sums lie on the side of their summand
  that the sign of the other one tells.
-/

namespace Vectorial

/-! ### Quotients -/

theorem div_le_roundHalfEven (num den : Nat) : num / den ≤ roundHalfEven num den := by
  simp only [roundHalfEven]
  split
  · exact Nat.le_refl _
  · split <;> omega

theorem roundHalfEven_le {num den bound : Nat} (pos : 0 < den) (below : num ≤ bound * den) :
    roundHalfEven num den ≤ bound := by
  have floor : num / den ≤ bound := Nat.div_le_of_le_mul (Nat.mul_comm bound den ▸ below)
  rcases Nat.lt_or_eq_of_le floor with less | same
  · simp only [roundHalfEven]
    split
    · exact floor
    · split <;> omega
  · -- A quotient that meets the bound leaves nothing to round.
    have exact_ : num % den = 0 := by
      have parts := Nat.div_add_mod num den
      rw [same, Nat.mul_comm] at parts
      omega
    simp only [roundHalfEven, exact_, Nat.mul_zero, if_pos pos]
    exact floor

namespace Binary64

/-! ### Fields -/

private theorem pow_two_63 : Nat.pow 2 63 = 9223372036854775808 :=
  rfl

private theorem pow_two_52 : Nat.pow 2 52 = 4503599627370496 :=
  rfl

private theorem pow_two_11 : Nat.pow 2 11 = 2048 :=
  rfl

section Fields

variable {negative : Bool} {low : Nat}

theorem toNat_bits_ofFields (small : low < Nat.pow 2 63) :
    (ofFields negative low).bits.toNat = (if negative then Nat.pow 2 63 else 0) + low := by
  rw [ofFields, UInt64.toNat_ofNat']
  simp only [pow_two_63] at small ⊢
  cases negative <;> simp <;> omega

theorem negative_ofFields (small : low < Nat.pow 2 63) :
    (ofFields negative low).negative = negative := by
  rw [Binary64.negative, toNat_bits_ofFields small]
  simp only [pow_two_63] at small ⊢
  cases negative <;> simp <;> omega

theorem exponent_ofFields (small : low < Nat.pow 2 63) :
    (ofFields negative low).exponent = low / Nat.pow 2 52 := by
  rw [exponent, toNat_bits_ofFields small]
  simp only [pow_two_63, pow_two_52, pow_two_11] at small ⊢
  cases negative <;> simp <;> omega

theorem fraction_ofFields (small : low < Nat.pow 2 63) :
    (ofFields negative low).fraction = low % Nat.pow 2 52 := by
  rw [fraction, toNat_bits_ofFields small]
  simp only [pow_two_63, pow_two_52] at small ⊢
  cases negative <;> simp
  omega

/-- A significand cut by some bits, which the exponent field counts. A carry out of the
significand lands in the exponent. -/
theorem magnitude_ofFields {cut significand : Nat}
    (small : cut * Nat.pow 2 52 + significand < Nat.pow 2 63)
    (most : significand ≤ Nat.pow 2 53) (least : cut = 0 ∨ Nat.pow 2 52 ≤ significand) :
    (ofFields negative (cut * Nat.pow 2 52 + significand)).magnitude =
      significand * Nat.pow 2 cut := by
  rw [magnitude, exponent_ofFields small, fraction_ofFields small]
  have twice : Nat.pow 2 53 = 2 * Nat.pow 2 52 := rfl
  have shifted : Nat.pow 2 (cut + 1) = 2 * Nat.pow 2 cut := Nat.pow_succ'
  have pos : 0 < Nat.pow 2 52 := by decide
  generalize Nat.pow 2 52 = unit at *
  rcases Nat.lt_or_ge significand unit with low | high
  · -- A subnormal number, which has all its bits.
    obtain rfl := least.resolve_right (Nat.not_le_of_lt low)
    rw [Nat.zero_mul, Nat.zero_add, Nat.div_eq_of_lt low, Nat.mod_eq_of_lt low, if_pos rfl]
    exact (Nat.mul_one _).symm
  · obtain ⟨fraction, rfl⟩ := Nat.exists_eq_add_of_le high
    have sum : cut * unit + (unit + fraction) = fraction + (cut + 1) * unit := by
      rw [Nat.add_mul]
      omega
    rw [sum, Nat.add_mul_div_right _ _ pos, Nat.add_mul_mod_self_right]
    -- The fraction may have carried to a whole unit: then it is zero and the exponent one more.
    rcases Nat.lt_or_ge fraction unit with inside | carried
    · rw [Nat.div_eq_of_lt inside, Nat.mod_eq_of_lt inside, if_neg (by omega), Nat.zero_add,
        Nat.add_sub_cancel]
    · obtain rfl : fraction = unit := by omega
      rw [Nat.div_self pos, Nat.mod_self, if_neg (by omega), Nat.add_comm 1, Nat.add_sub_cancel,
        Nat.add_zero, shifted, Nat.two_mul, Nat.mul_add, Nat.add_mul]

end Fields

/-- A magnitude has at most fifty-three significant bits. -/
theorem exists_magnitude_eq (x : Binary64) :
    ∃ significand scale, significand < Nat.pow 2 53 ∧
      x.magnitude = significand * Nat.pow 2 scale := by
  have fraction_lt : x.fraction < Nat.pow 2 52 := Nat.mod_lt _ (by decide)
  have twice : Nat.pow 2 53 = 2 * Nat.pow 2 52 := rfl
  rw [magnitude]
  split
  · exact ⟨x.fraction, 0, by omega, (Nat.mul_one _).symm⟩
  · exact ⟨_, _, by omega, rfl⟩

theorem unit_pos : 0 < unit := by
  unfold unit
  generalize 1074 = exponent
  exact Nat.two_pow_pos exponent

/-! ### The nearest double -/

/-- How many bits of a quotient are cut off. -/
def bitsCut (num den : Nat) : Nat :=
  Nat.log2 (num / den) - 52

/-- What is left of a quotient, rounded. -/
def significand (num den : Nat) : Nat :=
  roundHalfEven num (den * Nat.pow 2 (bitsCut num den))

section Nearest

variable {negative : Bool} {num den : Nat}

theorem nearest_eq (negative : Bool) (num den : Nat) :
    nearest negative num den =
      if 2047 * Nat.pow 2 52 ≤ bitsCut num den * Nat.pow 2 52 + significand num den then
        infinity negative
      else ofFields negative (bitsCut num den * Nat.pow 2 52 + significand num den) :=
  rfl

theorem isFinite_infinity (negative : Bool) : (infinity negative).isFinite = false := by
  cases negative <;> decide

theorem negative_nearest (negative : Bool) (num den : Nat) :
    (nearest negative num den).negative = negative := by
  rw [nearest_eq]
  split
  · exact negative_ofFields (by decide)
  · next small =>
    refine negative_ofFields (Nat.lt_trans (Nat.lt_of_not_le small) (by decide))

/-- A quotient in which bits are cut off is large, and fifty-three of them are left. -/
theorem quotient_lt (num den : Nat) : num / den < Nat.pow 2 (53 + bitsCut num den) := by
  refine Nat.lt_of_lt_of_le Nat.lt_log2_self (Nat.pow_le_pow_right (by decide) ?_)
  rw [bitsCut]
  omega

theorem le_quotient (cut : bitsCut num den ≠ 0) :
    Nat.pow 2 (52 + bitsCut num den) ≤ num / den := by
  have large : 52 + bitsCut num den = Nat.log2 (num / den) := by
    rw [bitsCut] at cut ⊢
    omega
  rw [large]
  refine Nat.log2_self_le fun none_left => cut ?_
  rw [bitsCut, none_left]
  rfl

theorem significand_le (pos : 0 < den) : significand num den ≤ Nat.pow 2 53 := by
  refine roundHalfEven_le (Nat.mul_pos pos (Nat.two_pow_pos _)) ?_
  have whole := (Nat.div_lt_iff_lt_mul pos).mp (quotient_lt num den)
  have split : Nat.pow 2 (53 + bitsCut num den) = Nat.pow 2 53 * Nat.pow 2 (bitsCut num den) :=
    Nat.pow_add ..
  rw [split, Nat.mul_assoc, Nat.mul_comm (Nat.pow 2 (bitsCut num den))] at whole
  exact Nat.le_of_lt whole

theorem le_significand (cut : bitsCut num den ≠ 0) : Nat.pow 2 52 ≤ significand num den := by
  refine Nat.le_trans ?_ (div_le_roundHalfEven _ _)
  rw [← Nat.div_div_eq_div_mul]
  refine (Nat.le_div_iff_mul_le (Nat.two_pow_pos _)).mpr ?_
  exact Nat.pow_add 2 52 _ ▸ le_quotient cut

/-- A finite result is the significand, with as many zeros as bits were cut off. -/
theorem magnitude_nearest (pos : 0 < den) (finite : (nearest negative num den).isFinite) :
    (nearest negative num den).magnitude =
      significand num den * Nat.pow 2 (bitsCut num den) := by
  rw [nearest_eq] at finite ⊢
  split at finite
  · rw [isFinite_infinity] at finite
    cases finite
  · next small =>
    rw [if_neg small]
    refine magnitude_ofFields (Nat.lt_trans (Nat.lt_of_not_le small) (by decide))
      (significand_le pos) ?_
    exact (Nat.eq_zero_or_pos (bitsCut num den)).imp_right fun cut =>
      le_significand (Nat.ne_of_gt cut)

theorem significand_of_uncut (uncut : bitsCut num den = 0) :
    significand num den * Nat.pow 2 (bitsCut num den) = roundHalfEven num den := by
  rw [significand, uncut]
  exact (Nat.mul_one _).trans (congrArg (roundHalfEven num) (Nat.mul_one den))

/-- A double that is large has few bits, so that its last ones are zeros. -/
theorem pow_dvd_magnitude {x : Binary64} {cut : Nat} (large : Nat.pow 2 (52 + cut) ≤ x.magnitude) :
    Nat.pow 2 cut ∣ x.magnitude := by
  obtain ⟨significand, scale, few, eq⟩ := exists_magnitude_eq x
  rw [eq] at large ⊢
  refine Nat.dvd_mul_left_of_dvd (Nat.pow_dvd_pow 2 (Nat.le_of_not_lt fun less => ?_)) _
  -- With a smaller scale fifty-three bits do not make a large number.
  have bound : significand * Nat.pow 2 scale < Nat.pow 2 53 * Nat.pow 2 scale :=
    Nat.mul_lt_mul_of_pos_right few (Nat.two_pow_pos _)
  have split : Nat.pow 2 53 * Nat.pow 2 scale = Nat.pow 2 (53 + scale) := (Nat.pow_add ..).symm
  have grows : Nat.pow 2 (53 + scale) ≤ Nat.pow 2 (52 + cut) :=
    Nat.pow_le_pow_right (by decide) (by omega)
  omega

/-- Rounding does not lead below a double. -/
theorem magnitude_le_nearest {x : Binary64} (pos : 0 < den)
    (finite : (nearest negative num den).isFinite) (below : x.magnitude * den ≤ num) :
    x.magnitude ≤ (nearest negative num den).magnitude := by
  rw [magnitude_nearest pos finite]
  by_cases cut : bitsCut num den = 0
  · rw [significand_of_uncut cut]
    exact Nat.le_trans ((Nat.le_div_iff_mul_le pos).mpr below) (div_le_roundHalfEven num den)
  · rcases Nat.lt_or_ge x.magnitude (Nat.pow 2 (52 + bitsCut num den)) with less | large
    · -- The double is below the least number of so many bits, and the quotient is not.
      have split : Nat.pow 2 (52 + bitsCut num den) = Nat.pow 2 52 * Nat.pow 2 (bitsCut num den) :=
        Nat.pow_add ..
      rw [split] at less
      exact Nat.le_trans (Nat.le_of_lt less) (Nat.mul_le_mul_right _ (le_significand cut))
    · -- Both are multiples of the same power of two.
      obtain ⟨k, eq⟩ := pow_dvd_magnitude large
      rw [Nat.mul_comm] at eq
      rw [eq, Nat.mul_assoc, Nat.mul_comm (Nat.pow _ _)] at below
      rw [eq]
      refine Nat.mul_le_mul_right _ (Nat.le_trans ?_ (div_le_roundHalfEven _ _))
      exact (Nat.le_div_iff_mul_le (Nat.mul_pos pos (Nat.two_pow_pos _))).mpr below

/-- Neither does it lead above one. -/
theorem nearest_le_magnitude {x : Binary64} (pos : 0 < den)
    (finite : (nearest negative num den).isFinite) (above : num ≤ x.magnitude * den) :
    (nearest negative num den).magnitude ≤ x.magnitude := by
  rw [magnitude_nearest pos finite]
  by_cases cut : bitsCut num den = 0
  · rw [significand_of_uncut cut]
    exact roundHalfEven_le pos above
  · have quotient_le : num / den ≤ x.magnitude := Nat.div_le_of_le_mul (Nat.mul_comm _ den ▸ above)
    obtain ⟨k, eq⟩ := pow_dvd_magnitude (Nat.le_trans (le_quotient cut) quotient_le)
    rw [Nat.mul_comm] at eq
    rw [eq, Nat.mul_assoc, Nat.mul_comm (Nat.pow _ _)] at above
    rw [eq]
    exact Nat.mul_le_mul_right _ (roundHalfEven_le (Nat.mul_pos pos (Nat.two_pow_pos _)) above)

end Nearest

/-! ### Signs -/

section Signs

variable {x y : Binary64}

theorem grains_nonneg (positive : x.negative = false) : 0 ≤ x.grains := by
  rw [grains, positive]
  exact Int.natCast_nonneg _

theorem grains_nonpos (negative : x.negative = true) : x.grains ≤ 0 := by
  rw [grains, negative]
  exact Int.neg_nonpos_of_nonneg (Int.natCast_nonneg _)

theorem natAbs_grains (x : Binary64) : x.grains.natAbs = x.magnitude := by
  rw [grains]
  split
  · rw [Int.natAbs_neg, Int.natAbs_natCast]
  · exact Int.natAbs_natCast _

/-- The rounded number is at least a double that the exact one is at least. -/
theorem le_grains_nearest {sum : Int} (below : x.grains ≤ sum)
    (finite : (nearest (sum < 0) sum.natAbs 1).isFinite) :
    x.grains ≤ (nearest (sum < 0) sum.natAbs 1).grains := by
  have size := x.natAbs_grains
  have rounded := (nearest (sum < 0) sum.natAbs 1).natAbs_grains
  by_cases sign : sum < 0
  · -- Both are negative, so that the magnitudes are the other way round.
    have nonpos := grains_nonpos ((negative_nearest (sum < 0) sum.natAbs 1).trans (by simp [sign]))
    have up := nearest_le_magnitude (x := x) Nat.one_pos finite (by omega)
    omega
  · have nonneg :=
      grains_nonneg ((negative_nearest (sum < 0) sum.natAbs 1).trans (by simp [sign]))
    rcases Int.lt_or_le 0 x.grains with positive | nonpos
    · have down := magnitude_le_nearest (x := x) Nat.one_pos finite (by omega)
      omega
    · exact Int.le_trans nonpos nonneg

/-- It is at most a double that the exact one is at most. -/
theorem grains_nearest_le {sum : Int} (above : sum ≤ x.grains)
    (finite : (nearest (sum < 0) sum.natAbs 1).isFinite) :
    (nearest (sum < 0) sum.natAbs 1).grains ≤ x.grains := by
  have size := x.natAbs_grains
  have rounded := (nearest (sum < 0) sum.natAbs 1).natAbs_grains
  by_cases sign : sum < 0
  · have nonpos := grains_nonpos ((negative_nearest (sum < 0) sum.natAbs 1).trans (by simp [sign]))
    rcases Int.lt_or_le x.grains 0 with negative | nonneg
    · have down := magnitude_le_nearest (x := x) Nat.one_pos finite (by omega)
      omega
    · exact Int.le_trans nonpos nonneg
  · have nonneg :=
      grains_nonneg ((negative_nearest (sum < 0) sum.natAbs 1).trans (by simp [sign]))
    have up := nearest_le_magnitude (x := x) Nat.one_pos finite (by omega)
    omega

end Signs

/-! ### Operations -/

section Operations

variable {x y : Binary64}

theorem isFinite_nan : nan.isFinite = false := by
  decide

theorem isFinite_of_isInfinite (infinite : x.isInfinite) : x.isFinite = false := by
  rw [isInfinite, Bool.and_eq_true, beq_iff_eq] at infinite
  rw [isFinite, infinite.1]
  rfl

theorem isFinite_of_number (number : x.isNaN = false) (bounded : x.isInfinite = false) :
    x.isFinite := by
  simp only [isNaN, isInfinite, isFinite] at *
  cases full : x.exponent == 2047 <;> cases none_left : x.fraction == 0 <;> simp_all

theorem grains_zero (negative : Bool) : (zero negative).grains = 0 := by
  cases negative <;> decide

/-- A sum is finite if both summands are and rounding does not exceed all finite numbers. -/
theorem add_of_isFinite (finite : (x.add y).isFinite) :
    y.isFinite ∧ x.add y = if x.grains + y.grains = 0 then zero (x.negative && y.negative)
      else nearest (x.grains + y.grains < 0) (x.grains + y.grains).natAbs 1 := by
  rw [add] at finite ⊢
  split at finite
  · cases isFinite_nan.symm.trans finite
  · next numbers =>
    rw [if_neg numbers]
    rw [Bool.or_eq_true, not_or, Bool.not_eq_true, Bool.not_eq_true] at numbers
    split at finite
    · next infinite =>
      split at finite
      · cases isFinite_nan.symm.trans finite
      · cases (isFinite_of_isInfinite infinite).symm.trans finite
    · next bounded =>
      rw [if_neg bounded]
      split at finite
      · next infinite => cases (isFinite_of_isInfinite infinite).symm.trans finite
      · next bounded' =>
        rw [if_neg bounded']
        exact ⟨isFinite_of_number numbers.2 (Bool.not_eq_true _ ▸ bounded'), rfl⟩

/-- Adding a number that is not negative does not lead below the other summand. -/
theorem le_grains_add (nonneg : 0 ≤ y.grains) (finite : (x.add y).isFinite) :
    x.grains ≤ (x.add y).grains := by
  have sum := (add_of_isFinite finite).2
  rw [sum] at finite ⊢
  split at finite
  · next vanishes => rw [if_pos vanishes, grains_zero]; omega
  · next rest => rw [if_neg rest]; exact le_grains_nearest (by omega) finite

/-- Adding a number that is not positive does not lead above it. -/
theorem grains_add_le (nonpos : y.grains ≤ 0) (finite : (x.add y).isFinite) :
    (x.add y).grains ≤ x.grains := by
  have sum := (add_of_isFinite finite).2
  rw [sum] at finite ⊢
  split at finite
  · next vanishes => rw [if_pos vanishes, grains_zero]; omega
  · next rest => rw [if_neg rest]; exact grains_nearest_le (by omega) finite

/-- A finite product has the sign that the signs of the factors give. -/
theorem negative_mul (finite : (x.mul y).isFinite) :
    (x.mul y).negative = (x.negative != y.negative) := by
  simp only [mul] at finite ⊢
  split at finite
  · cases isFinite_nan.symm.trans finite
  · next numbers =>
    rw [if_neg numbers]
    split at finite
    · split at finite
      · cases isFinite_nan.symm.trans finite
      · cases (isFinite_infinity _).symm.trans finite
    · next bounded => rw [if_neg bounded, negative_nearest]

theorem negative_abs (x : Binary64) : x.abs.negative = false := by
  refine negative_ofFields ?_
  have exponent_lt : x.exponent < Nat.pow 2 11 := Nat.mod_lt _ (by decide)
  have fraction_lt : x.fraction < Nat.pow 2 52 := Nat.mod_lt _ (by decide)
  simp only [pow_two_63, pow_two_52, pow_two_11] at *
  omega

theorem negative_floorNonnegative (positive : x.negative = false) :
    x.floorNonnegative.negative = false := by
  rw [floorNonnegative]
  split
  · exact negative_nearest ..
  · exact positive

end Operations

end Binary64

end Vectorial
