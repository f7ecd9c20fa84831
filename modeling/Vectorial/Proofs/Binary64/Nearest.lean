import Mathlib.Algebra.Order.Field.Basic
import Mathlib.Algebra.Order.Field.Rat
import Mathlib.Tactic.FieldSimp
import Vectorial.Proofs.Binary64.Equality

/-!
# The operations round to the nearest double

The exact result of an operation on finite doubles is a rational number. The double that is
computed is as close to it as any, and where another one is as close, the last bit of the
computed one is zero. The two infinities take part as the next power of two after the largest
finite double, so that a result too large to be rounded to a finite double is closest to one
of them.

## Main definitions

* `Binary64.value`: the value of a double as a rational number;
* `Binary64.IsNearest`: a double is the nearest one to a rational number.

## Main results

* `Binary64.gap_nearest`: a quotient of grains is rounded to the nearest magnitude;
* `Binary64.isNearest_add`, `Binary64.isNearest_sub`, `Binary64.isNearest_mul`,
  `Binary64.isNearest_div`: the four operations on finite doubles.
-/

namespace Vectorial

/-! ### Quotients -/

/-- How far a whole number is from a quotient, counted in parts of the denominator. -/
def gap (num den n : Nat) : Nat :=
  ((n * den : Nat) - (num : Int)).natAbs

theorem gap_mul (num den scale n : Nat) : gap num den (n * scale) = gap num (den * scale) n := by
  rw [gap, gap, Nat.mul_assoc, Nat.mul_comm scale]

section Quotient

variable {num den : Nat}

theorem gap_floor (num den : Nat) : gap num den (num / den) = num % den := by
  have parts := Nat.div_add_mod' num den
  rw [gap]
  omega

theorem gap_succ_floor (num : Nat) (pos : 0 < den) :
    gap num den (num / den + 1) = den - num % den := by
  have parts := Nat.div_add_mod' num den
  have rest := Nat.mod_lt num pos
  rw [gap, Nat.add_mul, Nat.one_mul]
  omega

/-- Every number but the two neighbours of a quotient is further away than they are. -/
theorem le_gap {n : Nat} (pos : 0 < den) (other : n ≠ num / den) (other' : n ≠ num / den + 1) :
    den ≤ gap num den n := by
  have parts := Nat.div_add_mod' num den
  have rest := Nat.mod_lt num pos
  rw [gap]
  rcases Nat.lt_or_gt_of_ne other with less | more
  · have below : (n + 1) * den ≤ num / den * den := Nat.mul_le_mul_right den less
    rw [Nat.add_mul, Nat.one_mul] at below
    omega
  · have above : (num / den + 1 + 1) * den ≤ n * den := Nat.mul_le_mul_right den (by omega)
    rw [Nat.add_mul, Nat.add_mul, Nat.one_mul] at above
    omega

/-- No whole number is closer to a quotient than the one to which it is rounded, and this one
is even if another one is as close. -/
theorem gap_roundHalfEven (num : Nat) (pos : 0 < den) (n : Nat) :
    gap num den (roundHalfEven num den) ≤ gap num den n ∧
      (gap num den n = gap num den (roundHalfEven num den) → n ≠ roundHalfEven num den →
        roundHalfEven num den % 2 = 0) := by
  have floor := gap_floor num den
  have ceil := gap_succ_floor num pos
  have rest := Nat.mod_lt num pos
  -- A number that is neither neighbour of the quotient is at least a whole step away.
  have cases_n : n = num / den ∨ n = num / den + 1 ∨ den ≤ gap num den n := by
    by_cases lower : n = num / den
    · exact .inl lower
    by_cases upper : n = num / den + 1
    · exact .inr (.inl upper)
    · exact .inr (.inr (le_gap pos lower upper))
  simp only [roundHalfEven]
  split
  · rcases cases_n with rfl | rfl | far <;> omega
  split
  · rcases cases_n with rfl | rfl | far <;> omega
  · -- An exact half: the even one of the two neighbours is chosen.
    rcases Nat.mod_two_eq_zero_or_one (num / den) with even | odd
    · rw [even, Nat.add_zero]
      rcases cases_n with rfl | rfl | far <;> omega
    · rw [odd]
      rcases cases_n with rfl | rfl | far <;> omega

end Quotient

namespace Binary64

/-! ### Magnitudes -/

section Nearest

variable {negative : Bool} {num den : Nat}

/-- The significand with the zeros for the bits that were cut off is the nearest magnitude, if
the range of the exponent is disregarded. -/
theorem gap_significand (pos : 0 < den) (w : Binary64) :
    let rounded := significand num den * Nat.pow 2 (bitsCut num den)
    gap num den rounded ≤ gap num den w.magnitude ∧
      (gap num den w.magnitude = gap num den rounded → w.magnitude ≠ rounded →
        significand num den % 2 = 0) := by
  intro rounded
  have scaled : 0 < den * Nat.pow 2 (bitsCut num den) := Nat.mul_pos pos (Nat.two_pow_pos _)
  have rounded_eq : rounded =
      roundHalfEven num (den * Nat.pow 2 (bitsCut num den)) * Nat.pow 2 (bitsCut num den) := rfl
  rw [significand, rounded_eq, gap_mul]
  by_cases multiple : Nat.pow 2 (bitsCut num den) ∣ w.magnitude
  · obtain ⟨k, eq⟩ := multiple
    rw [eq, Nat.mul_comm _ k, gap_mul]
    obtain ⟨least, even⟩ := gap_roundHalfEven num scaled k
    exact ⟨least, fun tie apart => even tie fun same => apart (congrArg (· * _) same)⟩
  · -- A number that is no multiple is smaller than the quotient with all later bits cut off.
    have cut : bitsCut num den ≠ 0 := fun uncut => multiple (uncut ▸ Nat.one_dvd _)
    have below : w.magnitude < Nat.pow 2 52 * Nat.pow 2 (bitsCut num den) := by
      rw [show Nat.pow 2 52 * Nat.pow 2 (bitsCut num den) = Nat.pow 2 (52 + bitsCut num den) from
        (Nat.pow_add ..).symm]
      exact Nat.lt_of_not_le fun large => multiple (pow_dvd_magnitude large)
    have closer : gap num den (Nat.pow 2 52 * Nat.pow 2 (bitsCut num den)) <
        gap num den w.magnitude := by
      have least : Nat.pow 2 52 * Nat.pow 2 (bitsCut num den) * den ≤ num := by
        refine (Nat.le_div_iff_mul_le pos).mp ?_
        exact Nat.pow_add 2 52 _ ▸ le_quotient cut
      have less := Nat.mul_lt_mul_of_pos_right below pos
      simp only [gap]
      omega
    have chosen := (gap_roundHalfEven num scaled (Nat.pow 2 52)).1
    rw [gap_mul] at closer
    have less := Nat.lt_of_le_of_lt chosen closer
    exact ⟨Nat.le_of_lt less, fun tie => absurd tie (Nat.ne_of_gt less)⟩

theorem exponent_infinity (negative : Bool) : (infinity negative).exponent = 2047 :=
  exponent_ofFields (by decide)

theorem fraction_infinity (negative : Bool) : (infinity negative).fraction = 0 :=
  fraction_ofFields (by decide)

/-- An infinity counts as the next power of two after the finite numbers. -/
theorem magnitude_infinity (negative : Bool) :
    (infinity negative).magnitude = Nat.pow 2 (52 + ((infinity negative).exponent - 1)) := by
  have full := exponent_infinity negative
  rw [magnitude, if_neg (by omega), fraction_infinity, Nat.add_zero]
  exact (Nat.pow_add ..).symm

/-- An infinity counts more than any other number. -/
theorem magnitude_le_infinity {w : Binary64} (number : w.isNaN = false) (negative : Bool) :
    w.magnitude ≤ (infinity negative).magnitude := by
  have top := exponent_infinity negative
  have field : w.exponent < 2048 := Nat.mod_lt _ (by decide)
  rcases Nat.lt_or_ge w.exponent (infinity negative).exponent with finite | full
  · exact Nat.le_of_lt (magnitude_lt finite)
  · have same : w.exponent = (infinity negative).exponent := by omega
    have none_left : w.fraction = 0 := by simpa [isNaN, same, top] using number
    rw [magnitude, magnitude, same, none_left, fraction_infinity]

theorem isNaN_nearest (negative : Bool) (num den : Nat) :
    (nearest negative num den).isNaN = false := by
  rw [nearest_eq]
  split
  · cases negative <;> decide
  · next small =>
    have inside : bitsCut num den * Nat.pow 2 52 + significand num den < Nat.pow 2 63 :=
      Nat.lt_trans (Nat.lt_of_not_le small) (by decide)
    have less : (bitsCut num den * Nat.pow 2 52 + significand num den) / Nat.pow 2 52 < 2047 :=
      (Nat.div_lt_iff_lt_mul (Nat.two_pow_pos 52)).mpr (Nat.lt_of_not_le small)
    rw [isNaN, exponent_ofFields inside, beq_eq_false_iff_ne.mpr (Nat.ne_of_lt less),
      Bool.false_and]

theorem fraction_nearest (finite : (nearest negative num den).isFinite) :
    (nearest negative num den).fraction % 2 = significand num den % 2 := by
  rw [nearest_eq] at finite ⊢
  split at finite
  · rw [isFinite_infinity] at finite
    cases finite
  · next small =>
    rw [if_neg small, fraction_ofFields (Nat.lt_trans (Nat.lt_of_not_le small) (by decide)),
      Nat.mod_mod_of_dvd _ (Nat.pow_dvd_pow 2 (by decide : 1 ≤ 52)), Nat.add_mod,
      Nat.mul_mod, show Nat.pow 2 52 % 2 ^ 1 = 0 from rfl, Nat.mul_zero]
    omega

/-- A result is infinite if the significand or the quotient itself exceeds the finite range. -/
theorem nearest_of_overflow (pos : 0 < den)
    (infinite : (nearest negative num den).isFinite = false) :
    nearest negative num den = infinity negative ∧
      (significand num den * Nat.pow 2 (bitsCut num den) = (infinity negative).magnitude ∨
        (infinity negative).magnitude ≤ num / den) := by
  have few : significand num den ≤ Nat.pow 2 53 := significand_le pos
  have top := exponent_infinity negative
  have pow_52 : Nat.pow 2 52 = 4503599627370496 := rfl
  have pow_53 : Nat.pow 2 53 = 9007199254740992 := rfl
  rw [nearest_eq] at infinite ⊢
  split at infinite
  · next large =>
    rw [if_pos large]
    refine ⟨rfl, ?_⟩
    rw [magnitude_infinity]
    -- Either rounding carried just out of the range, or the quotient was beyond it to begin with.
    rcases Nat.lt_or_ge (bitsCut num den) ((infinity negative).exponent - 1) with less | more
    · have cut : (infinity negative).exponent - 1 = bitsCut num den + 1 := by
        rw [pow_52] at large
        omega
      have full : significand num den = Nat.pow 2 53 := by
        rw [pow_52] at large
        omega
      rw [full, cut, Nat.add_comm _ 1, ← Nat.add_assoc]
      exact .inl (Nat.pow_add ..).symm
    · refine .inr (Nat.le_trans ?_ (le_quotient (by omega)))
      exact Nat.pow_le_pow_right (by decide) (Nat.add_le_add_left more 52)
  · next small =>
    -- What is put together from small fields is finite, so that this case does not arise.
    have inside := Nat.lt_trans (Nat.lt_of_not_le small) (by decide : _ < Nat.pow 2 63)
    have less := (Nat.div_lt_iff_lt_mul (Nat.two_pow_pos 52)).mpr (Nat.lt_of_not_le small)
    rw [isFinite, exponent_ofFields inside, bne_eq_false_iff_eq] at infinite
    exact absurd infinite (Nat.ne_of_lt less)

/-- A quotient of grains is rounded to the nearest magnitude, and to one with an even fraction
if another one is as close. -/
theorem gap_nearest (negative : Bool) (num : Nat) (pos : 0 < den) {w : Binary64}
    (number : w.isNaN = false) :
    gap num den (nearest negative num den).magnitude ≤ gap num den w.magnitude ∧
      (gap num den w.magnitude = gap num den (nearest negative num den).magnitude →
        w.magnitude ≠ (nearest negative num den).magnitude →
        (nearest negative num den).fraction % 2 = 0) := by
  cases finite : (nearest negative num den).isFinite with
  | true =>
    rw [fraction_nearest finite, magnitude_nearest pos finite]
    exact gap_significand pos w
  | false =>
    obtain ⟨eq, overflow⟩ := nearest_of_overflow pos finite
    rw [eq, fraction_infinity]
    refine ⟨?_, fun _ _ => rfl⟩
    rcases overflow with rounded | beyond
    · rw [← rounded]
      exact (gap_significand pos w).1
    · have most := magnitude_le_infinity number negative
      have least := (Nat.le_div_iff_mul_le pos).mp beyond
      have less := Nat.mul_le_mul_right den most
      simp only [gap]
      omega

end Nearest

/-! ### Values -/

section Value

variable {x y z w : Binary64} {negative : Bool} {num den : Nat} {q : Rat}

/-- The value of a double as a rational number. An infinity has the value of the next power of
two after the finite numbers. -/
def value (x : Binary64) : Rat :=
  x.grains / unit

/-- A double is the nearest one to a rational number: no number is closer, and if another one is
as close, its last bit is zero. -/
structure IsNearest (z : Binary64) (q : Rat) : Prop where
  isNumber : z.isNaN = false
  closest : ∀ w : Binary64, w.isNaN = false → |z.value - q| ≤ |w.value - q|
  even : ∀ w : Binary64, w.isNaN = false → |w.value - q| = |z.value - q| → w.value ≠ z.value →
    z.fraction % 2 = 0

/-- A magnitude with a sign. -/
def signed (negative : Bool) (magnitude : Nat) : Int :=
  if negative then -(magnitude : Int) else magnitude

theorem grains_mul (w : Binary64) (den : Nat) :
    w.grains * den = signed w.negative (w.magnitude * den) := by
  rw [grains, signed]
  split
  · rw [neg_mul, Nat.cast_mul]
  · rw [Nat.cast_mul]

theorem value_scale_pos (pos : 0 < den) : (0 : Rat) < den * unit :=
  mul_pos (Nat.cast_pos.mpr pos) (Nat.cast_pos.mpr unit_pos)

theorem abs_value_sub (pos : 0 < den) (w : Binary64) (n : Int) :
    |w.value - n / (den * unit)| = (w.grains * den - n).natAbs / (den * unit) := by
  have scaled : w.value - n / (den * unit) = (w.grains * den - n : Int) / (den * unit) := by
    have den_ne : (den : Rat) ≠ 0 := Nat.cast_ne_zero.mpr pos.ne'
    have unit_ne : (unit : Rat) ≠ 0 := Nat.cast_ne_zero.mpr unit_pos.ne'
    rw [value]
    push_cast
    field_simp
  rw [scaled, abs_div, abs_of_pos (value_scale_pos pos), Nat.cast_natAbs, Int.cast_abs]

/-- A number is at least as far from the exact one as the magnitudes are from each other. -/
theorem gap_le_natAbs (w : Binary64) (negative : Bool) (num den : Nat) :
    gap num den w.magnitude ≤ (w.grains * den - signed negative num).natAbs := by
  rw [grains_mul, gap, signed, signed]
  split <;> split <;> omega

/-- It is as far if it has the same sign. -/
theorem natAbs_eq_gap (num den : Nat) (same : w.negative = negative) :
    (w.grains * den - signed negative num).natAbs = gap num den w.magnitude := by
  rw [grains_mul, gap, same, signed, signed]
  split <;> omega

/-- With the other sign only zero is not further from the exact number than zero. -/
theorem magnitude_eq_zero (pos : 0 < den) (opposite : w.negative ≠ negative)
    (as_far : (w.grains * den - signed negative num).natAbs ≤ num) : w.magnitude = 0 := by
  have product : w.magnitude * den = 0 := by
    rw [grains_mul, Bool.eq_not_of_ne opposite.symm, signed, signed] at as_far
    cases sign : w.negative <;> rw [sign] at as_far <;> simp only [Bool.not_true, Bool.not_false,
      Bool.false_eq_true, if_true, if_false] at as_far <;> omega
  exact (Nat.mul_eq_zero.mp product).resolve_right pos.ne'

theorem gap_zero (num den : Nat) : gap num den 0 = num := by
  rw [gap]
  omega

theorem magnitude_zero (negative : Bool) : (zero negative).magnitude = 0 := by
  cases negative <;> decide

theorem isNaN_zero (negative : Bool) : (zero negative).isNaN = false := by
  cases negative <;> decide

/-- The double computed from a quotient of grains is the nearest one to the quotient. -/
theorem isNearest_nearest (pos : 0 < den) (negative : Bool) (num : Nat) :
    (nearest negative num den).IsNearest (signed negative num / (den * unit)) := by
  have here := natAbs_eq_gap num den (negative_nearest negative num den)
  have scale := value_scale_pos pos
  -- Both distances have one denominator; the numerators are compared as gaps of grains.
  refine ⟨isNaN_nearest .., fun w number => ?_, fun w number tie apart => ?_⟩
  · rw [abs_value_sub pos, abs_value_sub pos, div_le_div_iff_of_pos_right scale, Nat.cast_le, here]
    exact Nat.le_trans (gap_nearest negative num pos number).1 (gap_le_natAbs w negative num den)
  · rw [abs_value_sub pos, abs_value_sub pos, div_left_inj' scale.ne', Nat.cast_inj, here] at tie
    obtain ⟨least, even⟩ := gap_nearest negative num pos number
    have further := gap_le_natAbs w negative num den
    refine even (by omega) fun same => apart ?_
    rw [value, value, grains, grains, negative_nearest]
    by_cases signs : w.negative = negative
    · rw [signs, same]
    · -- Of two numbers of one magnitude that are as close, both are zero if the signs differ.
      have origin := (gap_nearest negative num pos (isNaN_zero negative)).1
      rw [magnitude_zero, gap_zero] at origin
      have none_left := magnitude_eq_zero pos signs (tie.trans_le origin)
      simp only [← same, none_left, Nat.cast_zero, neg_zero, ite_self]

/-! ### Operations -/

theorem value_zero (negative : Bool) : (zero negative).value = 0 := by
  rw [value, grains_zero, Int.cast_zero, zero_div]

theorem isNearest_zero (negative : Bool) : (zero negative).IsNearest 0 where
  isNumber := isNaN_zero negative
  closest w _ := by
    rw [value_zero, sub_zero, abs_zero]
    exact abs_nonneg _
  even w _ tie apart := by
    rw [value_zero, sub_zero, sub_zero, abs_zero, abs_eq_zero] at tie
    exact absurd (tie.trans (value_zero negative).symm) apart

/-- The operations treat finite numbers by no special rule. -/
theorem ordinary_of_isFinite (finite : x.isFinite) : x.isNaN = false ∧ x.isInfinite = false := by
  rw [isFinite, bne_iff_ne] at finite
  rw [isNaN, isInfinite, beq_eq_false_iff_ne.mpr finite, Bool.false_and, Bool.false_and]
  exact ⟨rfl, rfl⟩

theorem signed_natAbs (n : Int) : signed (decide (n < 0)) n.natAbs = n := by
  simp only [signed, decide_eq_true_eq]
  split <;> omega

theorem isNearest_add (finite : x.isFinite) (finite' : y.isFinite) :
    (x.add y).IsNearest (x.value + y.value) := by
  have sum : x.value + y.value = (x.grains + y.grains : Int) / unit := by
    rw [value, value, Int.cast_add, add_div]
  simp only [add, ordinary_of_isFinite finite, ordinary_of_isFinite finite', Bool.or_self,
    Bool.false_eq_true, if_false, sum]
  split
  · next vanishes =>
    rw [vanishes, Int.cast_zero, zero_div]
    exact isNearest_zero _
  · have rounded := isNearest_nearest Nat.one_pos (decide (x.grains + y.grains < 0))
      (x.grains + y.grains).natAbs
    rwa [signed_natAbs, Nat.cast_one, one_mul] at rounded

theorem fields_neg (x : Binary64) : x.neg.negative = !x.negative ∧ x.neg.exponent = x.exponent ∧
    x.neg.fraction = x.fraction := by
  have exponent_lt : x.exponent < Nat.pow 2 11 := Nat.mod_lt _ (by decide)
  have fraction_lt := x.fraction_lt
  have inside : x.exponent * Nat.pow 2 52 + x.fraction < Nat.pow 2 63 :=
    calc
      x.exponent * Nat.pow 2 52 + x.fraction
      _ < (x.exponent + 1) * Nat.pow 2 52 := by rw [Nat.add_mul]; omega
      _ ≤ Nat.pow 2 11 * Nat.pow 2 52 := Nat.mul_le_mul_right _ exponent_lt
  refine ⟨negative_ofFields inside, (exponent_ofFields inside).trans ?_,
    (fraction_ofFields inside).trans ?_⟩
  · rw [Nat.add_comm, Nat.add_mul_div_right _ _ (Nat.two_pow_pos 52), Nat.div_eq_of_lt fraction_lt,
      Nat.zero_add]
  · rw [Nat.add_comm, Nat.add_mul_mod_self_right, Nat.mod_eq_of_lt fraction_lt]

theorem value_neg (x : Binary64) : x.neg.value = -x.value := by
  obtain ⟨sign, exponents, fractions⟩ := x.fields_neg
  have magnitudes : x.neg.magnitude = x.magnitude := by
    rw [magnitude, magnitude, exponents, fractions]
  rw [value, value, grains, grains, sign, magnitudes, ← neg_div, ← Int.cast_neg]
  cases x.negative <;> simp only [Bool.not_true, Bool.not_false, Bool.false_eq_true, if_true,
    if_false, neg_neg]

theorem isFinite_neg (x : Binary64) : x.neg.isFinite = x.isFinite := by
  rw [isFinite, isFinite, x.fields_neg.2.1]

theorem isNearest_sub (finite : x.isFinite) (finite' : y.isFinite) :
    (x.sub y).IsNearest (x.value - y.value) := by
  rw [sub_eq_add_neg, ← value_neg]
  exact isNearest_add finite (y.isFinite_neg.trans finite')

theorem signed_bne (a b : Bool) (m n : Nat) :
    signed (a != b) (m * n) = signed a m * signed b n := by
  cases a <;> cases b <;> simp [signed]

theorem isNearest_mul (finite : x.isFinite) (finite' : y.isFinite) :
    (x.mul y).IsNearest (x.value * y.value) := by
  have rounded := isNearest_nearest unit_pos (x.negative != y.negative) (x.magnitude * y.magnitude)
  have product : x.value * y.value =
      signed (x.negative != y.negative) (x.magnitude * y.magnitude) / (unit * unit) := by
    rw [signed_bne, Int.cast_mul, ← div_mul_div_comm]
    rfl
  simpa only [mul, ordinary_of_isFinite finite, ordinary_of_isFinite finite', Bool.or_self,
    Bool.false_eq_true, if_false, product] using rounded

theorem isNearest_div (finite : x.isFinite) (finite' : y.isFinite) (nonzero : y.isZero = false) :
    (x.div y).IsNearest (x.value / y.value) := by
  have pos : 0 < y.magnitude := Nat.pos_of_ne_zero (beq_eq_false_iff_ne.mp nonzero)
  have rounded := isNearest_nearest pos (x.negative != y.negative) (x.magnitude * unit)
  have quotient : x.value / y.value =
      signed (x.negative != y.negative) (x.magnitude * unit) / (y.magnitude * unit) := by
    have unit_ne : (unit : Rat) ≠ 0 := Nat.cast_ne_zero.mpr unit_pos.ne'
    rw [value, value, grains, grains, signed, div_div_div_cancel_right₀ unit_ne]
    cases x.negative <;> cases y.negative <;>
      simp only [Bool.false_eq_true, bne_self_eq_false, Bool.true_bne, Bool.false_bne,
        Bool.not_false, if_true, if_false, Int.cast_neg, Int.cast_natCast, Int.cast_mul,
        Nat.cast_mul, neg_div, div_neg, neg_neg, mul_div_mul_right _ _ unit_ne]
  simpa only [div, ordinary_of_isFinite finite, ordinary_of_isFinite finite', nonzero,
    Bool.or_self, Bool.false_eq_true, if_false, quotient] using rounded

end Value

end Binary64

end Vectorial
