import Mathlib.Tactic.Linarith
import Vectorial.Decimal.Shortest
import Vectorial.Proofs.Binary64.Exact

/-!
# The numbers that are rounded to a double

Without their signs the doubles that are numbers come one after the other, from zero to infinity,
in the order of their bits. Each is followed by one that is a power of two further away, and half
way between them the last bit of one of the two is zero. So a number is rounded to a double if it
lies in the interval of the double, an end of which belongs to it if its last bit is zero.

## Main definitions

* `Binary64.rank`: the position of a double among those of its sign;
* `Binary64.Neighbourhood.Contains`: a number lies in the interval of a double.

## Main results

* `Binary64.magnitude_of_rank_succ`: how far the next double is away;
* `Binary64.nearest_of_contains`: what lies in the interval of a double is rounded to it;
* `Binary64.abs_magnitude_nearest_le`: rounding changes a number by at most half a step;
* `Binary64.isFinite_nearest_of_le`, `Binary64.nearest_of_infinity_le`: what is rounded to an
  infinity.
-/

namespace Vectorial

/-- Rounding a quotient changes it by at most one half. -/
theorem two_mul_gap_roundHalfEven (num : Nat) {den : Nat} (pos : 0 < den) :
    2 * gap num den (roundHalfEven num den) ≤ den := by
  have floor := (gap_roundHalfEven num pos (num / den)).1
  have ceil := (gap_roundHalfEven num pos (num / den + 1)).1
  have rest := Nat.mod_lt num pos
  rw [gap_floor] at floor
  rw [gap_succ_floor num pos] at ceil
  omega

namespace Binary64

variable {x y z : Binary64} {negative : Bool} {num den : Nat}

/-! ### The order of the magnitudes -/

/-- The position of a double among those of its sign, which are ordered by their bits. -/
def rank (x : Binary64) : Nat :=
  x.exponent * Nat.pow 2 52 + x.fraction

/-- How far the next larger double is away, in grains. -/
def spacing (x : Binary64) : Nat :=
  Nat.pow 2 (x.exponent - 1)

theorem spacing_pos (x : Binary64) : 0 < x.spacing :=
  Nat.two_pow_pos _

theorem rank_lt (x : Binary64) : x.rank < Nat.pow 2 63 := by
  have field : x.exponent < 2048 := Nat.mod_lt _ (by decide)
  have below : x.fraction < 4503599627370496 := x.fraction_lt
  rw [rank, show Nat.pow 2 52 = 4503599627370496 from rfl]
  exact Nat.lt_of_lt_of_le (by omega : _ < 2048 * 4503599627370496) (by decide)

theorem exponent_eq_rank (x : Binary64) : x.exponent = x.rank / Nat.pow 2 52 := by
  rw [rank, Nat.add_comm, Nat.add_mul_div_right _ _ (by decide), Nat.div_eq_of_lt x.fraction_lt,
    Nat.zero_add]

theorem fraction_eq_rank (x : Binary64) : x.fraction = x.rank % Nat.pow 2 52 := by
  rw [rank, Nat.add_comm, Nat.add_mul_mod_self_right, Nat.mod_eq_of_lt x.fraction_lt]

/-- The last bit of the position is that of the fraction. -/
theorem fraction_mod_two (x : Binary64) : x.fraction % 2 = x.rank % 2 := by
  rw [fraction_eq_rank, Nat.mod_mod_of_dvd _ (Nat.pow_dvd_pow 2 (by decide : 1 ≤ 52))]

theorem rank_ofFields {low : Nat} (small : low < Nat.pow 2 63) :
    (ofFields negative low).rank = low := by
  rw [rank, exponent_ofFields small, fraction_ofFields small]
  exact Nat.div_add_mod' low _

theorem magnitude_lt_of_rank_lt (less : x.rank < y.rank) : x.magnitude < y.magnitude := by
  rcases Nat.lt_trichotomy x.exponent y.exponent with below | same | above
  · exact magnitude_lt below
  · have fractions : x.fraction < y.fraction := by
      rw [rank, rank, same] at less
      omega
    rw [magnitude, magnitude, same]
    split
    · exact fractions
    · exact Nat.mul_lt_mul_of_pos_right (Nat.add_lt_add_left fractions _) (Nat.two_pow_pos _)
  · have field : (y.exponent + 1) * Nat.pow 2 52 ≤ x.exponent * Nat.pow 2 52 :=
      Nat.mul_le_mul_right _ above
    have fraction := y.fraction_lt
    rw [Nat.add_mul, Nat.one_mul] at field
    rw [rank, rank] at less
    omega

theorem rank_lt_iff : x.rank < y.rank ↔ x.magnitude < y.magnitude := by
  refine ⟨magnitude_lt_of_rank_lt, fun less => ?_⟩
  rcases Nat.lt_trichotomy x.rank y.rank with below | same | above
  · exact below
  · have exponents : x.exponent = y.exponent := by
      rw [exponent_eq_rank, exponent_eq_rank y, same]
    have fractions : x.fraction = y.fraction := by
      rw [fraction_eq_rank, fraction_eq_rank y, same]
    rw [magnitude, magnitude, exponents, fractions] at less
    exact absurd less (Nat.lt_irrefl _)
  · exact absurd (magnitude_lt_of_rank_lt above) (Nat.lt_asymm less)

theorem rank_le_iff : x.rank ≤ y.rank ↔ x.magnitude ≤ y.magnitude := by
  rw [← Nat.not_lt, ← Nat.not_lt, rank_lt_iff]

/-- The next larger double is one step away. -/
theorem magnitude_of_rank_succ (next : y.rank = x.rank + 1) :
    y.magnitude = x.magnitude + x.spacing := by
  have pow_52 : Nat.pow 2 52 = 4503599627370496 := rfl
  have fraction := x.fraction_lt
  -- The fraction counts further, and carries into the exponent where it is full.
  have magnitudes (cut significand : Nat) (low : x.rank = cut * Nat.pow 2 52 + significand)
      (most : significand < Nat.pow 2 53) (least : cut = 0 ∨ Nat.pow 2 52 ≤ significand) :
      x.magnitude = significand * Nat.pow 2 cut ∧
        y.magnitude = (significand + 1) * Nat.pow 2 cut := by
    have same (w : Binary64) : w.magnitude = (ofFields false w.rank).magnitude :=
      Nat.le_antisymm (rank_le_iff.mp (rank_ofFields w.rank_lt).ge)
        (rank_le_iff.mp (rank_ofFields w.rank_lt).le)
    have here := x.rank_lt
    have there := y.rank_lt
    rw [next, low, Nat.add_assoc] at there
    rw [low] at here
    rw [same x, same y, next, low, Nat.add_assoc]
    exact ⟨magnitude_ofFields here most.le least,
      magnitude_ofFields there most (least.imp_right (Nat.le_succ_of_le ·))⟩
  by_cases subnormal : x.exponent = 0
  · obtain ⟨here, there⟩ := magnitudes 0 x.fraction (by rw [rank, subnormal]) (by
      rw [pow_52] at fraction
      exact Nat.lt_trans fraction (by decide)) (.inl rfl)
    rw [here, there, spacing, subnormal, Nat.add_mul, Nat.one_mul]
  · obtain ⟨cut, exponent⟩ := Nat.exists_eq_succ_of_ne_zero subnormal
    have low : x.rank = cut * Nat.pow 2 52 + (Nat.pow 2 52 + x.fraction) := by
      rw [rank, exponent, Nat.succ_mul, Nat.add_assoc]
    obtain ⟨here, there⟩ := magnitudes cut (Nat.pow 2 52 + x.fraction) low (by
      rw [pow_52] at fraction ⊢
      exact Nat.lt_of_lt_of_le (Nat.add_lt_add_left fraction _) (by decide))
      (.inr (Nat.le_add_right _ _))
    rw [here, there, spacing, exponent, Nat.succ_sub_one, Nat.add_mul _ 1, Nat.one_mul]

/-- Between a double and the next larger one there is none, and one of the two is even. -/
theorem add_spacing_le (less : x.magnitude < z.magnitude) :
    x.magnitude + x.spacing ≤ z.magnitude ∧
      (z.magnitude = x.magnitude + x.spacing → x.fraction % 2 ≠ z.fraction % 2) := by
  have ranks := rank_lt_iff.mpr less
  have small : x.rank + 1 < Nat.pow 2 63 := Nat.lt_of_le_of_lt ranks z.rank_lt
  have succ : (ofFields false (x.rank + 1)).rank = x.rank + 1 := rank_ofFields small
  have next := magnitude_of_rank_succ succ
  rw [← next]
  refine ⟨rank_le_iff.mp ((rank_ofFields small).trans_le ranks), fun same => ?_⟩
  have rank_eq : z.rank = x.rank + 1 :=
    (Nat.le_antisymm (rank_le_iff.mpr same.le) (rank_le_iff.mpr same.ge)).trans succ
  rw [fraction_mod_two, fraction_mod_two, rank_eq]
  omega

/-! ### The interval of a double -/

/-- How far the lower end of the interval is below the double, in quarters of a grain. -/
def reach (x : Binary64) : Nat :=
  if x.fraction = 0 ∧ 1 < x.exponent then x.spacing else 2 * x.spacing

/-- The next smaller double is as far away as the lower end of the interval says. -/
theorem le_sub_reach (less : z.magnitude < x.magnitude) :
    2 * z.magnitude + x.reach ≤ 2 * x.magnitude ∧
      (2 * x.magnitude = 2 * z.magnitude + x.reach → x.fraction % 2 ≠ z.fraction % 2) := by
  have ranks := rank_lt_iff.mpr less
  have pow_52 : Nat.pow 2 52 = 4503599627370496 := rfl
  have fraction := x.fraction_lt
  obtain ⟨before, pred⟩ : ∃ before, x.rank = before + 1 :=
    Nat.exists_eq_succ_of_ne_zero (Nat.ne_zero_of_lt ranks)
  have small : before < Nat.pow 2 63 := by
    have bound := x.rank_lt
    omega
  obtain ⟨y, rank_y⟩ : ∃ y : Binary64, y.rank = before :=
    ⟨ofFields false before, rank_ofFields small⟩
  have next := magnitude_of_rank_succ (x := y) (y := x) (by rw [rank_y, pred])
  have exponent_y : y.exponent = (x.rank - 1) / Nat.pow 2 52 := by
    rw [exponent_eq_rank, rank_y, pred, Nat.add_sub_cancel]
  have reach_eq : x.reach = 2 * y.spacing := by
    -- Before a power of two the exponent is smaller by one, unless both doubles are subnormal.
    rw [reach, spacing, spacing, exponent_y, rank]
    rw [rank] at pred
    split
    · next carried =>
      obtain ⟨none_left, large⟩ := carried
      obtain ⟨cut, exponent⟩ := Nat.exists_eq_add_of_lt large
      have borrowed : (x.exponent * Nat.pow 2 52 + x.fraction - 1) / Nat.pow 2 52 = cut + 1 := by
        rw [none_left, exponent, pow_52]
        omega
      rw [borrowed, exponent, Nat.add_comm 1 cut, Nat.add_sub_cancel, Nat.add_sub_cancel]
      exact Nat.pow_succ'
    · next inside =>
      have same : (x.exponent * Nat.pow 2 52 + x.fraction - 1) / Nat.pow 2 52 - 1 =
          x.exponent - 1 := by
        rw [pow_52] at pred fraction ⊢
        omega
      rw [same]
  have least := rank_le_iff.mp (show z.rank ≤ y.rank by omega)
  rw [reach_eq, next]
  refine ⟨by omega, fun same => ?_⟩
  have rank_eq : z.rank = y.rank :=
    Nat.le_antisymm (rank_le_iff.mpr least) (rank_le_iff.mpr (by omega))
  rw [fraction_mod_two, fraction_mod_two, rank_eq, rank_y, pred]
  omega

namespace Neighbourhood

/-- The number of grains lies in the interval. -/
def Contains (n : Neighbourhood) (q : Rat) : Prop :=
  if n.closed then n.lower ≤ 4 * q ∧ 4 * q ≤ n.upper else n.lower < 4 * q ∧ 4 * q < n.upper

variable {n : Neighbourhood} {point scale : Nat} {q : Rat}

theorem holds_iff (pos : 0 < scale) :
    n.holds point scale ↔ n.Contains (point / (4 * scale)) := by
  have scaled : 4 * ((point : Rat) / (4 * scale)) = point / scale := by
    have nonzero : (scale : Rat) ≠ 0 := Nat.cast_ne_zero.mpr pos.ne'
    field_simp
  have pos_cast : (0 : Rat) < scale := Nat.cast_pos.mpr pos
  rw [holds, Contains, scaled]
  split
  · rw [Bool.and_eq_true, decide_eq_true_eq, decide_eq_true_eq, le_div_iff₀ pos_cast,
      div_le_iff₀ pos_cast]
    norm_cast
  · rw [Bool.and_eq_true, decide_eq_true_eq, decide_eq_true_eq, lt_div_iff₀ pos_cast,
      div_lt_iff₀ pos_cast]
    norm_cast

/-- What lies strictly inside belongs to the interval. -/
theorem contains_of_lt (above : n.lower < 4 * q) (below : 4 * q < n.upper) : n.Contains q := by
  rw [Contains]
  split
  · exact ⟨above.le, below.le⟩
  · exact ⟨above, below⟩

theorem Contains.weaken (inside : n.Contains q) : n.lower ≤ 4 * q ∧ 4 * q ≤ n.upper := by
  rw [Contains] at inside
  split at inside
  · exact inside
  · exact ⟨inside.1.le, inside.2.le⟩

/-- The ends belong to it only if it is closed. -/
theorem Contains.closed (inside : n.Contains q) (atEnd : 4 * q ≤ n.lower ∨ n.upper ≤ 4 * q) :
    n.closed := by
  by_contra isOpen
  rw [Contains, if_neg isOpen] at inside
  rcases atEnd with lower | upper <;> linarith [inside.1, inside.2]

end Neighbourhood

theorem upper_neighbourhood (x : Binary64) :
    x.neighbourhood.upper = 4 * x.magnitude + 2 * x.spacing :=
  rfl

theorem lower_neighbourhood (x : Binary64) :
    x.neighbourhood.lower = 4 * x.magnitude - x.reach :=
  rfl

/-- The distance of a whole number of grains from a quotient. -/
theorem abs_sub_eq_gap (pos : 0 < den) (n : Nat) :
    |(n : Rat) - num / den| = gap num den n / den := by
  have pos_cast : (0 : Rat) < den := Nat.cast_pos.mpr pos
  have scaled : (n : Rat) - num / den = ((n * den : Nat) - (num : Int) : Int) / den := by
    push_cast
    field_simp
  rw [scaled, abs_div, abs_of_pos pos_cast, gap, Nat.cast_natAbs, Int.cast_abs]

/-- No magnitude is closer to a quotient than the one to which it is rounded. -/
theorem abs_magnitude_sub_le (negative : Bool) (num : Nat) (pos : 0 < den) {w : Binary64}
    (number : w.isNaN = false) :
    |((nearest negative num den).magnitude : Rat) - num / den| ≤
      |(w.magnitude : Rat) - num / den| := by
  rw [abs_sub_eq_gap pos, abs_sub_eq_gap pos]
  exact div_le_div_of_nonneg_right (Nat.cast_le.mpr (gap_nearest negative num pos number).1)
    (Nat.cast_nonneg den)

/-- The last bit of what a quotient is rounded to is zero, if another double is as close. -/
theorem even_fraction_nearest (pos : 0 < den) {w : Binary64} (number : w.isNaN = false)
    (tie : |(w.magnitude : Rat) - num / den| =
      |((nearest negative num den).magnitude : Rat) - num / den|)
    (apart : w.magnitude ≠ (nearest negative num den).magnitude) :
    (nearest negative num den).fraction % 2 = 0 := by
  rw [abs_sub_eq_gap pos, abs_sub_eq_gap pos,
    div_left_inj' (Nat.cast_ne_zero.mpr pos.ne'), Nat.cast_inj] at tie
  exact (gap_nearest negative num pos number).2 tie apart

section Closest

variable {q : Rat}

/-- What is at least as close to the smaller of two numbers is at most half way between them. -/
theorem two_mul_le_add {a b : Rat} (closer : |a - q| ≤ |b - q|) (less : a < b) :
    2 * q ≤ a + b := by
  rcases le_total b q with below | above
  · rw [abs_of_nonpos (by linarith), abs_of_nonpos (by linarith)] at closer
    linarith
  · rw [abs_of_nonneg (by linarith : 0 ≤ b - q)] at closer
    linarith [neg_le_abs (a - q)]

theorem add_le_two_mul {a b : Rat} (closer : |a - q| ≤ |b - q|) (more : b < a) :
    a + b ≤ 2 * q := by
  have mirrored := two_mul_le_add (a := -a) (b := -b) (q := -q)
    (by rwa [← neg_sub', ← neg_sub', abs_neg, abs_neg]) (neg_lt_neg more)
  linarith

theorem le_upper (inside : x.neighbourhood.Contains q) :
    4 * q ≤ 4 * x.magnitude + 2 * x.spacing := by
  have bound := inside.weaken.2
  rw [upper_neighbourhood] at bound
  exact_mod_cast bound

theorem lower_le (inside : x.neighbourhood.Contains q) :
    (4 * x.magnitude : Rat) ≤ 4 * q + x.reach := by
  have parts : (4 * x.magnitude : Rat) ≤ x.neighbourhood.lower + x.reach := by
    rw [lower_neighbourhood]
    exact_mod_cast (show 4 * x.magnitude ≤ 4 * x.magnitude - x.reach + x.reach by omega)
  linarith [inside.weaken.1]

/-- A double that is as close to a number in the interval of another one has the same magnitude,
if its last bit is zero where both are equally close. -/
theorem magnitude_eq_of_closest (inside : x.neighbourhood.Contains q)
    (least : |(z.magnitude : Rat) - q| ≤ |(x.magnitude : Rat) - q|)
    (even : |(x.magnitude : Rat) - q| = |(z.magnitude : Rat) - q| →
      x.magnitude ≠ z.magnitude → z.fraction % 2 = 0) :
    z.magnitude = x.magnitude := by
  by_contra apart
  have upper := le_upper inside
  have lower := lower_le inside
  -- The number is half way between the two, where the interval ends. If the end belongs to the
  -- interval the last bits of both are zero.
  have at_end (sum : (x.magnitude + z.magnitude : Rat) = 2 * q)
      (touches : 4 * q ≤ x.neighbourhood.lower ∨ x.neighbourhood.upper ≤ 4 * q) :
      x.fraction % 2 = z.fraction % 2 := by
    have mirrored : (x.magnitude : Rat) - q = -(z.magnitude - q) := by linarith
    rw [even (by rw [mirrored, abs_neg]) (Ne.symm apart)]
    exact beq_iff_eq.mp (inside.closed touches)
  rcases Nat.lt_or_gt_of_ne apart with less | more
  · obtain ⟨far, parity⟩ := le_sub_reach less
    have middle := two_mul_le_add least (Nat.cast_lt.mpr less)
    have far_cast : (2 * z.magnitude + x.reach : Rat) ≤ 2 * x.magnitude := by exact_mod_cast far
    have step : (2 * x.magnitude : Rat) = 2 * z.magnitude + x.reach := by linarith
    refine parity (by exact_mod_cast step) (at_end (by linarith) (.inl ?_))
    have parts : (4 * x.magnitude : Rat) = x.neighbourhood.lower + x.reach := by
      rw [lower_neighbourhood]
      exact_mod_cast (show 4 * x.magnitude = 4 * x.magnitude - x.reach + x.reach by omega)
    linarith
  · obtain ⟨far, parity⟩ := add_spacing_le more
    have middle := add_le_two_mul least (Nat.cast_lt.mpr more)
    have far_cast : (x.magnitude + x.spacing : Rat) ≤ z.magnitude := by exact_mod_cast far
    have step : (z.magnitude : Rat) = x.magnitude + x.spacing := by linarith
    refine parity (by exact_mod_cast step) (at_end (by linarith) (.inr ?_))
    rw [upper_neighbourhood]
    push_cast
    linarith

end Closest

/-- What lies in the interval of a double is rounded to it. -/
theorem nearest_of_contains (pos : 0 < den) (number : x.isNaN = false)
    (inside : x.neighbourhood.Contains (num / den)) :
    nearest x.negative num den = x := by
  have same := magnitude_eq_of_closest inside (abs_magnitude_sub_le x.negative num pos number)
    (even_fraction_nearest pos number)
  obtain ⟨exponents, fractions⟩ := eq_of_magnitude same
  exact eq_of_fields (negative_nearest ..) exponents fractions

/-! ### How far rounding leads -/

/-- No more bits are cut off than the spacing of the result makes up. -/
theorem pow_bitsCut_le (finite : (nearest negative num den).isFinite) :
    Nat.pow 2 (bitsCut num den) ≤ (nearest negative num den).spacing := by
  rw [spacing]
  refine Nat.pow_le_pow_right (by decide) ?_
  rw [nearest_eq] at finite ⊢
  split at finite
  · rw [isFinite_infinity] at finite
    cases finite
  · next small =>
    have inside := Nat.lt_trans (Nat.lt_of_not_le small) (by decide : _ < Nat.pow 2 63)
    rw [if_neg small, exponent_ofFields inside]
    by_cases uncut : bitsCut num den = 0
    · rw [uncut]
      exact Nat.zero_le _
    · -- The significand fills its leading bit, which adds one to the exponent field.
      have least := le_significand uncut
      refine Nat.le_sub_of_add_le ((Nat.le_div_iff_mul_le (Nat.two_pow_pos 52)).mpr ?_)
      rw [Nat.add_mul, Nat.one_mul]
      exact Nat.add_le_add_left least _

/-- Rounding changes a number by at most half the spacing. -/
theorem abs_magnitude_nearest_le (pos : 0 < den) (finite : (nearest negative num den).isFinite) :
    |((nearest negative num den).magnitude : Rat) - num / den| ≤
      (nearest negative num den).spacing / 2 := by
  have scaled : 0 < den * Nat.pow 2 (bitsCut num den) := Nat.mul_pos pos (Nat.two_pow_pos _)
  have half : 2 * gap num den (nearest negative num den).magnitude ≤
      den * (nearest negative num den).spacing := by
    rw [magnitude_nearest pos finite, gap_mul]
    exact Nat.le_trans (two_mul_gap_roundHalfEven num scaled)
      (Nat.mul_le_mul_left den (pow_bitsCut_le finite))
  have half_cast : (2 * gap num den (nearest negative num den).magnitude : Rat) ≤
      den * (nearest negative num den).spacing := by exact_mod_cast half
  rw [abs_sub_eq_gap pos, div_le_iff₀ (Nat.cast_pos.mpr pos)]
  linarith

/-! ### The end of the finite range -/

/-- What is at least as large as an infinity counts is rounded to it. -/
theorem nearest_of_infinity_le (pos : 0 < den)
    (beyond : (infinity negative).magnitude * den ≤ num) :
    nearest negative num den = infinity negative := by
  have number : (infinity negative).isNaN = false := by cases negative <;> decide
  have least := (gap_nearest negative num pos number).1
  have most := magnitude_le_infinity (isNaN_nearest negative num den) negative
  have most_scaled := Nat.mul_le_mul_right den most
  have same : (nearest negative num den).magnitude = (infinity negative).magnitude := by
    refine Nat.le_antisymm most (Nat.le_of_mul_le_mul_right ?_ pos)
    simp only [gap] at least
    omega
  obtain ⟨exponents, fractions⟩ := eq_of_magnitude same
  have sign : (infinity negative).negative = negative := by cases negative <;> decide
  exact eq_of_fields ((negative_nearest ..).trans sign.symm) exponents fractions

theorem magnitude_lt_infinity (finite : x.isFinite) (negative : Bool) :
    x.magnitude < (infinity negative).magnitude := by
  refine magnitude_lt ?_
  rw [exponent_infinity]
  have field : x.exponent < 2048 := Nat.mod_lt _ (by decide)
  have other : x.exponent ≠ 2047 := bne_iff_ne.mp finite
  omega

/-- What is at most a finite double is rounded to a finite double. -/
theorem isFinite_nearest_of_le (pos : 0 < den) (finite : x.isFinite)
    (below : num ≤ x.magnitude * den) : (nearest negative num den).isFinite := by
  have number : x.isNaN = false := (ordinary_of_isFinite finite).1
  refine isFinite_of_number (isNaN_nearest negative num den) (Bool.eq_false_iff.mpr fun full => ?_)
  have overflow := (nearest_of_overflow pos (isFinite_of_isInfinite full)).1
  -- An infinity would be further away.
  have least := (gap_nearest negative num pos number).1
  have less_scaled := Nat.mul_lt_mul_of_pos_right (magnitude_lt_infinity finite negative) pos
  rw [overflow] at least
  simp only [gap] at least
  omega

end Binary64

end Vectorial
