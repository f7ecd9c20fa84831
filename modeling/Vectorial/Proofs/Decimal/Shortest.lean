import Vectorial.Proofs.Decimal.Value

/-!
# The shortest decimal reads back

Each grid that is tried has a point in the interval of the double as soon as it is finer than the
interval is wide, and seventeen digits make a grid that is. So the search ends with a point in the
interval, which is read as the double.

## Main results

* `Binary64.Neighbourhood.exists_gridPoint`: a fine grid has a point in the interval;
* `Binary64.toBinary64_shortest`: the shortest decimal of a double is read as the double.
-/

namespace Vectorial

namespace Binary64

namespace Neighbourhood

variable {n : Neighbourhood} {place : Int} {point more : Nat}

/-- The distance of two points of a grid, and what both it and the interval are scaled by. -/
def step (place : Int) : Nat :=
  4 * unit * Nat.pow 10 place.toNat

def scale (place : Int) : Nat :=
  Nat.pow 10 (-place).toNat

theorem step_pos (place : Int) : 0 < step place :=
  Nat.mul_pos (Nat.mul_pos (by decide) unit_pos) (Nat.pow_pos (by decide))

theorem scale_pos (place : Int) : 0 < scale place :=
  Nat.pow_pos (by decide)

/-- What is found on a grid lies in the interval. -/
theorem holds_of_gridPoint (found : n.gridPoint place = some point) :
    n.holds (point * step place) (scale place) := by
  simp only [gridPoint] at found
  split at found
  · next low high =>
    obtain rfl := Option.some.inj found
    split
    · exact low
    · exact high
  · next low _ =>
    obtain rfl := Option.some.inj found
    exact low
  · next _ high =>
    obtain rfl := Option.some.inj found
    exact high
  · cases found

/-- A grid that is finer than the interval is wide has a point in it. -/
theorem exists_gridPoint (below : n.lower ≤ n.centre) (above : n.centre < n.upper)
    (fine : n.lower * scale place + step place < n.upper * scale place) :
    ∃ point, n.gridPoint place = some point := by
  have parts := Nat.div_add_mod' (n.centre * scale place) (step place)
  have rest := Nat.mod_lt (n.centre * scale place) (step_pos place)
  have below_scaled := Nat.mul_le_mul_right (scale place) below
  have above_scaled := Nat.mul_lt_mul_of_pos_right above (scale_pos place)
  -- Neither neighbour of the centre being in the interval, the two would enclose it.
  by_contra missed
  have outside : n.holds (n.centre * scale place / step place * step place) (scale place) = false ∧
      n.holds ((n.centre * scale place / step place + 1) * step place) (scale place) = false := by
    simp only [gridPoint] at missed
    split at missed
    · exact absurd ⟨_, rfl⟩ missed
    · exact absurd ⟨_, rfl⟩ missed
    · exact absurd ⟨_, rfl⟩ missed
    · next low high => exact ⟨low, high⟩
  simp only [holds, Nat.add_mul, Nat.one_mul] at outside
  split at outside <;>
    simp only [Bool.and_eq_false_iff, decide_eq_false_iff_not] at outside <;> omega

/-- The search ends with a point of a grid, if one of the grids that it tries has one. -/
theorem exists_coarsest {later : Nat} (tried : later < more)
    (found : ∃ point, n.gridPoint (place - later) = some point) :
    ∃ place' point, n.coarsest more place = ⟨point, place'⟩ ∧ n.gridPoint place' = some point := by
  induction more generalizing place later with
  | zero => exact absurd tried (Nat.not_lt_zero later)
  | succ more ih =>
    -- Grid by grid: what is found `later` is found one try earlier from the next grid on.
    rw [coarsest]
    cases here : n.gridPoint place with
    | some point => exact ⟨place, point, rfl, here⟩
    | none =>
      cases later with
      | zero =>
        obtain ⟨point, found⟩ := found
        rw [Nat.cast_zero, Int.sub_zero, here] at found
        cases found
      | succ later =>
        refine ih (Nat.lt_of_succ_lt_succ tried) ?_
        rwa [Int.sub_sub, Int.add_comm 1, ← Nat.cast_succ]

end Neighbourhood

/-! ### The interval of a double -/

variable {x : Binary64}

theorem magnitude_pos (nonzero : x.isZero = false) : 0 < x.magnitude :=
  Nat.pos_of_ne_zero (beq_eq_false_iff_ne.mp nonzero)

/-- A double has at most fifty-three bits. -/
theorem magnitude_lt_spacing (x : Binary64) : x.magnitude < Nat.pow 2 53 * x.spacing := by
  have below := x.fraction_lt
  have twice : Nat.pow 2 53 = 2 * Nat.pow 2 52 := rfl
  rw [magnitude]
  split
  · exact Nat.lt_of_lt_of_le (by omega) (Nat.le_mul_of_pos_right _ x.spacing_pos)
  · exact Nat.mul_lt_mul_of_pos_right (by omega) x.spacing_pos

theorem spacing_le_magnitude (nonzero : x.isZero = false) : x.spacing ≤ x.magnitude := by
  have pos := magnitude_pos nonzero
  rw [magnitude] at pos ⊢
  split at pos
  · next subnormal => rw [if_pos subnormal, spacing, subnormal]; exact pos
  · next normal =>
    rw [if_neg normal]
    exact Nat.le_mul_of_pos_left _ (Nat.add_pos_left (Nat.two_pow_pos 52) _)

/-- The interval is wider than a double has parts of the seventeenth digit. -/
theorem magnitude_lt_width (x : Binary64) :
    4 * x.magnitude < 10 ^ 16 * (x.reach + 2 * x.spacing) := by
  have few : Nat.pow 2 53 = 9007199254740992 := rfl
  have spacing_pos := x.spacing_pos
  rw [reach]
  split
  · next power =>
    have magnitude_eq : x.magnitude = Nat.pow 2 52 * x.spacing := by
      rw [magnitude, if_neg (by omega), power.1]
      rfl
    rw [magnitude_eq, show Nat.pow 2 52 = 4503599627370496 from rfl]
    omega
  · have bound := x.magnitude_lt_spacing
    rw [few] at bound
    omega

/-- The distance of two points of a grid, in quarters of a grain. -/
theorem step_div_scale (place : Int) :
    (Neighbourhood.step place : Rat) / Neighbourhood.scale place = 4 * unit * 10 ^ place := by
  rw [Neighbourhood.step, Neighbourhood.scale, Decimal.zpow_ten_eq]
  push_cast
  rw [mul_div_assoc]

/-- Seventeen digits make a grid that is finer than the interval is wide. -/
theorem fine_neighbourhood (nonzero : x.isZero = false) {place : Int}
    (seventeenth : place = Decimal.leadingPlace x.magnitude - 16) :
    x.neighbourhood.lower * Neighbourhood.scale place + Neighbourhood.step place <
      x.neighbourhood.upper * Neighbourhood.scale place := by
  have first := (Decimal.leadingPlace_spec (magnitude_pos nonzero)).1
  have leading : (10 : Rat) ^ Decimal.leadingPlace x.magnitude = 10 ^ place * 10 ^ 16 := by
    rw [← zpow_natCast, ← zpow_add₀ (by norm_num), seventeenth]
    congr 1
    omega
  rw [leading, le_div_iff₀ Decimal.unit_cast_pos] at first
  -- In grains: the interval is wider than one ten-quadrillionth of the magnitude, and the
  -- seventeenth digit counts at most as much.
  have wide : (4 * x.magnitude : Rat) < 10 ^ 16 * (x.reach + 2 * x.spacing) := by
    exact_mod_cast x.magnitude_lt_width
  have fine : (Neighbourhood.step place : Rat) / Neighbourhood.scale place <
      x.reach + 2 * x.spacing := by
    rw [step_div_scale]
    linarith
  rw [div_lt_iff₀ (Nat.cast_pos.mpr (Neighbourhood.scale_pos place))] at fine
  have fine_nat : Neighbourhood.step place <
      (x.reach + 2 * x.spacing) * Neighbourhood.scale place := by exact_mod_cast fine
  have width : x.neighbourhood.lower + (x.reach + 2 * x.spacing) = x.neighbourhood.upper := by
    have enough : x.reach ≤ 4 * x.magnitude := by
      have least := spacing_le_magnitude nonzero
      rw [reach]
      split <;> omega
    rw [lower_neighbourhood, upper_neighbourhood]
    omega
  rw [← width, Nat.add_mul]
  omega

/-- The shortest decimal of a finite double is read as the double. -/
theorem toBinary64_shortest (finite : x.isFinite) (nonzero : x.isZero = false) :
    x.shortest.toBinary64 x.negative = x := by
  have number : x.isNaN = false := (ordinary_of_isFinite finite).1
  have below : x.neighbourhood.lower ≤ x.neighbourhood.centre := Nat.sub_le _ _
  have above : x.neighbourhood.centre < x.neighbourhood.upper :=
    Nat.lt_add_of_pos_right (Nat.mul_pos (by decide) x.spacing_pos)
  obtain ⟨place, point, eq, found⟩ := Neighbourhood.exists_coarsest (by decide : 16 < 17)
    (Neighbourhood.exists_gridPoint below above (fine_neighbourhood nonzero rfl))
  have inside := (Neighbourhood.holds_iff (Neighbourhood.scale_pos place)).mp
    (Neighbourhood.holds_of_gridPoint found)
  rw [shortest, Decimal.toBinary64_congr _ (Decimal.value_trimmed _), eq]
  refine Decimal.toBinary64_of_contains number ?_
  have value_eq : ((point * Neighbourhood.step place : Nat) : Rat) /
      (4 * Neighbourhood.scale place) = Decimal.value ⟨point, place⟩ * unit := by
    rw [Nat.cast_mul, mul_comm 4, ← div_div, mul_div_assoc, step_div_scale, Decimal.value]
    ring
  rwa [value_eq] at inside

end Binary64

end Vectorial
