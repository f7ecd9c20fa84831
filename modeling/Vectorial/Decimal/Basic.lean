import Vectorial.Binary64.Arithmetic

/-!
# Decimal numbers and the doubles nearest them

A decimal is a natural number of units of a power of ten. Reading one as a double is one
exact rounding. In the other direction a double is placed on a decimal grid: its leading
place fixes the grid that has a given number of significant digits.

## Main definitions

* `Decimal`: a significand and the place of its last digit;
* `digitCount`: the number of decimal digits of a natural number;
* `Decimal.toBinary64`: the double nearest a signed decimal;
* `Decimal.gridRatio`, `Decimal.leadingPlace`: a magnitude measured on a decimal grid, and
  the place of its first digit;
* `Decimal.trimmed`: the decimal without trailing zeros.
-/

namespace Vectorial

/-- The number of decimal digits of `n`; zero has one. -/
def digitCount (n : Nat) : Nat :=
  if n < 10 then 1 else digitCount (n / 10) + 1

/-- The number `significand * 10 ^ place`. -/
structure Decimal where
  significand : Nat
  place : Int
  deriving DecidableEq, Inhabited

namespace Decimal

/-- The place of the first digit. -/
def firstPlace (d : Decimal) : Int :=
  d.place + digitCount d.significand - 1

/-- The double nearest a decimal of the given sign. A decimal of `10 ^ 310` or more is
past every finite double, and one below `10 ^ -330` is nearest zero, so the powers that
are computed stay small whatever the exponent says. -/
def toBinary64 (negative : Bool) (d : Decimal) : Binary64 :=
  if d.significand = 0 then .zero negative
  else if 310 ≤ d.firstPlace then .infinity negative
  else if d.firstPlace < -330 then .zero negative
  else if 0 ≤ d.place then
    .nearest negative (d.significand * Nat.pow 10 d.place.toNat * Binary64.unit) 1
  else
    .nearest negative (d.significand * Binary64.unit) (Nat.pow 10 (-d.place).toNat)

/-- A magnitude in grains, measured in units of `10 ^ place`: numerator and
denominator. -/
def gridRatio (magnitude : Nat) (place : Int) : Nat × Nat :=
  (magnitude * Nat.pow 10 (-place).toNat, Binary64.unit * Nat.pow 10 place.toNat)

/-- The place of the first digit of a positive magnitude in grains. Even one grain is
more than `10 ^ -324`, so scaling by that much leaves a digit before the point. -/
def leadingPlace (magnitude : Nat) : Int :=
  digitCount (magnitude * Nat.pow 10 324 / Binary64.unit) - 325

/-- The same number without trailing zeros in its significand. -/
def trimmed (d : Decimal) : Decimal :=
  if h : d.significand ≠ 0 ∧ d.significand % 10 = 0 then
    trimmed ⟨d.significand / 10, d.place + 1⟩
  else d
termination_by d.significand
decreasing_by omega

end Decimal

end Vectorial
