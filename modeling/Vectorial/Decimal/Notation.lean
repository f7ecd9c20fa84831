import Vectorial.Decimal.Basic

/-!
# Positional and scientific notation

## Main definitions

* `Decimal.digits`: the digits of the significand, most significant first;
* `Decimal.positional`: digits and a point, padded with zeros, without an exponent;
* `Decimal.scientific`: one digit before the point and a signed exponent of at least
  two digits.
-/

namespace Vectorial

namespace Decimal

/-- The digits of the significand, most significant first. -/
def digits (d : Decimal) : List Char :=
  Nat.toDigits 10 d.significand

/-- The number written without an exponent: `0.001`, `1.5`, `1200`. -/
def positional (d : Decimal) : List Char :=
  let digits := d.digits
  let before := digits.length + d.place
  if before ≤ 0 then
    '0' :: '.' :: List.replicate (-before).toNat '0' ++ digits
  else if 0 ≤ d.place then
    digits ++ List.replicate d.place.toNat '0'
  else
    digits.take before.toNat ++ '.' :: digits.drop before.toNat

/-- The number written with one digit before the point and an exponent: `1e+05`,
`1.5e-07`. -/
def scientific (d : Decimal) : List Char :=
  let digits := d.digits
  let exponent := d.place + digits.length - 1
  let mantissa := match digits with
    | [] => []
    | [digit] => [digit]
    | digit :: rest => digit :: '.' :: rest
  let size := Nat.toDigits 10 exponent.natAbs
  let padded := if size.length < 2 then '0' :: size else size
  mantissa ++ 'e' :: (if exponent < 0 then '-' else '+') :: padded

end Decimal

end Vectorial
