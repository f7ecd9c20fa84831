import Vectorial.Binary64.Basic

/-!
# Correctly rounded arithmetic

Each operation computes its exact result as a quotient of natural numbers of grains and
rounds it once, to the nearest double, an exact half going to the even neighbour. The
exceptional operands are treated first.

## Main definitions

* `roundHalfEven`: a quotient rounded to the nearest natural number;
* `Binary64.nearest`: the double nearest a quotient of grains;
* `Binary64.add`, `Binary64.sub`, `Binary64.mul`, `Binary64.div`: the four operations;
* `Binary64.ofInt`: the double nearest an integer.
-/

namespace Vectorial

/-- The natural number nearest `num / den`; an exact half goes to the even one. -/
def roundHalfEven (num den : Nat) : Nat :=
  let quotient := num / den
  let twice := 2 * (num % den)
  if twice < den then quotient
  else if den < twice then quotient + 1
  else quotient + quotient % 2

namespace Binary64

/-- The double of the given sign nearest `num / den` grains. The quotient is cut to
fifty-three significant bits; as the exponent field counts the bits cut off, a carry out
of the significand lands in the exponent, and a result past the largest finite double is
an infinity. -/
def nearest (negative : Bool) (num den : Nat) : Binary64 :=
  let cut := Nat.log2 (num / den) - 52
  let low := cut * Nat.pow 2 52 + roundHalfEven num (den * Nat.pow 2 cut)
  if 2047 * Nat.pow 2 52 ≤ low then infinity negative else ofFields negative low

/-- The double nearest an integer. -/
def ofInt (n : Int) : Binary64 :=
  nearest (n < 0) (n.natAbs * unit) 1

/-- The sum. A sum that vanishes is negative zero only if both operands are negative. -/
def add (x y : Binary64) : Binary64 :=
  if x.isNaN || y.isNaN then nan
  else if x.isInfinite then
    if y.isInfinite && x.negative != y.negative then nan else x
  else if y.isInfinite then y
  else
    let sum := x.grains + y.grains
    if sum = 0 then zero (x.negative && y.negative)
    else nearest (sum < 0) sum.natAbs 1

/-- The number with the other sign bit. -/
def neg (x : Binary64) : Binary64 :=
  ofFields (!x.negative) (x.exponent * Nat.pow 2 52 + x.fraction)

/-- The difference, as the sum with the opposite number. -/
def sub (x y : Binary64) : Binary64 :=
  x.add y.neg

/-- The product. -/
def mul (x y : Binary64) : Binary64 :=
  let negative := x.negative != y.negative
  if x.isNaN || y.isNaN then nan
  else if x.isInfinite || y.isInfinite then
    if x.isZero || y.isZero then nan else infinity negative
  else nearest negative (x.magnitude * y.magnitude) unit

/-- The quotient. A zero divisor gives an infinity, unless the dividend is zero too. -/
def div (x y : Binary64) : Binary64 :=
  let negative := x.negative != y.negative
  if x.isNaN || y.isNaN then nan
  else if x.isInfinite then
    if y.isInfinite then nan else infinity negative
  else if y.isInfinite then zero negative
  else if y.isZero then
    if x.isZero then nan else infinity negative
  else nearest negative (x.magnitude * unit) y.magnitude

/-- The greatest whole number at most a finite double that is not negative; infinity
stays. -/
def floorNonnegative (x : Binary64) : Binary64 :=
  if x.isFinite then nearest false (x.magnitude / unit * unit) 1 else x

end Binary64

end Vectorial
