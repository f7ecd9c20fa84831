/-!
# Doubles as bit patterns

A double is kept as its sixty-four bits, so that the missing marker, which is one
particular NaN, survives every copy. The value of a double that is no NaN is counted in
*grains* of `2 ^ -1074`, the least positive double: every finite double is a whole
number of grains, and an infinity counts more grains than any finite double. Comparison
and truncation are therefore integer operations.

## Main definitions

* `Binary64`: a double, by its bits;
* `Binary64.missing`, `Binary64.isMissing`: the marker of an absent number;
* `Binary64.grains`: the signed value in units of `2 ^ -1074`;
* `Binary64.lt`, `Binary64.le`, `Binary64.same`: comparison, false on every NaN;
* `Binary64.truncated`, `Binary64.isWhole`: the integer part, and whether it is all.
-/

namespace Vectorial

/-- A double-precision number, by its bits: sign, eleven exponent bits, fifty-two
fraction bits. -/
structure Binary64 where
  bits : UInt64
  deriving DecidableEq, Inhabited

namespace Binary64

/-! ### Fields -/

/-- The sign bit. Zeros and NaNs have one too. -/
def negative (x : Binary64) : Bool :=
  x.bits.toNat / Nat.pow 2 63 % 2 == 1

/-- The biased exponent field. -/
def exponent (x : Binary64) : Nat :=
  x.bits.toNat / Nat.pow 2 52 % Nat.pow 2 11

/-- The fraction field. -/
def fraction (x : Binary64) : Nat :=
  x.bits.toNat % Nat.pow 2 52

/-- Not a number: a full exponent field with a fraction. -/
def isNaN (x : Binary64) : Bool :=
  x.exponent == 2047 && x.fraction != 0

/-- One of the two infinities. -/
def isInfinite (x : Binary64) : Bool :=
  x.exponent == 2047 && x.fraction == 0

/-- Neither a NaN nor an infinity. -/
def isFinite (x : Binary64) : Bool :=
  x.exponent != 2047

/-! ### Named numbers -/

/-- The double with the given sign whose other bits are `low`. -/
def ofFields (negative : Bool) (low : Nat) : Binary64 :=
  ⟨UInt64.ofNat ((if negative then Nat.pow 2 63 else 0) + low)⟩

/-- Zero of either sign. -/
def zero (negative : Bool) : Binary64 :=
  ofFields negative 0

/-- Infinity of either sign. -/
def infinity (negative : Bool) : Binary64 :=
  ofFields negative (2047 * Nat.pow 2 52)

/-- The quiet NaN that arithmetic produces. -/
def nan : Binary64 :=
  ⟨0x7FF8000000000000⟩

/-- The missing number. It is a NaN whose payload is 1954; no other NaN is missing. -/
def missing : Binary64 :=
  ⟨0x7FF00000000007A2⟩

/-- Whether `x` is the missing number, and not merely some NaN. -/
def isMissing (x : Binary64) : Bool :=
  x == missing

/-! ### Value in grains -/

/-- One, in grains. -/
def unit : Nat :=
  Nat.pow 2 1074

/-- The magnitude in grains. A subnormal is its fraction; a normal number has the
hidden bit and is scaled by its exponent. -/
def magnitude (x : Binary64) : Nat :=
  if x.exponent = 0 then x.fraction else (Nat.pow 2 52 + x.fraction) * Nat.pow 2 (x.exponent - 1)

/-- The signed value in grains. -/
def grains (x : Binary64) : Int :=
  if x.negative then -(x.magnitude : Int) else x.magnitude

/-- Whether the value is zero, of either sign. -/
def isZero (x : Binary64) : Bool :=
  x.magnitude == 0

/-! ### Comparison -/

/-- Strictly less, as numbers. -/
def lt (x y : Binary64) : Bool :=
  !x.isNaN && !y.isNaN && decide (x.grains < y.grains)

/-- At most, as numbers. -/
def le (x y : Binary64) : Bool :=
  !x.isNaN && !y.isNaN && decide (x.grains ≤ y.grains)

/-- Equal as numbers: the two zeros are the same, and a NaN is not even itself. -/
def same (x y : Binary64) : Bool :=
  !x.isNaN && !y.isNaN && decide (x.grains = y.grains)

/-! ### Sign and integer part -/

/-- The magnitude as a double: the sign bit cleared. -/
def abs (x : Binary64) : Binary64 :=
  ofFields false (x.exponent * Nat.pow 2 52 + x.fraction)

/-- The integer part, rounded toward zero. It means the value for finite doubles. -/
def truncated (x : Binary64) : Int :=
  x.grains.tdiv unit

/-- Whether a finite double has no fractional part. -/
def isWhole (x : Binary64) : Bool :=
  x.magnitude % unit == 0

end Binary64

end Vectorial
