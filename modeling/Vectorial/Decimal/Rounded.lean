import Vectorial.Decimal.Basic

/-!
# A fixed number of significant digits

## Main definitions

* `Binary64.significant`: the decimal of a given number of significant digits nearest a
  finite nonzero double, an exact half going to the even digit.
-/

namespace Vectorial

/-- The decimal with `count` significant digits nearest the magnitude of `x`. When the
digits carry into a new place the significand is a power of ten, which is the same
number. -/
def Binary64.significant (count : Nat) (x : Binary64) : Decimal :=
  let place := Decimal.leadingPlace x.magnitude - (count - 1 : Nat)
  let ratio := Decimal.gridRatio x.magnitude place
  ⟨roundHalfEven ratio.1 ratio.2, place⟩

end Vectorial
