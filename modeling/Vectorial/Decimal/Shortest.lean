import Vectorial.Decimal.Basic

/-!
# The fewest digits that read back

The reals that round to a given double form an interval around it, whose ends belong to
it exactly when the significand is even. The shortest decimal of a double is a point of
the coarsest decimal grid that meets the interval; of two such points it is the nearer.

## Main definitions

* `Binary64.Neighbourhood`: the interval of a double, in quarters of a grain;
* `Binary64.shortest`: the shortest decimal that reads back as the double.
-/

namespace Vectorial

namespace Binary64

/-- The reals that round to one double, in quarters of a grain. -/
structure Neighbourhood where
  lower : Nat
  centre : Nat
  upper : Nat
  closed : Bool

/-- The interval of a finite nonzero double. Each end is half way to the neighbouring
double, and the lower neighbour of a power of two is half as far away as the upper one,
unless both are subnormal. -/
def neighbourhood (x : Binary64) : Neighbourhood :=
  let gap := Nat.pow 2 (x.exponent - 1)
  let below := if x.fraction = 0 ∧ 1 < x.exponent then gap else 2 * gap
  { lower := 4 * x.magnitude - below
    centre := 4 * x.magnitude
    upper := 4 * x.magnitude + 2 * gap
    closed := x.fraction % 2 == 0 }

/-- Whether `point / scale` quarter grains lie in the interval. -/
def Neighbourhood.holds (n : Neighbourhood) (point scale : Nat) : Bool :=
  if n.closed then decide (n.lower * scale ≤ point) && decide (point ≤ n.upper * scale)
  else decide (n.lower * scale < point) && decide (point < n.upper * scale)

/-- The point of the grid of `10 ^ place` that lies in the interval, if there is one:
one of the two grid points around the centre, the nearer if both qualify, the upper one
if they are equally near. -/
def Neighbourhood.gridPoint (n : Neighbourhood) (place : Int) : Option Nat :=
  let scale := Nat.pow 10 (-place).toNat
  let step := 4 * unit * Nat.pow 10 place.toNat
  let low := n.centre * scale / step
  let high := low + 1
  match n.holds (low * step) scale, n.holds (high * step) scale with
  | true, true =>
    some (if n.centre * scale - low * step < high * step - n.centre * scale then low else high)
  | true, false => some low
  | false, true => some high
  | false, false => none

/-- The coarsest grid that meets the interval, searching `more` finer ones after
`place`. -/
def Neighbourhood.coarsest (n : Neighbourhood) : Nat → Int → Decimal
  | 0, place => ⟨n.centre * Nat.pow 10 (-place).toNat / (4 * unit * Nat.pow 10 place.toNat), place⟩
  | more + 1, place =>
    match n.gridPoint place with
    | some significand => ⟨significand, place⟩
    | none => n.coarsest more (place - 1)

/-- The shortest decimal that reads back as the magnitude of a finite nonzero double.
Seventeen digits always suffice. -/
def shortest (x : Binary64) : Decimal :=
  (x.neighbourhood.coarsest 17 (Decimal.leadingPlace x.magnitude)).trimmed

end Binary64

end Vectorial
