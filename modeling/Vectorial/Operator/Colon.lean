import Vectorial.Attempt
import Vectorial.Binary64.Arithmetic
import Vectorial.NumberText
import Vectorial.Value.Coercion

/-!
# From one number to another

The numbers from a start in steps of one towards an end that they do not pass. As long as
they are integers they are computed on demand; otherwise they are doubles and stored.

## Main definitions

* `Binary64.integral?`: a double that is an integer and not the missing one;
* `Value.bound`: the finite number that a bound must be;
* `Value.colon`: the operator.
-/

namespace Vectorial

/-- A double as an integer, if it is one and not the missing one. -/
def Binary64.integral? (x : Binary64) : Option Int32 :=
  if x.isFinite && x.isWhole && decide (-2147483648 < x.truncated ∧ x.truncated < 2147483648) then
    some (Int32.ofInt x.truncated)
  else none

/-- How many doubles can be stored at all: their bytes must be addressable. -/
def doublesLimit : Nat :=
  Nat.pow 2 60

namespace Value

/-- The finite number that a bound of a progression must be. -/
def bound (arg : Symbol) (v : Value) : Attempt Binary64 :=
  if v.size ≠ 1 then Attempt.refuse (.notScalar arg)
  else do
    let number ← Attempt.ofCause (v.coerceTo (.atomic .double))
    let x ← number.atomWithin 0 .double
    if Binary64.isNaN x then Attempt.refuse .missingValue
    else if Binary64.isInfinite x then
      Attempt.refuse (.typeMismatch "a finite bound" (formatDouble x))
    else pure x

/-- The doubles from `start` in the given steps. -/
def steppedDoubles (start step : Binary64) (count : Nat) : List Binary64 :=
  (List.range count).map fun (index : Nat) =>
    start.add (step.mul (.ofInt index))

/-- The numbers from the finite `start` to the finite `stop` in steps of one. -/
def between (start stop : Binary64) : Except Defect Value :=
  let step : Int32 := if start.le stop then 1 else -1
  let steps := (stop.sub start).abs.floorNonnegative
  let last := start.add ((Binary64.ofInt step.toInt).mul steps)
  match start.integral?, last.integral? with
  | some first, some last =>
    if first = 1 ∧ 1 ≤ last then Value.upTo last else Value.sequence first last step
  | _, _ =>
    let count := steps.truncated.toNat + 1
    if !steps.isFinite || doublesLimit ≤ count then .error .capacityOverflow
    else .ok (.ofAtoms .double (steppedDoubles start (.ofInt step.toInt) count))

/-- The numbers from one value to another. Both must be single numbers, and the first is
looked at first. -/
def colon (start stop : Value) : Attempt Value := do
  let first ← start.bound "from"
  let last ← stop.bound "to"
  Attempt.ofDefect (between first last)

end Value

end Vectorial
