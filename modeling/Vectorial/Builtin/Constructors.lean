import Vectorial.Argument
import Vectorial.Builtin.Basic
import Vectorial.NumberText

/-!
# Builtins that make vectors

## Main definitions

* `Builtin.sequence`: whole numbers in equal steps, computed on demand;
* `Builtin.zeros`: a vector of zeros of a given kind.
-/

namespace Vectorial

namespace Builtin

/-- A step. A double must be whole, and is not cut off. -/
def wholeStep (v : Value) : Attempt Int32 := do
  if v.kind = .atomic .double then
    let step ← scalarDouble "by" v
    if !(step.isFinite && step.isWhole) then
      Attempt.refuse (.typeMismatch "an integer step" (formatDouble step))
  scalarInteger "by" v

/-- The integer that an optional argument gives, one if it is absent. -/
def integerOrOne (arg : Symbol) : Option Value → Attempt Int32
  | some v => scalarInteger arg v
  | none => pure 1

/-- The whole numbers from one bound towards another, both one if absent. The step is one
towards the second bound unless it is given; it must not be zero or lead away. -/
def sequence (arguments : Arguments) : Operation Value := do
  let start ← integerOrOne "from" (← arguments.arg 0)
  let stop ← integerOrOne "to" (← arguments.arg 1)
  let step ← match ← arguments.arg 2 with
    | some v => wholeStep v
    | none => pure (if start.toInt ≤ stop.toInt then 1 else -1)
  if step = 0 then Attempt.refuse (.typeMismatch "a non-zero step" "0")
  else if start ≠ stop ∧ (decide (start.toInt < stop.toInt) ≠ decide (0 < step.toInt)) then
    Attempt.refuse (.typeMismatch s!"a step towards {stop.toInt}" (toString step.toInt))
  else Attempt.ofDefect (Value.sequence start stop step)

/-- The kinds of vectors that can be made, with the first one as default. -/
def modes : List Kind :=
  [.atomic .logical, .atomic .integer, .atomic .double, .atomic .complex, .atomic .character,
   .atomic .raw, .list]

/-- The choice among the kinds. -/
def modeChoice : Choice :=
  ⟨"mode", modes.map Kind.name⟩

/-- The kind at a position among those of the choice. -/
def kindOfMode (mode : Nat) : Attempt Kind :=
  match modes[mode]? with
  | some kind => pure kind
  | none => Attempt.violate (.indexPastLength mode modes.length)

/-- The number of elements asked for, zero if it is not given. -/
def lengthOrZero : Option Value → Attempt Nat
  | none => pure 0
  | some v => do
    let length ← scalarInteger "length" v
    if length.toInt < 0 then
      Attempt.refuse (.typeMismatch "a non-negative length" (toString length.toInt))
    else pure length.toInt.toNat

/-- A vector of zeros of a kind and length. -/
def zeros (arguments : Arguments) : Operation Value := do
  let mode ← match ← arguments.arg 0 with
    | some v => modeChoice.parse v
    | none => pure 0
  let length ← lengthOrZero (← arguments.arg 1)
  let kind ← kindOfMode mode
  let id ← Operation.freshStorage
  pure (.zeroed id kind length)

end Builtin

end Vectorial
