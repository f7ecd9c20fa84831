import Vectorial.Defect
import Vectorial.EvalError

/-!
# Steps that change a state and may stop

## Main definitions

* `Stop`: why there is no result;
* `Run`: a step on a state, whose changes stay when it stops;
* `Run.fail`: stopping with an error;
* `Run.ofExcept`: a computation that may fail, `Run.ofCause` and `Run.ofDefect` for the two ways;
* `Run.within`: a step on a part of the state;
* `Run.amend`: a step with its errors changed.
-/

namespace Vectorial

/-- Why a step has no result. -/
inductive Stop where
  /-- The evaluated program is wrong. -/
  | error (error : EvalError)
  /-- A precondition is violated. -/
  | defect (defect : Defect)
  /-- A bound on the depth of evaluation was reached. -/
  | exhausted
  deriving DecidableEq

/-- A step on a state. What it changed stays changed when it stops. -/
abbrev Run (σ : Type) := EStateM Stop σ

namespace Run

variable {σ τ α : Type}

/-- Stops with an error. -/
def fail (cause : Cause) : Run σ α :=
  throw (.error { cause })

/-- A computation that may fail, and what its failures stop with. -/
def ofExcept {ε : Type} (stops : ε → Stop) : Except ε α → Run σ α
  | .ok a => pure a
  | .error e => throw (stops e)

/-- A computation that may fail with a cause. -/
def ofCause : Except Cause α → Run σ α :=
  ofExcept fun cause => .error { cause }

/-- A computation that may find a precondition violated. -/
def ofDefect : Except Defect α → Run σ α :=
  ofExcept .defect

/-- A result that is known already. -/
def ofResult : Except Stop α → Run σ α :=
  ofExcept id

/-- A step on the part `part` of the state, which `put` replaces. -/
def within (part : σ → τ) (put : τ → σ → σ) (step : Run τ α) : Run σ α := fun s =>
  match step (part s) with
  | .ok a t => .ok a (put t s)
  | .error stop t => .error stop (put t s)

/-- The step with its errors changed in view of the state they leave behind. -/
def amend (change : σ → EvalError → EvalError) (step : Run σ α) : Run σ α := fun s =>
  match step s with
  | .error (.error e) s => .error (.error (change s e)) s
  | result => result

/-- The step with a place for its errors, if there is one. -/
def located (span : Option Span) (step : Run σ α) : Run σ α :=
  match span with
  | some span => amend (fun _ e => e.withSpan span) step
  | none => step

end Run

end Vectorial
