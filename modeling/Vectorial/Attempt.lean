import Vectorial.Defect
import Vectorial.EvalError
import Vectorial.Metered

/-!
# Operations that may fail

An operation on values delivers a result, fails with the cause of an evaluation error, or
finds a precondition violated. The reads that it made count whatever the outcome.

## Main definitions

* `Fault`: the two ways not to deliver;
* `Attempt`: a metered computation that may end in a fault;
* `Attempt.refuse`, `Attempt.violate`: a fault of either kind;
* `Attempt.ofExcept`: an unmetered computation as an attempt, `Attempt.ofCause` and
  `Attempt.ofDefect` for the two faults.
-/

namespace Vectorial

/-- Why an operation did not deliver a result. -/
inductive Fault where
  /-- The evaluated program is wrong. -/
  | error (cause : Cause)
  /-- The caller is wrong. -/
  | defect (defect : Defect)
  deriving DecidableEq

/-- A computation on values: it may end in a fault, and its reads count in any case. -/
abbrev Attempt := ExceptT Fault Metered

namespace Attempt

variable {α : Type}

/-- An evaluation error. -/
def refuse (cause : Cause) : Attempt α :=
  throw (.error cause)

/-- A violated precondition. -/
def violate (defect : Defect) : Attempt α :=
  throw (.defect defect)

/-- A computation that may fail, and the faults that its failures are. -/
def ofExcept {ε : Type} (fault : ε → Fault) : Except ε α → Attempt α
  | .ok a => pure a
  | .error e => throw (fault e)

/-- A computation that may fail with a cause. -/
def ofCause : Except Cause α → Attempt α :=
  ofExcept .error

/-- A computation that may find a precondition violated. -/
def ofDefect : Except Defect α → Attempt α :=
  ofExcept .defect

end Attempt

end Vectorial
