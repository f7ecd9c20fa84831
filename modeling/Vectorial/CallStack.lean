import Vectorial.Defect
import Vectorial.EvalError

/-!
# The call stack

The calls in progress, under an optional limit on their number. A push past the limit
fails and leaves the stack as it is.

## Main definitions

* `CallStack`: the live calls and the limit;
* `CallStack.push`, `CallStack.pop`: entering and leaving a call;
* `CallStack.attach`: an error with the backtrace of the stack.
-/

namespace Vectorial

/-- The calls in progress, innermost first, and how many there may be. -/
structure CallStack where
  frames : Backtrace := []
  limit : Option Nat := none
  deriving DecidableEq, Inhabited

namespace CallStack

variable (stack : CallStack)

/-- The number of calls in progress. -/
def depth : Nat :=
  stack.frames.length

/-- Whether there is no room for another call. -/
def isFull : Bool :=
  stack.limit.any fun limit => limit ≤ stack.depth

/-- The stack inside one more call. -/
def push (frame : CallFrame) : Except Cause CallStack :=
  if stack.isFull then .error (.stackOverflow (stack.limit.getD 0))
  else .ok { stack with frames := frame :: stack.frames }

/-- The stack after the innermost call. -/
def pop : Except Defect CallStack :=
  match stack.frames with
  | [] => .error .emptyCallStack
  | _ :: rest => .ok { stack with frames := rest }

/-- The error with a backtrace of the calls in progress, unless there are none or it has
one. -/
def attach (e : EvalError) : EvalError :=
  if stack.frames.isEmpty then e else e.withBacktrace stack.frames

end CallStack

end Vectorial
