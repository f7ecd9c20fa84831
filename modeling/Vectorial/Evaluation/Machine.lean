import Vectorial.Builtin.Registry
import Vectorial.CallStack
import Vectorial.Mode
import Vectorial.Scope.Program

/-!
# The state of evaluation

## Main definitions

* `Context`: what stays the same during evaluation;
* `Machine`: what changes;
* `EvalM`: evaluation steps, which change the machine and may stop;
* `EvalM.onHeap`: a step on the heap as an evaluation step;
* `EvalM.backtraced`: errors with a backtrace;
* `EvalM.counted`: values behind counters.
-/

namespace Vectorial

/-- What stays the same during evaluation. -/
structure Context where
  program : Program
  builtins : Registry
  mode : Mode

/-- What is called at a call site: a function literal or a builtin. -/
inductive Callee where
  | literal (id : NodeId)
  | builtin (handle : Nat)
  deriving DecidableEq, Inhabited

/-- The bindings known from earlier calls, by call site and callee. -/
abbrev BindingCache := List ((NodeId × Callee) × Binding)

/-- What changes during evaluation. -/
structure Machine where
  heap : Heap
  globals : List (Symbol × Value)
  stack : CallStack
  /-- Known bindings, unless they are not to be kept. -/
  cache : Option BindingCache
  /-- The frames of all calls so far, the latest first. -/
  activations : List FrameId

/-- An evaluation step. -/
abbrev EvalM := Run Machine

namespace Machine

/-- The value of a global variable. -/
def global? (m : Machine) (name : Symbol) : Option Value :=
  (m.globals.find? fun entry => entry.1 == name).map Prod.snd

/-- The machine with a global variable set. -/
def setGlobal (m : Machine) (name : Symbol) (value : Value) : Machine :=
  { m with globals := setEntry name value m.globals }

end Machine

namespace EvalM

variable {α : Type}

/-- A step on the heap. -/
def onHeap (step : HeapM α) : EvalM α :=
  Run.within Machine.heap (fun heap m => { m with heap }) step

/-- The step with a backtrace for its errors. -/
def backtraced (step : EvalM α) : EvalM α :=
  Run.amend (fun m e => m.stack.attach e) step

/-- A value that evaluation produced, behind new counters where views are counted. -/
def counted (mode : Mode) (value : Value) : EvalM Value :=
  if mode.tracesViews then onHeap (HeapM.traced value) else pure value

end EvalM

end Vectorial
