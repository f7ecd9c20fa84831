import Vectorial.Call.Binding
import Vectorial.Heap.Work

/-!
# Builtins

A builtin has parameters like a function literal and is called through the same matching.
Its implementation sees the actuals by the parameters that they matched, and may take
identities for the lists that it makes.

## Main definitions

* `Arguments`: the matched actuals of one call;
* `Arguments.arg`, `Arguments.required`, `Arguments.absorbed`: the actual of a parameter,
  and those that the varargs marker absorbed;
* `Builtin`: a name, parameters and an implementation.
-/

namespace Vectorial

/-- The matched actuals of one call of a builtin. -/
structure Arguments where
  formals : Formals
  binding : Binding
  actuals : Parts

namespace Arguments

variable (arguments : Arguments)

/-- The name of the builtin that is called. -/
def function : Symbol :=
  arguments.formals.function

/-- The actual that the parameter at a position received, if it received one. There must
be such a parameter. -/
def arg (index : Nat) : Attempt (Option Value) :=
  if index < arguments.formals.length then
    pure <| (arguments.binding.actualFor index).bind fun actual =>
      (arguments.actuals[actual]?).map Prod.snd
  else Attempt.violate (.parameterPastFormals index)

/-- The actuals that the varargs marker absorbed, in call order. -/
def absorbed : Parts :=
  arguments.binding.dots.filterMap fun actual => arguments.actuals[actual]?

/-- The actual of a parameter that must have received one. -/
def required (index : Nat) : Attempt Value := do
  match ← arguments.arg index with
  | some v => pure v
  | none =>
    Attempt.refuse
      (.missingArgument arguments.function (arguments.formals.names.getD index ""))

end Arguments

/-- A builtin: its name, its parameters and what it does. -/
structure Builtin where
  name : Symbol
  formals : Formals
  run : Arguments → Operation Value

end Vectorial
