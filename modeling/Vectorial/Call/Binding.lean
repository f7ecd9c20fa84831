import Vectorial.Call.Formals

/-!
# Bindings

Which actual each parameter received, which actuals the varargs marker absorbed, and
which were left over. Actuals are named by their position in the call.

## Main definitions

* `Binding`: the outcome of matching actuals with parameters;
* `Binding.isBound`: whether a parameter received anything.
-/

namespace Vectorial

/-- The actuals of a call, distributed over the parameters. -/
structure Binding where
  /-- The actual of each parameter; the varargs marker has none. -/
  actuals : List (Option Nat)
  /-- The actuals absorbed by the marker, in call order. -/
  dots : List Nat
  /-- The actuals that nothing took, in call order. -/
  unused : List Nat
  deriving DecidableEq, Inhabited

namespace Binding

variable (binding : Binding)

/-- The actual bound to the parameter at a position. -/
def actualFor (index : Nat) : Option Nat :=
  binding.actuals[index]?.join

/-- Whether the parameter at a position received anything. -/
def isBound (formals : Formals) (index : Nat) : Bool :=
  if formals.dotsIndex = some index then !binding.dots.isEmpty
  else (binding.actualFor index).isSome

/-- The number of parameters that received something; the marker counts once. -/
def boundCount (formals : Formals) : Nat :=
  ((List.range formals.length).filter (binding.isBound formals)).length

end Binding

end Vectorial
