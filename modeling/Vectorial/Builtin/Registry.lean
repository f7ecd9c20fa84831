import Vectorial.Builtin.Collections
import Vectorial.Builtin.Constructors

/-!
# The registry of builtins

Builtins are registered in order, and a handle is the position of one. A later
registration hides an earlier one of the same name, but the earlier handle stays good.

## Main definitions

* `Registry`: the registered builtins;
* `Registry.register`: one more builtin, refused if its parameters are malformed;
* `Registry.lookup`, `Registry.get`: the handle of a name, the builtin of a handle;
* `Registry.standard`: the builtins that every program starts with.
-/

namespace Vectorial

/-- The registered builtins, in order of registration. -/
structure Registry where
  builtins : List Builtin := []

namespace Registry

/-- No builtins. -/
def empty : Registry := {}

variable (registry : Registry)

/-- The number of registrations. -/
def size : Nat :=
  registry.builtins.length

/-- One more builtin. -/
def register (name : Symbol) (params required : List Symbol)
    (run : Arguments → Operation Value) : Except Defect Registry :=
  (Formals.of name params required).map fun formals =>
    ⟨registry.builtins ++ [⟨name, formals, run⟩]⟩

/-- The builtin of a handle. -/
def get (handle : Nat) : Option Builtin :=
  registry.builtins[handle]?

/-- The handle of the builtin last registered under a name. -/
def lookup (name : Symbol) : Option Nat :=
  lastEntry (registry.builtins.map Builtin.name).zipIdx name

/-- The builtins that are not hidden, each with its handle. -/
def visible : List (Symbol × Nat) :=
  ((registry.builtins.map Builtin.name).zipIdx).filter fun entry =>
    registry.lookup entry.1 == some entry.2

/-! ### The standard builtins -/

/-- A builtin that absorbs all its actuals. -/
def variadic (name : Symbol) (run : Arguments → Operation Value) : Builtin :=
  ⟨name, ⟨name, [⟨Symbol.dots, false⟩], by simp, by simp⟩, run⟩

/-- A builtin of one required actual. -/
def unary (name : Symbol) (run : Arguments → Operation Value) : Builtin :=
  ⟨name, ⟨name, [⟨"x", true⟩], by simp, by simp [Symbol.dots]⟩, run⟩

/-- The builtins that every program starts with. -/
def standard : Registry :=
  ⟨[variadic "c" Builtin.combine,
    variadic "list" Builtin.makeList,
    unary "length" Builtin.length,
    unary "is.na" Builtin.isMissing,
    ⟨"seq", ⟨"seq", [⟨"from", false⟩, ⟨"to", false⟩, ⟨"by", false⟩], by simp, by simp⟩,
      Builtin.sequence⟩,
    ⟨"vector", ⟨"vector", [⟨"mode", false⟩, ⟨"length", false⟩], by simp, by simp⟩,
      Builtin.zeros⟩]⟩

end Registry

end Vectorial
