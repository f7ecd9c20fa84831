import Vectorial.Builtin.Basic
import Vectorial.Value.Metadata
import Vectorial.Value.Reading

/-!
# Builtins on collections

Putting values together, counting elements and asking which of them are missing.

## Main definitions

* `Builtin.combine`: the elements of all actuals in one vector of their common kind;
* `Builtin.makeList`: the actuals as the items of a list;
* `Builtin.length`: the number of elements;
* `Builtin.isMissing`: which elements are missing.
-/

namespace Vectorial

namespace Builtin

/-! ### Combining -/

/-- The kind of a vector that holds the elements of all parts: a list as soon as one part
is a list or a function. -/
def combinedKind (parts : Parts) : Option Kind :=
  if parts.any fun part => part.2.isFunction || part.2.kind = .list then some .list
  else Kind.commonOf (parts.map fun part => part.2.kind)

/-- The name of one of `size` elements, from the name of the actual and the name that the
element has in it. -/
def combinedName (outer : Option Symbol) (inner : Option String) (size index : Nat) : String :=
  match outer, inner with
  | some outer, some inner => outer ++ "." ++ inner
  | some outer, none => if size = 1 then outer else s!"{outer}{index + 1}"
  | none, some inner => inner
  | none, none => ""

/-- The names of the elements of one part. Empty names count as none. -/
def partNames (part : Option Symbol × Value) : List (Option String) :=
  (List.range part.2.size).map fun index =>
    let inner := ((part.2.names.bind fun names => names[index]?).join).filter fun name => name ≠ ""
    some (combinedName part.1 inner part.2.size index)

/-- The names of all elements, unless neither an actual nor an element has one. -/
def combinedNames (parts : Parts) : Option (List (Option String)) :=
  if parts.any fun part => part.1.isSome || part.2.names.isSome then
    some (parts.flatMap partNames)
  else none

/-- The elements of all parts in one vector of their common kind, with the names of parts
and elements joined. -/
def combine (arguments : Arguments) : Operation Value := do
  let parts := arguments.absorbed
  if parts.all fun part => part.2.isNull then pure .null
  else
    let names := combinedNames parts
    let named (v : Value) : Operation Value :=
      match names with
      | some names => Attempt.ofDefect (v.withNames names)
      | none => pure v
    match combinedKind parts with
    | none => Attempt.refuse (.unsupportedOperand "c" "these arguments")
    | some .null => pure .null
    | some (.atomic kind) => do
      let elements ← parts.mapM fun part => part.2.atomsAs kind
      named (.ofAtoms kind elements.flatten)
    | some _ => do
      let items ← parts.mapM fun part => part.2.items
      let id ← Operation.freshStorage
      named (.ofItems id items.flatten)

/-! ### Lists -/

/-- The actuals as the items of a list. -/
def makeList (arguments : Arguments) : Operation Value := do
  let id ← Operation.freshStorage
  pure (.ofParts id arguments.absorbed)

/-! ### Counting -/

/-- The number of elements, or the greatest integer if there are more. -/
def length (arguments : Arguments) : Operation Value := do
  let x ← arguments.required 0
  pure (.ofInteger (Int32.ofNat (min x.size 2147483647)))

/-! ### Missing elements -/

/-- Whether an atom is missing or is any other NaN. -/
def atomIsAbsent : Atom → Bool
  | ⟨.double, d⟩ => d.isNaN
  | ⟨.complex, c⟩ => c.re.isNaN || c.im.isNaN
  | a => a.isMissing

/-- Whether an element is absent. A list item is if it is a single atom that is. -/
def isAbsent : Scalar → Attempt Bool
  | .atom a => pure (atomIsAbsent a)
  | .item v =>
    if v.isVector && v.kind != .list && v.size == 1 then do
      let reading ← Attempt.ofDefect (v.get 0)
      match ← reading with
      | .atom a => pure (atomIsAbsent a)
      | .item _ => pure false
    else pure false

/-- For each element whether it is absent; a function is not. -/
def isMissing (arguments : Arguments) : Operation Value := do
  let x ← arguments.required 0
  if x.isFunction then pure (.ofBool false)
  else
    let elements ← x.elements
    let flags ← elements.mapM fun element => isAbsent element
    let result := Value.ofAtoms .logical (flags.map Logical.ofBool)
    match x.names with
    | some names => Attempt.ofDefect (result.withNames names)
    | none => pure result

end Builtin

end Vectorial
