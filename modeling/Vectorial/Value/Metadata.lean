import Vectorial.Value.Basic

/-!
# Names, dimensions and attributes

What a vector carries is checked against its length when it is attached, and it stays
when the elements are read in another way. `NULL` and functions carry nothing, so that
attaching to them has no effect.

## Main definitions

* `Value.withNames`, `Value.withDims`, `Value.withAttribute`: one more thing carried;
* `Value.strip`, `Value.stripKeepNames`: everything, or everything but names, left behind.
-/

namespace Vectorial

/-- The entries with one entry set; a new name comes last. -/
def setEntry {α : Type} (name : Symbol) (value : α) : List (Symbol × α) → List (Symbol × α)
  | [] => [(name, value)]
  | entry :: rest =>
    if entry.1 = name then (name, value) :: rest else entry :: setEntry name value rest

namespace Metadata

/-- The same with other dimensions. -/
def setDims (m : Metadata) (dims : List Nat) : Metadata :=
  .mk (some dims) m.names m.attributes

/-- The same with other names. -/
def setNames (m : Metadata) (names : List (Option String)) : Metadata :=
  .mk m.dims (some names) m.attributes

/-- The same with one attribute set. -/
def setAttribute (m : Metadata) (name : Symbol) (value : Value) : Metadata :=
  .mk m.dims m.names (setEntry name value m.attributes)

/-- The value of an attribute. -/
def getAttribute (m : Metadata) (name : Symbol) : Option Value :=
  (m.attributes.find? fun entry => entry.1 == name).map Prod.snd

/-- The names alone, if there are any. -/
def namesOnly (m : Metadata) : Option Metadata :=
  m.names.map fun names => .mk none (some names) []

end Metadata

namespace Value

/-- The vector with its metadata changed; other values stay as they are. -/
def mapMetadata (change : Metadata → Metadata) : Value → Value
  | .vector storage metadata => .vector storage (some (change (metadata.getD .empty)))
  | v => v

/-- Whether a value is a vector, and so neither `NULL` nor a function. -/
def isVector : Value → Bool
  | .vector .. => true
  | _ => false

/-- The vector with names, of which there must be one for each element. -/
def withNames (v : Value) (names : List (Option String)) : Except Defect Value :=
  if v.isVector && names.length != v.size then .error .namesMismatch
  else .ok (v.mapMetadata (·.setNames names))

/-- How many elements a vector with the dimensions has. -/
def extent (dims : List Nat) : Nat :=
  dims.foldr (· * ·) 1

/-- The vector with dimensions, which must be positive and have the length as their
product. -/
def withDims (v : Value) (dims : List Nat) : Except Defect Value :=
  if !v.isVector then .ok v
  else if dims.contains 0 then .error (.dimensionNotPositive dims)
  else if Nat.pow 2 64 ≤ extent dims then .error (.dimensionsOverflow dims)
  else if extent dims ≠ v.size then .error (.dimensionsMismatch dims v.size)
  else .ok (v.mapMetadata (·.setDims dims))

/-- The vector with an attribute. -/
def withAttribute (v : Value) (name : Symbol) (value : Value) : Value :=
  v.mapMetadata (·.setAttribute name value)

/-- The elements alone. -/
def strip : Value → Value
  | .vector storage _ => .vector storage none
  | v => v

/-- The elements with their names. -/
def stripKeepNames : Value → Value
  | .vector storage metadata => .vector storage (metadata.bind Metadata.namesOnly)
  | v => v

end Value

end Vectorial
