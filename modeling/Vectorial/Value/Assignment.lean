import Vectorial.Attempt
import Vectorial.Value.Coercion

/-!
# Assignment to an element

Assigning an element of a wider kind widens the vector first, and assigning a list item
makes it a list. The vector is then stored, whatever it was before.

## Main definitions

* `Value.kindHolding`: the kind of the vector after the assignment;
* `Value.set`: the vector with one element replaced.
-/

namespace Vectorial

namespace Value

/-- The kind of a vector that holds what `v` holds and an element of the given kind. -/
def kindHolding (v : Value) (element : Kind) : Option Kind :=
  if v.kind = .closure then none
  else if v.kind = .list || element = .list then some .list
  else v.kind.common element

/-- The stored elements with one of them replaced, kept in the storage `fresh` if they
are list items. -/
def replaceAt (fresh : StorageId) (v : Value) (index : Nat) (element : Scalar) :
    Attempt Value := do
  if v.size ≤ index then Attempt.violate (.indexPastLength index v.size)
  let stored ← v.materialize fresh
  match stored with
  | .vector (.atoms kind elements) metadata => do
    let x ← element.asKind kind
    pure (.vector (.atoms kind (elements.set index x)) metadata)
  | .vector (.list _ items) metadata =>
    pure (.vector (.list fresh (items.set index element.toItem)) metadata)
  | other => pure other

/-- The vector with the element at an index replaced. Functions cannot be assigned to. -/
def set (fresh : StorageId) (v : Value) (index : Nat) (element : Scalar) : Attempt Value :=
  match v.kindHolding element.kind with
  | none => Attempt.refuse (.unsupportedOperand "[<-" v.typeName)
  | some target => do
    if v.kind = target then v.replaceAt fresh index element
    else
      let widened ← Attempt.ofCause (v.coerceTo target)
      let stored ← widened.materialize fresh
      stored.replaceAt fresh index element

end Value

end Vectorial
