import Vectorial.EvalError
import Vectorial.Value.Reading

/-!
# Coercion of values

A value is brought to another kind without reading it: the result is a view that reads
each element as an element of the other kind when it is asked for. Nothing is wrapped
when the kind is already right.

## Main definitions

* `Value.coerceTo`: a value as a value of another kind;
* `Value.materialize`: the stored vector with the same elements;
* `Value.produce`: the elements of a stored vector made from a value read as another kind;
* `Value.traced`: a view behind counters.
-/

namespace Vectorial

/-- The storage that all empty lists may share. -/
def emptyStorage : StorageId :=
  0

namespace Value

/-- The elements read as elements of another kind on demand. What the vector carries
stays. -/
def viewedAs (v : Value) (kind : Kind) : Value :=
  match v with
  | .vector storage metadata =>
    .vector (.view (.coerce (.vector storage metadata) kind)) metadata
  | v => v

/-- A value as a vector of a kind that has vectors. `NULL` is an empty vector and a
function is none. -/
def toVector (v : Value) (kind : Kind) (empty : Value) : Except Cause Value :=
  if v.kind = kind then .ok v
  else if v.isNull then .ok empty
  else if v.isFunction then .error (.unsupportedOperand ("as." ++ kind.name) v.typeName)
  else .ok (v.viewedAs kind)

/-- A value as a value of `kind`. Only a function is one of kind closure. -/
def coerceTo (v : Value) : Kind → Except Cause Value
  | .null => .ok .null
  | .atomic kind => v.toVector (.atomic kind) (.ofAtoms kind [])
  | .list => v.toVector .list (.ofItems emptyStorage [])
  | .closure =>
    if v.isFunction then .ok v else .error (.unsupportedOperand "as.function" v.typeName)

/-- The stored vector with the same elements, kept in the storage `fresh` if it is a list
that has to be made. A stored vector is left as it is. -/
def materialize (fresh : StorageId) : Value → Metered Value
  | .vector (.view source) metadata =>
    match source.kind with
    | .atomic kind => do
      let elements ← source.fillAtoms kind
      pure (.vector (.atoms kind elements) metadata)
    | _ => do
      let items ← source.fillItems
      pure (.vector (.list fresh items) metadata)
  | v => pure v

/-- The elements of the stored vector that a value read as `kind` amounts to. A view that
has this kind already is produced at once; everything else is read one by one. -/
def produce (kind : ElementKind) (v : Value) : Metered (List kind.Carrier) :=
  match v with
  | .vector (.view source) _ =>
    if source.kind = .atomic kind then source.fillAtoms kind else v.atomsAs kind
  | v => v.atomsAs kind

/-- Whether counters can be put in front of a value: it is a view that has none. -/
def isUntraced (v : Value) : Bool :=
  v.isView && v.traceId.isNone

/-- The view behind the counters `fresh`. Stored vectors and views that have counters are
left as they are. -/
def traced (fresh : TraceId) : Value → Value
  | .vector (.view (.traced id inner)) metadata => .vector (.view (.traced id inner)) metadata
  | .vector (.view source) metadata => .vector (.view (.traced fresh source)) metadata
  | v => v

end Value

end Vectorial
