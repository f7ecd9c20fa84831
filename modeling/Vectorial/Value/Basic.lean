import Vectorial.Element.Basic
import Vectorial.Metered
import Vectorial.Scope.Layout
import Vectorial.Value.Progression

/-!
# Values

A value is `NULL`, a vector, a closure or the handle of a builtin. The elements of a
vector are stored, or computed on demand by a view: a progression, another value read as
another kind, or either of these behind counters. A closure holds its frame by number,
so values are finite trees even where frames and closures refer to each other.

A stored list has an identity, which copies of the list share. It tells how many values
hold one storage, which is all that is ever asked about it.

## Main definitions

* `Value`, `Storage`, `View`, `Metadata`: values and their parts;
* `Scalar`: one element of a vector, an atom or a list item;
* `Value.kind`, `Value.size`, `Value.typeName`: what a value is, without reading it;
* `Value.ofAtoms`, `Value.ofAtom`, `Value.zeroed`: stored vectors.
-/

namespace Vectorial

/-- The number of a frame. -/
abbrev FrameId := Nat

/-- The identity of a stored list. -/
abbrev StorageId := Nat

mutual

/-- A value. -/
inductive Value where
  | null
  | vector (storage : Storage) (metadata : Option Metadata)
  | closure (layout : Layout) (env : FrameId)
  | builtin (name : Symbol) (index : Nat)

/-- Where the elements of a vector come from. -/
inductive Storage where
  /-- Stored atoms of one kind. -/
  | atoms (kind : ElementKind) (elements : List kind.Carrier)
  /-- Stored list items. -/
  | list (id : StorageId) (items : List Value)
  /-- Elements computed on demand. -/
  | view (view : View)

/-- A source of elements computed on demand. -/
inductive View where
  /-- The terms of a progression. -/
  | sequence (progression : Progression)
  /-- The whole numbers from one on. -/
  | range (upTo : UpTo)
  /-- The elements of `source`, each read as `target`. -/
  | coerce (source : Value) (target : Kind)
  /-- Another view, with its reads counted. -/
  | traced (id : TraceId) (inner : View)

/-- What a vector carries beside its elements. -/
inductive Metadata where
  | mk (dims : Option (List Nat)) (names : Option (List (Option String)))
      (attributes : List (Symbol × Value))

end

/-- Values that may have names, such as the actuals of a call. -/
abbrev Parts := List (Option Symbol × Value)

/-- One element of a vector: an atom, or the item of a list. -/
inductive Scalar where
  | atom (atom : Atom)
  | item (value : Value)

namespace Metadata

/-- No dimensions, names or attributes. -/
def empty : Metadata :=
  .mk none none []

/-- The dimensions. -/
def dims : Metadata → Option (List Nat)
  | .mk dims _ _ => dims

/-- The names of the elements. -/
def names : Metadata → Option (List (Option String))
  | .mk _ names _ => names

/-- The attributes, in order of first attachment. -/
def attributes : Metadata → List (Symbol × Value)
  | .mk _ _ attributes => attributes

/-- Whether nothing is carried. -/
def isEmpty (m : Metadata) : Bool :=
  m.dims.isNone && m.names.isNone && m.attributes.isEmpty

end Metadata

/-! ### Kind -/

/-- The kind of the elements that a view computes. -/
def View.kind : View → Kind
  | .sequence _ => .atomic .integer
  | .range _ => .atomic .integer
  | .coerce _ target => target
  | .traced _ inner => inner.kind

/-- The kind of the elements of a storage. -/
def Storage.kind : Storage → Kind
  | .atoms kind _ => .atomic kind
  | .list .. => .list
  | .view source => source.kind

/-- The kind of a value. -/
def Value.kind : Value → Kind
  | .null => .null
  | .vector storage _ => storage.kind
  | .closure .. => .closure
  | .builtin .. => .closure

/-! ### Size -/

mutual

/-- The number of elements; a function counts as one. -/
def Value.size : Value → Nat
  | .null => 0
  | .vector storage _ => storage.size
  | .closure .. => 1
  | .builtin .. => 1

/-- The number of elements of a storage. -/
def Storage.size : Storage → Nat
  | .atoms _ elements => elements.length
  | .list _ items => items.length
  | .view source => source.size

/-- The number of elements that a view computes. -/
def View.size : View → Nat
  | .sequence progression => progression.size
  | .range upTo => upTo.size
  | .coerce source _ => source.size
  | .traced _ inner => inner.size

end

namespace Value

/-! ### What a value is -/

/-- The name of a value's type: its kind, except that builtins have a name of their
own. -/
def typeName : Value → String
  | .builtin .. => "builtin"
  | other => other.kind.name

/-- Whether a value is `NULL`. -/
def isNull : Value → Bool
  | .null => true
  | _ => false

/-- Whether a value can be called. -/
def isFunction : Value → Bool
  | .closure .. => true
  | .builtin .. => true
  | _ => false

/-- Whether the elements of a value are computed on demand. -/
def isView : Value → Bool
  | .vector (.view _) _ => true
  | _ => false

/-- What a vector carries beside its elements. -/
def metadata : Value → Option Metadata
  | .vector _ metadata => metadata
  | _ => none

/-- The names of the elements. -/
def names (v : Value) : Option (List (Option String)) :=
  v.metadata.bind Metadata.names

/-- The counters of a counting view; those of a view further in are not its own. -/
def traceId : Value → Option TraceId
  | .vector (.view (.traced id _)) _ => some id
  | _ => none

/-! ### Stored vectors -/

/-- A vector of stored atoms. -/
def ofAtoms (kind : ElementKind) (elements : List kind.Carrier) : Value :=
  .vector (.atoms kind elements) none

/-- A vector of one atom. -/
def ofAtom (a : Atom) : Value :=
  ofAtoms a.kind [a.value]

/-- One integer. -/
def ofInteger (i : Int32) : Value :=
  ofAtoms .integer [i]

/-- One truth value. -/
def ofBool (b : Bool) : Value :=
  ofAtoms .logical [Logical.ofBool b]

/-- One text. -/
def ofText (text : String) : Value :=
  ofAtoms .character [some text]

/-- A list with a storage of its own. -/
def ofItems (id : StorageId) (items : List Value) : Value :=
  .vector (.list id items) none

/-- A list with names, the empty text standing for none. -/
def ofNamedItems (id : StorageId) (parts : Parts) : Value :=
  .vector (.list id (parts.map Prod.snd))
    (some (.mk none (some (parts.map fun part => some (part.1.getD ""))) []))

/-- A list of values, with names as soon as one of them has one. -/
def ofParts (id : StorageId) (parts : Parts) : Value :=
  if parts.any fun part => part.1.isSome then ofNamedItems id parts
  else ofItems id (parts.map Prod.snd)

/-- A vector of `length` zeros, a list of `length` times `NULL`; `NULL` for the kinds
that have no vectors. -/
def zeroed (id : StorageId) (kind : Kind) (length : Nat) : Value :=
  match kind with
  | .atomic kind => ofAtoms kind (List.replicate length kind.zero)
  | .list => ofItems id (List.replicate length .null)
  | .null => .null
  | .closure => .null

/-- The terms of a progression, computed on demand. -/
def sequence (start stop step : Int32) : Except Defect Value :=
  (Progression.of start stop step).map fun p => .vector (.view (.sequence p)) none

/-- The whole numbers from one to `stop`, computed on demand. -/
def upTo (stop : Int32) : Except Defect Value :=
  (UpTo.of stop).map fun r => .vector (.view (.range r)) none

end Value

instance : Inhabited Value :=
  ⟨.null⟩

end Vectorial
