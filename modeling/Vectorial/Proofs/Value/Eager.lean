import Vectorial.Run
import Vectorial.Value.Coercion
import Vectorial.Value.Metadata

/-!
# Values without views

A value whose vectors are plain lists: nothing is computed on demand, so reading and
materializing have nothing to do. Coercion to a kind that has vectors takes each element to
that kind, one by one and at once.

These values say what values with views are supposed to show. Their operations are written
without any thought of storage, counters or the order of reads.

## Main definitions

* `Eager`, `Cell`, `Extras`: values, their elements, and what vectors carry beside them;
* `Cell.asKind`, `Cell.coerce`: an element as an element of another kind;
* `Eager.coerceTo`, `Eager.set`, `Eager.withNames` and so on: the operations.
-/

namespace Vectorial

/-- Whether there are vectors of a kind. -/
def Kind.HasVectors (kind : Kind) : Prop :=
  kind ≠ .null ∧ kind ≠ .closure

theorem Kind.hasVectors_atomic (kind : ElementKind) : (Kind.atomic kind).HasVectors :=
  ⟨nofun, nofun⟩

theorem Kind.hasVectors_list : Kind.list.HasVectors :=
  ⟨nofun, nofun⟩

mutual

/-- A value. -/
inductive Eager where
  | null
  | vector (kind : Kind) (cells : List Cell) (extras : Extras)
  | closure (layout : Layout) (env : FrameId)
  | builtin (name : Symbol) (index : Nat)

/-- One element of a vector. -/
inductive Cell where
  | atom (atom : Atom)
  | item (value : Eager)

/-- What a vector carries beside its elements. -/
inductive Extras where
  | mk (dims : Option (List Nat)) (names : Option (List (Option String)))
      (attributes : List (Symbol × Eager))

end

namespace Extras

/-- No dimensions, names or attributes. -/
def empty : Extras :=
  .mk none none []

/-- The dimensions. -/
def dims : Extras → Option (List Nat)
  | .mk dims _ _ => dims

/-- The names of the elements. -/
def names : Extras → Option (List (Option String))
  | .mk _ names _ => names

/-- The attributes. -/
def attributes : Extras → List (Symbol × Eager)
  | .mk _ _ attributes => attributes

variable (extras : Extras)

/-- The same with other dimensions. -/
def setDims (dims : List Nat) : Extras :=
  .mk (some dims) extras.names extras.attributes

/-- The same with other names. -/
def setNames (names : List (Option String)) : Extras :=
  .mk extras.dims (some names) extras.attributes

/-- The same with one attribute set. -/
def setAttribute (name : Symbol) (value : Eager) : Extras :=
  .mk extras.dims extras.names (setEntry name value extras.attributes)

/-- The names alone. -/
def namesOnly : Extras :=
  .mk none extras.names []

end Extras

/-! ### Shape -/

namespace Eager

/-- The kind of a value. -/
def kind : Eager → Kind
  | null => .null
  | vector kind _ _ => kind
  | closure .. => .closure
  | builtin .. => .closure

/-- The name of a value's type. -/
def typeName : Eager → String
  | builtin .. => "builtin"
  | other => other.kind.name

/-- The elements; a function is its own only element. -/
def cells : Eager → List Cell
  | null => []
  | vector _ cells _ => cells
  | closure layout env => [.item (closure layout env)]
  | builtin name index => [.item (builtin name index)]

/-- The number of elements. -/
def size (v : Eager) : Nat :=
  v.cells.length

/-- Whether a value can be called. -/
def isFunction : Eager → Bool
  | closure .. => true
  | builtin .. => true
  | _ => false

/-- A vector that carries nothing. -/
def ofCells (kind : Kind) (cells : List Cell) : Eager :=
  vector kind cells .empty

/-- A vector of atoms. -/
def ofAtoms (kind : ElementKind) (elements : List kind.Carrier) : Eager :=
  ofCells (.atomic kind) (elements.map fun x => .atom ⟨kind, x⟩)

end Eager

/-! ### Elements -/

mutual

/-- The source form of a value. -/
def Eager.deparse : Eager → String
  | .null => "NULL"
  | .vector (.atomic kind) cells _ => deparseVector kind.name (deparseCells cells)
  | .vector _ cells _ => deparseList (deparseCells cells)
  | .closure layout _ => "function: " ++ layout.name
  | .builtin name _ => "builtin: " ++ name

/-- The source form of an element. -/
def Cell.deparse : Cell → String
  | .atom a => a.deparse
  | .item v => v.deparse

/-- The source forms of elements. -/
def deparseCells : List Cell → List String
  | [] => []
  | cell :: rest => cell.deparse :: deparseCells rest

end

/-- What a value without a single element becomes: a text renders it. -/
def Eager.rendered (v : Eager) : (kind : ElementKind) → kind.Carrier
  | .character => some v.deparse
  | other => other.missing

mutual

/-- A value as one element: its only element, if it has one. A function is missing. -/
def Eager.asOne : Eager → (kind : ElementKind) → kind.Carrier
  | .null, kind => Eager.null.rendered kind
  | .vector own cells extras, kind =>
    (onlyCell cells kind).getD ((Eager.vector own cells extras).rendered kind)
  | .closure .., kind => kind.missing
  | .builtin .., kind => kind.missing

/-- An element as an element of `kind`. -/
def Cell.asKind : Cell → (kind : ElementKind) → kind.Carrier
  | .atom a, kind => a.asKind kind
  | .item v, kind => v.asOne kind

/-- The only one of some elements as an element of `kind`. -/
def onlyCell : List Cell → (kind : ElementKind) → Option kind.Carrier
  | [], _ => none
  | cell :: rest, kind => if rest.isEmpty then some (cell.asKind kind) else none

end

namespace Cell

/-- An element as a list item: an atom becomes a vector of its own. -/
def toItem : Cell → Eager
  | atom a => .ofCells (.atomic a.kind) [atom a]
  | item v => v

/-- The kind of an element. -/
def kind : Cell → Kind
  | atom a => .atomic a.kind
  | item _ => .list

/-- An element after coercion. It stays as it is for the kinds that have no vectors. -/
def coerce (cell : Cell) : Kind → Cell
  | .atomic kind => .atom ⟨kind, cell.asKind kind⟩
  | .list => .item cell.toItem
  | .null => cell
  | .closure => cell

end Cell

/-! ### Operations -/

namespace Eager

/-- The refusal of an operator. -/
def refuse {α : Type} (op description : String) : Except Stop α :=
  .error (.error { cause := .unsupportedOperand op description })

/-- The terms of a progression. -/
def sequence (start stop step : Int32) : Except Stop Eager :=
  match Progression.of start stop step with
  | .ok p => .ok (ofAtoms .integer ((List.range p.size).map p.term))
  | .error defect => .error (.defect defect)

/-- The whole numbers from one to `stop`. -/
def upTo (stop : Int32) : Except Stop Eager :=
  match UpTo.of stop with
  | .ok r => .ok (ofAtoms .integer ((List.range r.size).map UpTo.term))
  | .error defect => .error (.defect defect)

/-- A vector of zeros. -/
def zeroed (kind : Kind) (length : Nat) : Except Stop Eager :=
  if Nat.pow 2 63 ≤ length * kind.width then .error (.defect .capacityOverflow)
  else match kind with
    | .atomic kind => .ok (ofAtoms kind (List.replicate length kind.zero))
    | .list => .ok (ofCells .list (List.replicate length (.item null)))
    | .null => .ok null
    | .closure => .ok null

/-- The elements taken to another kind, one by one. -/
def toVector (v : Eager) (kind : Kind) : Except Stop Eager :=
  match v with
  | null => .ok (ofCells kind [])
  | vector _ cells extras => .ok (vector kind (cells.map fun cell => cell.coerce kind) extras)
  | function => refuse ("as." ++ kind.name) function.typeName

/-- A value as a value of another kind. -/
def coerceTo (v : Eager) : Kind → Except Stop Eager
  | .null => .ok null
  | .atomic kind => v.toVector (.atomic kind)
  | .list => v.toVector .list
  | .closure => if v.isFunction then .ok v else refuse "as.function" v.typeName

/-- The element at an index that must be below the size. -/
def get (v : Eager) (index : Nat) : Except Stop Cell :=
  match v with
  | null => .error (.defect (.indexIntoNull index))
  | vector _ cells _ =>
    match cells[index]? with
    | some cell => .ok cell
    | none => .error (.defect (.indexPastLength index cells.length))
  | function =>
    if index = 0 then .ok (.item function) else .error (.defect (.indexIntoFunction index))

/-- The kind of a vector that holds what a value of kind `own` holds and an element. -/
def kindHolding (own element : Kind) : Option Kind :=
  if own = .closure then none
  else if own = .list ∨ element = .list then some .list
  else own.common element

/-- The value with the element at an index replaced, as a vector that can hold it. -/
def set (v : Eager) (index : Nat) (element : Cell) : Except Stop Eager :=
  match kindHolding v.kind element.kind with
  | none => refuse "[<-" v.typeName
  | some target => do
    match ← v.coerceTo target with
    | vector kind cells extras =>
      if cells.length ≤ index then .error (.defect (.indexPastLength index cells.length))
      else .ok (vector kind (cells.set index (element.coerce target)) extras)
    | other => .error (.defect (.indexPastLength index other.size))

/-- The value with what it carries changed; `NULL` and functions carry nothing. -/
def mapExtras (change : Extras → Extras) : Eager → Eager
  | vector kind cells extras => vector kind cells (change extras)
  | v => v

/-- The vector with names, one for each element. -/
def withNames (v : Eager) (names : List (Option String)) : Except Stop Eager :=
  match v with
  | vector _ cells _ =>
    if names.length = cells.length then .ok (v.mapExtras (·.setNames names))
    else .error (.defect .namesMismatch)
  | v => .ok v

/-- The vector with dimensions, whose product is the length. -/
def withDims (v : Eager) (dims : List Nat) : Except Stop Eager :=
  match v with
  | vector _ cells _ =>
    if 0 ∈ dims then .error (.defect (.dimensionNotPositive dims))
    else if Nat.pow 2 64 ≤ Value.extent dims then .error (.defect (.dimensionsOverflow dims))
    else if Value.extent dims = cells.length then .ok (v.mapExtras (·.setDims dims))
    else .error (.defect (.dimensionsMismatch dims cells.length))
  | v => .ok v

/-- The vector with an attribute. -/
def withAttribute (v : Eager) (name : Symbol) (value : Eager) : Eager :=
  v.mapExtras (·.setAttribute name value)

/-- The elements alone. -/
def strip (v : Eager) : Eager :=
  v.mapExtras fun _ => .empty

/-- The elements with their names. -/
def stripKeepNames (v : Eager) : Eager :=
  v.mapExtras (·.namesOnly)

end Eager

end Vectorial
