import Vectorial.Attempt
import Vectorial.Element.Coercion
import Vectorial.Text.Quoted
import Vectorial.Value.Basic

/-!
# Reading elements

An element is read in its own kind or as an element of another kind. Reading through a
view reads its source, and every counting view on the way counts.

A list item becomes an atom if it has one element, which may again be a list item. An
item that has not becomes missing; as a text it is rendered in source form, so that
reading and rendering depend on each other.

## Main definitions

* `Value.atomAt`: an element read as a given atomic kind;
* `Value.deparse`: the source form of a value;
* `Value.element`: an element in its own kind;
* `Value.get`, `Value.atomWithin`, `View.peek`: an element at an index that is checked;
* `Value.elements`, `Value.atomsAs`, `Value.items`: all elements, read one by one;
* `View.fillAtoms`, `View.fillItems`: all elements of a view, produced at once;
* `Value.atomOf`: a whole value as one element.
-/

namespace Vectorial

/-! ### Source form -/

/-- The source form of one atom: texts are quoted, and what is missing is `NA`. -/
def Atom.deparse : Atom → String
  | ⟨.character, some text⟩ => Text.quote text
  | a => a.toText.getD "NA"

/-- The source form of an atomic vector: `c(...)`, the element alone if there is one, or
the kind with a length of zero. -/
def deparseVector (typeName : String) : List String → String
  | [] => typeName ++ "(0)"
  | [single] => single
  | parts => "c(" ++ ", ".intercalate parts ++ ")"

/-- The source form of a list. -/
def deparseList (parts : List String) : String :=
  "list(" ++ ", ".intercalate parts ++ ")"

mutual

/-- The element at an index, read as an element of `kind`. A function has itself as its
only element, and that is missing in every kind. -/
def Value.atomAt : Value → Nat → (kind : ElementKind) → Metered kind.Carrier
  | .null, _, kind => pure kind.missing
  | .vector storage _, index, kind => storage.atomAt index kind
  | .closure .., _, kind => pure kind.missing
  | .builtin .., _, kind => pure kind.missing

/-- The element of a storage at an index, read as an element of `kind`. -/
def Storage.atomAt : Storage → Nat → (kind : ElementKind) → Metered kind.Carrier
  | .atoms own elements, index, kind =>
    match elements[index]? with
    | some x => pure (Atom.asKind ⟨own, x⟩ kind)
    | none => pure kind.missing
  | .list _ items, index, kind => atomOfItem items index kind
  | .view source, index, kind => source.atomAt index kind

/-- The element of a view at an index, read as an element of `kind`. -/
def View.atomAt : View → Nat → (kind : ElementKind) → Metered kind.Carrier
  | .sequence p, index, kind => pure (Atom.asKind ⟨.integer, p.term index⟩ kind)
  | .range _, index, kind => pure (Atom.asKind ⟨.integer, UpTo.term index⟩ kind)
  | .coerce source (.atomic target), index, kind => do
    let x ← source.atomAt index target
    pure (Atom.asKind ⟨target, x⟩ kind)
  | .coerce source .null, index, kind => source.atomAt index kind
  | .coerce source .list, index, kind => source.atomAt index kind
  | .coerce source .closure, index, kind => source.atomAt index kind
  | .traced id inner, index, kind => do
    Metered.tick (.read id)
    inner.atomAt index kind

/-- The list item at an index as one element of `kind`. -/
def atomOfItem : List Value → Nat → (kind : ElementKind) → Metered kind.Carrier
  | [], _, kind => pure kind.missing
  | item :: _, 0, kind =>
    if item.size = 1 then item.atomAt 0 kind
    else match kind with
      | .character => some <$> item.deparse
      | other => pure other.missing
  | _ :: rest, index + 1, kind => atomOfItem rest index kind

/-- The source form of a value. -/
def Value.deparse : Value → Metered String
  | .null => pure "NULL"
  | .vector storage _ => storage.deparse
  | .closure layout _ => pure ("function: " ++ layout.name)
  | .builtin name _ => pure ("builtin: " ++ name)

/-- The source form of the elements of a storage. -/
def Storage.deparse : Storage → Metered String
  | .atoms kind elements =>
    pure (deparseVector kind.name (elements.map fun x => Atom.deparse ⟨kind, x⟩))
  | .list _ items => deparseList <$> deparseItems items
  | .view source =>
    match source.kind with
    | .atomic kind => do
      let parts ← (List.range source.size).mapM fun index => do
        let x ← source.atomAt index kind
        pure (Atom.deparse ⟨kind, x⟩)
      pure (deparseVector kind.name parts)
    | _ => do
      let parts ← (List.range source.size).mapM fun index => source.deparseAt index
      pure (deparseList parts)

/-- The source forms of list items. -/
def deparseItems : List Value → Metered (List String)
  | [] => pure []
  | item :: rest => do
    let first ← item.deparse
    let others ← deparseItems rest
    pure (first :: others)

/-- The source form of the element at an index, seen as a list item. -/
def Value.deparseAt : Value → Nat → Metered String
  | .null, _ => pure "NULL"
  | .vector storage _, index => storage.deparseAt index
  | .closure layout _, _ => pure ("function: " ++ layout.name)
  | .builtin name _, _ => pure ("builtin: " ++ name)

/-- The source form of the stored element at an index, seen as a list item. -/
def Storage.deparseAt : Storage → Nat → Metered String
  | .atoms kind elements, index =>
    pure ((elements[index]?.map fun x => Atom.deparse ⟨kind, x⟩).getD "NULL")
  | .list _ items, index => deparseItem items index
  | .view source, index => source.deparseAt index

/-- The source form of the computed element at an index, seen as a list item. -/
def View.deparseAt : View → Nat → Metered String
  | .sequence p, index => pure (Atom.deparse ⟨.integer, p.term index⟩)
  | .range _, index => pure (Atom.deparse ⟨.integer, UpTo.term index⟩)
  | .coerce source (.atomic target), index => do
    let x ← source.atomAt index target
    pure (Atom.deparse ⟨target, x⟩)
  | .coerce source .null, index => source.deparseAt index
  | .coerce source .list, index => source.deparseAt index
  | .coerce source .closure, index => source.deparseAt index
  | .traced id inner, index => do
    Metered.tick (.read id)
    inner.deparseAt index

/-- The source form of the list item at an index. -/
def deparseItem : List Value → Nat → Metered String
  | [], _ => pure "NULL"
  | item :: _, 0 => item.deparse
  | _ :: rest, index + 1 => deparseItem rest index

end

/-! ### Elements in their own kind -/

/-- An element as a list item: an atom becomes a vector of its own. -/
def Scalar.toItem : Scalar → Value
  | .atom a => .ofAtom a
  | .item v => v

mutual

/-- The element at an index. -/
def Value.element : Value → Nat → Metered Scalar
  | .null, _ => pure (.item .null)
  | .vector storage _, index => storage.element index
  | .closure layout env, _ => pure (.item (.closure layout env))
  | .builtin name handle, _ => pure (.item (.builtin name handle))

/-- The element of a storage at an index. -/
def Storage.element : Storage → Nat → Metered Scalar
  | .atoms kind elements, index =>
    pure (.atom ⟨kind, elements[index]?.getD kind.missing⟩)
  | .list _ items, index => pure (.item (items[index]?.getD .null))
  | .view source, index => source.element index

/-- The element of a view at an index. -/
def View.element : View → Nat → Metered Scalar
  | .sequence p, index => pure (.atom ⟨.integer, p.term index⟩)
  | .range _, index => pure (.atom ⟨.integer, UpTo.term index⟩)
  | .coerce source (.atomic target), index => do
    let x ← source.atomAt index target
    pure (.atom ⟨target, x⟩)
  | .coerce source .list, index => do
    let x ← source.element index
    pure (.item x.toItem)
  | .coerce source .null, index => source.element index
  | .coerce source .closure, index => source.element index
  | .traced id inner, index => do
    Metered.tick (.read id)
    inner.element index

end

/-- A whole value as one element of `kind`: its only element, or what a value without a
single element becomes. -/
def Value.atomOf (v : Value) (kind : ElementKind) : Metered kind.Carrier :=
  atomOfItem [v] 0 kind

/-- An element as an element of `kind`. -/
def Scalar.asKind (s : Scalar) (kind : ElementKind) : Metered kind.Carrier :=
  match s with
  | .atom a => pure (a.asKind kind)
  | .item v => v.atomOf kind

/-- An element after coercion to `kind`. It becomes an item of a list, and stays as it is
for the kinds that have no vectors. -/
def Scalar.coerce (s : Scalar) : Kind → Metered Scalar
  | .atomic kind => do
    let x ← s.asKind kind
    pure (.atom ⟨kind, x⟩)
  | .list => pure (.item s.toItem)
  | .null => pure s
  | .closure => pure s

/-- The kind of an element. -/
def Scalar.kind : Scalar → Kind
  | .atom a => .atomic a.kind
  | .item _ => .list

/-- Whether an element is missing. A list item is not, whatever it holds. -/
def Scalar.isMissing : Scalar → Bool
  | .atom a => a.isMissing
  | .item _ => false

/-! ### All elements -/

namespace Value

/-- The elements, read one by one. -/
def elements : Value → Metered (List Scalar)
  | .vector (.atoms kind elements) _ => pure (elements.map fun x => .atom ⟨kind, x⟩)
  | .vector (.list _ items) _ => pure (items.map .item)
  | v => (List.range v.size).mapM v.element

/-- The elements, read one by one as elements of `kind`. -/
def atomsAs (v : Value) (kind : ElementKind) : Metered (List kind.Carrier) :=
  match v with
  | .vector (.atoms own elements) _ => pure (elements.map fun x => Atom.asKind ⟨own, x⟩ kind)
  | v => (List.range v.size).mapM fun index => v.atomAt index kind

/-- The elements, read one by one as list items. -/
def items (v : Value) : Metered (List Value) := do
  let elements ← v.elements
  pure (elements.map Scalar.toItem)

/-- The element at an index that must be below the size. -/
def get (v : Value) (index : Nat) : Except Defect (Metered Scalar) :=
  match v with
  | .null => .error (.indexIntoNull index)
  | .vector storage _ =>
    if index < storage.size then .ok (storage.element index)
    else .error (.indexPastLength index storage.size)
  | function => if index = 0 then .ok (function.element 0) else .error (.indexIntoFunction index)

/-- The element at an index that must be below the size, read as an element of `kind`. -/
def atomWithin (v : Value) (index : Nat) (kind : ElementKind) : Attempt kind.Carrier :=
  if index < v.size then v.atomAt index kind
  else Attempt.violate (.indexPastLength index v.size)

end Value

/-- The element of a view at an index of any size. A progression goes on past its end; a
coercing view looks its source up at an index that must be below the size. -/
def View.peek : View → Nat → Except Defect (Metered Scalar)
  | .sequence p, index => do
    let i ← p.termAt index
    pure (pure (.atom ⟨.integer, i⟩))
  | .range _, index => do
    let i ← UpTo.termAt index
    pure (pure (.atom ⟨.integer, i⟩))
  | .coerce source target, index => do
    let reading ← source.get index
    pure (reading >>= fun x => x.coerce target)
  | .traced id inner, index => do
    let reading ← inner.peek index
    pure (Metered.tick (.read id) >>= fun _ => reading)

/-! ### Production at once -/

/-- All elements of a view as elements of `kind`, produced at once. A coercing view is
bypassed: its source is read in the kind that is asked for. -/
def View.fillAtoms (kind : ElementKind) : View → Metered (List kind.Carrier)
  | .sequence p => pure (p.running.map fun i => Atom.asKind ⟨.integer, i⟩ kind)
  | .range r => pure (r.terms.map fun i => Atom.asKind ⟨.integer, i⟩ kind)
  | .coerce source _ => source.atomsAs kind
  | .traced id inner => do
    Metered.tick (.fill id)
    inner.fillAtoms kind

/-- All elements of a view as list items, produced at once. -/
def View.fillItems : View → Metered (List Value)
  | .sequence p => pure (p.running.map fun i => .ofInteger i)
  | .range r => pure (r.terms.map fun i => .ofInteger i)
  | .coerce source _ => source.items
  | .traced id inner => do
    Metered.tick (.fill id)
    inner.fillItems

end Vectorial
