import Vectorial.Proofs.Value.Eager

/-!
# What a value denotes

Every value denotes a value without views: a progression denotes its terms, a coercing view
the elements of its source taken to its kind, and counters denote nothing. Whatever way an
element is read, it is the element of the denotation.

An element of a list may be read as a text, which renders it in source form, and rendering
reads elements. The statements about reading and about rendering are therefore proved
together, along the structure of the value.

## Main definitions

* `Value.eager`: what a value denotes;
* `Scalar.cell`: what an element denotes.

## Main results

* `Value.size_eq`: the number of elements;
* `Value.atomAt_eq`, `Value.element_eq`: elements read in another kind and in their own;
* `Value.deparse_eq`: the source form.
-/

namespace Vectorial

mutual

/-- The value without views that a value denotes. -/
def Value.eager : Value → Eager
  | .null => .null
  | .vector storage metadata => .vector storage.kind storage.cells (extrasOf metadata)
  | .closure layout env => .closure layout env
  | .builtin name index => .builtin name index

/-- The elements of a storage. -/
def Storage.cells : Storage → List Cell
  | .atoms kind elements => elements.map fun x => .atom ⟨kind, x⟩
  | .list _ items => cellsOfItems items
  | .view source => source.cells

/-- The elements of a view. -/
def View.cells : View → List Cell
  | .sequence p => (List.range p.size).map fun index => .atom ⟨.integer, p.term index⟩
  | .range r => (List.range r.size).map fun index => .atom ⟨.integer, UpTo.term index⟩
  | .coerce source target => source.eager.cells.map fun cell => cell.coerce target
  | .traced _ inner => inner.cells

/-- List items as elements. -/
def cellsOfItems : List Value → List Cell
  | [] => []
  | item :: rest => .item item.eager :: cellsOfItems rest

/-- What is carried, none of it being nothing. -/
def extrasOf : Option Metadata → Extras
  | none => .empty
  | some (.mk dims names attributes) => .mk dims names (eagerAttributes attributes)

/-- Attributes with what their values denote. -/
def eagerAttributes : List (Symbol × Value) → List (Symbol × Eager)
  | [] => []
  | (name, value) :: rest => (name, value.eager) :: eagerAttributes rest

end

/-- What an element denotes. -/
def Scalar.cell : Scalar → Cell
  | .atom a => .atom a
  | .item v => .item v.eager

theorem cellsOfItems_eq (items : List Value) :
    cellsOfItems items = items.map fun item => .item item.eager := by
  induction items with
  | nil => rfl
  | cons item rest ih => rw [cellsOfItems, ih, List.map_cons]

theorem eagerAttributes_eq (attributes : List (Symbol × Value)) :
    eagerAttributes attributes = attributes.map fun entry => (entry.1, entry.2.eager) := by
  induction attributes with
  | nil => rfl
  | cons entry rest ih => rw [eagerAttributes, ih, List.map_cons]

theorem deparseCells_eq (cells : List Cell) : deparseCells cells = cells.map Cell.deparse := by
  induction cells with
  | nil => rfl
  | cons cell rest ih => rw [deparseCells, ih, List.map_cons]

/-! ### Shape -/

@[simp]
theorem Value.kind_eager (v : Value) : v.eager.kind = v.kind := by
  cases v <;> rfl

@[simp]
theorem Value.typeName_eager (v : Value) : v.eager.typeName = v.typeName := by
  cases v <;> rfl

mutual

/-- The size is the number of elements. -/
theorem Value.size_eq : ∀ v : Value, v.size = v.eager.cells.length
  | .null => rfl
  | .vector storage _ => storage.size_eq
  | .closure .. => rfl
  | .builtin .. => rfl

theorem Storage.size_eq : ∀ storage : Storage, storage.size = storage.cells.length
  | .atoms _ elements => by rw [Storage.size, Storage.cells, List.length_map]
  | .list _ items => by rw [Storage.size, Storage.cells, cellsOfItems_eq, List.length_map]
  | .view source => source.size_eq

theorem View.size_eq : ∀ view : View, view.size = view.cells.length
  | .sequence _ => by rw [View.size, View.cells, List.length_map, List.length_range]
  | .range _ => by rw [View.size, View.cells, List.length_map, List.length_range]
  | .coerce source _ => by rw [View.size, View.cells, List.length_map, source.size_eq]
  | .traced _ inner => inner.size_eq

end

@[simp]
theorem Value.size_eager (v : Value) : v.eager.size = v.size :=
  v.size_eq.symm

/-! ### Elements of the right kind -/

namespace Cell

theorem kind_coerce {kind : Kind} (cell : Cell) (vectors : kind.HasVectors) :
    (cell.coerce kind).kind = kind := by
  cases kind with
  | atomic kind => rfl
  | list => rfl
  | null => exact absurd rfl vectors.1
  | closure => exact absurd rfl vectors.2

theorem hasVectors_kind (cell : Cell) : cell.kind.HasVectors := by
  cases cell with
  | atom a => exact Kind.hasVectors_atomic a.kind
  | item v => exact Kind.hasVectors_list

/-- Coercion to its own kind leaves an element as it is. -/
theorem coerce_kind (cell : Cell) : cell.coerce cell.kind = cell := by
  cases cell with
  | atom a => rw [kind, coerce, asKind, Atom.asKind_self]
  | item v => rfl

/-- An element becomes an atom in the same way alone and as a list item. -/
theorem asOne_toItem (cell : Cell) (kind : ElementKind) :
    cell.toItem.asOne kind = cell.asKind kind := by
  cases cell with
  | atom a => rfl
  | item v => rfl

theorem deparse_toItem (cell : Cell) : cell.toItem.deparse = cell.deparse := by
  cases cell with
  | atom a => rfl
  | item v => rfl

end Cell

@[simp]
theorem Value.eager_ofAtom (a : Atom) : (Value.ofAtom a).eager = Cell.toItem (.atom a) :=
  rfl

@[simp]
theorem Scalar.eager_toItem (s : Scalar) : s.toItem.eager = s.cell.toItem := by
  cases s <;> rfl

@[simp]
theorem Scalar.kind_cell (s : Scalar) : s.cell.kind = s.kind := by
  cases s <;> rfl

/-- The elements of a view are of the kind of the view, if this kind has vectors. -/
theorem View.kind_of_mem_cells {cell : Cell} : ∀ view : View,
    view.kind.HasVectors → cell ∈ view.cells → cell.kind = view.kind
  | .sequence _, _, member => by
    obtain ⟨index, _, rfl⟩ := List.mem_map.mp member
    rfl
  | .range _, _, member => by
    obtain ⟨index, _, rfl⟩ := List.mem_map.mp member
    rfl
  | .coerce source target, vectors, member => by
    obtain ⟨before, _, rfl⟩ := List.mem_map.mp member
    exact before.kind_coerce vectors
  | .traced _ inner, vectors, member => inner.kind_of_mem_cells vectors member

theorem Storage.kind_of_mem_cells {cell : Cell} (storage : Storage)
    (vectors : storage.kind.HasVectors) (member : cell ∈ storage.cells) :
    cell.kind = storage.kind := by
  cases storage with
  | atoms kind elements =>
    obtain ⟨x, _, rfl⟩ := List.mem_map.mp member
    rfl
  | list id items =>
    rw [Storage.cells, cellsOfItems_eq] at member
    obtain ⟨item, _, rfl⟩ := List.mem_map.mp member
    rfl
  | view source => exact source.kind_of_mem_cells vectors member

/-! ### Reading and rendering -/

/-- Reading at all indexes is reading all elements. -/
theorem map_range_eq {α : Type} {cells : List Cell} {size : Nat} {read : Nat → α}
    {show' : Cell → α} (size_eq : size = cells.length)
    (reads : ∀ index cell, cells[index]? = some cell → read index = show' cell) :
    (List.range size).map read = cells.map show' := by
  subst size_eq
  refine List.ext_getElem (by simp) fun index first second => ?_
  have inside : index < cells.length := by simpa using second
  rw [List.getElem_map, List.getElem_map, List.getElem_range]
  exact reads index _ (List.getElem?_eq_getElem inside)

theorem eq_of_getElem?_map_range {α : Type} {f : Nat → α} {size index : Nat} {a : α}
    (found : ((List.range size).map f)[index]? = some a) : a = f index := by
  rw [List.getElem?_map] at found
  obtain ⟨number, inside, rfl⟩ := Option.map_eq_some_iff.mp found
  obtain ⟨_, same⟩ := List.getElem?_eq_some_iff.mp inside
  rw [List.getElem_range] at same
  rw [same]

/-- An atom that is read from an element of the same kind is the element. -/
theorem Cell.deparse_asKind {cell : Cell} {kind : ElementKind} (same : cell.kind = .atomic kind) :
    Atom.deparse ⟨kind, cell.asKind kind⟩ = cell.deparse := by
  have unchanged := cell.coerce_kind
  rw [same] at unchanged
  exact congrArg Cell.deparse unchanged

/-- A value with a single element becomes what this becomes. -/
theorem Eager.asOne_of_cells {v : Eager} {cell : Cell} (kind : ElementKind)
    (single : v.cells = [cell]) : v.asOne kind = cell.asKind kind := by
  cases v with
  | null => cases single
  | vector own cells extras =>
    change cells = [cell] at single
    rw [single, asOne]
    rfl
  | closure layout env =>
    cases single
    rfl
  | builtin name index =>
    cases single
    rfl

theorem Eager.asOne_of_size {v : Eager} (kind : ElementKind) (several : v.size ≠ 1) :
    v.asOne kind = v.rendered kind := by
  cases v with
  | null => rfl
  | vector own cells extras =>
    have none_single : onlyCell cells kind = none := by
      cases cells with
      | nil => rfl
      | cons cell rest =>
        cases rest with
        | nil => exact absurd rfl several
        | cons second rest => rfl
    rw [asOne, none_single, Option.getD_none]
  | closure layout env => exact absurd rfl several
  | builtin name index => exact absurd rfl several

/-- What an item becomes follows from its element and its source form. -/
theorem atomOfItem_head {item : Value} {rest : List Value} (kind : ElementKind)
    (reads : ∀ cell, item.eager.cells[0]? = some cell →
      (item.atomAt 0 kind).value = cell.asKind kind)
    (renders : item.deparse.value = item.eager.deparse) :
    (atomOfItem (item :: rest) 0 kind).value = item.eager.asOne kind := by
  -- Only an item of one element is read; of all others a text shows the source form, and every
  -- other kind is missing.
  by_cases single : item.size = 1
  · have read : atomOfItem (item :: rest) 0 kind = item.atomAt 0 kind := by
      cases kind <;> simp [atomOfItem, single]
    rw [item.size_eq] at single
    obtain ⟨cell, only⟩ := List.length_eq_one_iff.mp single
    rw [read, Eager.asOne_of_cells kind only]
    exact reads cell (by rw [only]; rfl)
  · rw [Eager.asOne_of_size kind (by rwa [item.size_eager])]
    cases kind with
    | character =>
      have read : atomOfItem (item :: rest) 0 .character = some <$> item.deparse := by
        simp [atomOfItem, single]
      rw [read, Metered.value_map, renders]
      rfl
    | _ => simp [atomOfItem, single, Eager.rendered]

theorem Eager.deparse_atomic (kind : ElementKind) (cells : List Cell) (extras : Extras) :
    (Eager.vector (.atomic kind) cells extras).deparse =
      deparseVector kind.name (cells.map Cell.deparse) := by
  rw [Eager.deparse, deparseCells_eq]

theorem Eager.deparse_other {kind : Kind} (other : ∀ element, kind ≠ .atomic element)
    (cells : List Cell) (extras : Extras) :
    (Eager.vector kind cells extras).deparse = deparseList (cells.map Cell.deparse) := by
  cases kind with
  | atomic element => exact absurd rfl (other element)
  | _ => rw [Eager.deparse, deparseCells_eq]; simp

/-- The source form of a view follows from its elements and their source forms. -/
theorem Storage.deparse_view (source : View) (extras : Extras)
    (reads : ∀ kind index cell, source.cells[index]? = some cell →
      (source.atomAt index kind).value = cell.asKind kind)
    (renders : ∀ index cell, source.cells[index]? = some cell →
      (source.deparseAt index).value = cell.deparse) :
    (Storage.view source).deparse.value =
      (Eager.vector source.kind source.cells extras).deparse := by
  -- The elements of an atomic view are converted and rendered as atoms, those of a list as they
  -- stand behind the view.
  by_cases atomic : ∃ kind, source.kind = .atomic kind
  · obtain ⟨kind, same⟩ := atomic
    have parts : ((List.range source.size).mapM fun index => do
          let x ← source.atomAt index kind
          pure (Atom.deparse ⟨kind, x⟩)).value = source.cells.map Cell.deparse := by
      rw [Metered.value_mapM]
      refine map_range_eq source.size_eq fun index cell found => ?_
      rw [Metered.value_bind, Metered.value_pure, reads kind index cell found]
      refine Cell.deparse_asKind ?_
      rw [← same]
      exact source.kind_of_mem_cells (same ▸ Kind.hasVectors_atomic kind)
        (List.mem_of_getElem? found)
    rw [same, Eager.deparse_atomic]
    simp only [Storage.deparse, same, Metered.value_bind, parts, Metered.value_pure]
  · have parts : ((List.range source.size).mapM fun index =>
        source.deparseAt index).value = source.cells.map Cell.deparse := by
      rw [Metered.value_mapM]
      exact map_range_eq source.size_eq renders
    rw [Eager.deparse_other fun kind same => atomic ⟨kind, same⟩]
    cases same : source.kind with
    | atomic kind => exact absurd ⟨kind, same⟩ atomic
    | _ => simp only [Storage.deparse, same, Metered.value_bind, parts, Metered.value_pure]

mutual

/-- An element read in another kind is the element of the denotation in this kind. -/
theorem Value.atomAt_eq : ∀ (v : Value) {index : Nat} {cell : Cell},
    v.eager.cells[index]? = some cell → ∀ kind, (v.atomAt index kind).value = cell.asKind kind
  | .vector storage _, _, _, found, kind => storage.atomAt_eq found kind
  | .closure .., 0, _, found, kind => by
    cases found
    rfl
  | .builtin .., 0, _, found, kind => by
    cases found
    rfl

theorem Storage.atomAt_eq : ∀ (storage : Storage) {index : Nat} {cell : Cell},
    storage.cells[index]? = some cell →
    ∀ kind, (storage.atomAt index kind).value = cell.asKind kind
  | .atoms own elements, index, cell, found, kind => by
    rw [Storage.cells, List.getElem?_map] at found
    obtain ⟨x, stored, rfl⟩ := Option.map_eq_some_iff.mp found
    rw [Storage.atomAt, stored]
    rfl
  | .list _ items, _, _, found, kind => atomOfItem_eq items found kind
  | .view source, _, _, found, kind => source.atomAt_eq found kind

theorem View.atomAt_eq : ∀ (view : View) {index : Nat} {cell : Cell},
    view.cells[index]? = some cell → ∀ kind, (view.atomAt index kind).value = cell.asKind kind
  | .sequence _, _, _, found, _ => by
    rw [eq_of_getElem?_map_range found]
    rfl
  | .range _, _, _, found, _ => by
    rw [eq_of_getElem?_map_range found]
    rfl
  | .coerce source target, index, cell, found, kind => by
    rw [View.cells, List.getElem?_map] at found
    obtain ⟨before, read, rfl⟩ := Option.map_eq_some_iff.mp found
    -- Only a coercion to atoms converts. One to a list wraps the element as an item of one element,
    -- which reads as the element itself, and the other two change nothing.
    cases target with
    | atomic target =>
      rw [View.atomAt, Metered.value_bind, source.atomAt_eq read target]
      rfl
    | null => exact source.atomAt_eq read kind
    | list => exact (source.atomAt_eq read kind).trans (before.asOne_toItem kind).symm
    | closure => exact source.atomAt_eq read kind
  | .traced _ inner, _, _, found, kind => inner.atomAt_eq found kind

/-- An item read as an atom is what the item denotes as one element. -/
theorem atomOfItem_eq : ∀ (items : List Value) {index : Nat} {cell : Cell},
    (cellsOfItems items)[index]? = some cell →
    ∀ kind, (atomOfItem items index kind).value = cell.asKind kind
  | item :: rest, 0, cell, found, kind => by
    cases found
    exact atomOfItem_head kind (fun _ single => item.atomAt_eq single kind) item.deparse_eq
  | _ :: rest, index + 1, _, found, kind => by
    rw [atomOfItem]
    exact atomOfItem_eq rest found kind

/-- The source form of a value is that of its denotation. -/
theorem Value.deparse_eq : ∀ v : Value, v.deparse.value = v.eager.deparse
  | .null => rfl
  | .vector storage metadata => storage.deparse_eq (extrasOf metadata)
  | .closure .. => rfl
  | .builtin .. => rfl

theorem Storage.deparse_eq : ∀ (storage : Storage) (extras : Extras),
    storage.deparse.value = (Eager.vector storage.kind storage.cells extras).deparse
  | .atoms kind elements, extras => by
    rw [Storage.kind, Storage.cells, Eager.deparse, deparseCells_eq, List.map_map]
    rfl
  | .list _ items, extras => congrArg deparseList (deparseItems_eq items)
  | .view source, extras => Storage.deparse_view source extras
    (fun kind _ _ found => source.atomAt_eq found kind) fun _ _ found => source.deparseAt_eq found

theorem deparseItems_eq : ∀ items : List Value,
    (deparseItems items).value = deparseCells (cellsOfItems items)
  | [] => rfl
  | item :: rest => by
    rw [deparseItems, cellsOfItems, deparseCells, Metered.value_bind, Metered.value_bind,
      Metered.value_pure, item.deparse_eq, deparseItems_eq rest]
    rfl

/-- The source form of an element is that of the element of the denotation. -/
theorem Value.deparseAt_eq : ∀ (v : Value) {index : Nat} {cell : Cell},
    v.eager.cells[index]? = some cell → (v.deparseAt index).value = cell.deparse
  | .vector storage _, _, _, found => storage.deparseAt_eq found
  | .closure .., 0, _, found => by
    cases found
    rfl
  | .builtin .., 0, _, found => by
    cases found
    rfl

theorem Storage.deparseAt_eq : ∀ (storage : Storage) {index : Nat} {cell : Cell},
    storage.cells[index]? = some cell → (storage.deparseAt index).value = cell.deparse
  | .atoms own elements, index, cell, found => by
    rw [Storage.cells, List.getElem?_map] at found
    obtain ⟨x, stored, rfl⟩ := Option.map_eq_some_iff.mp found
    rw [Storage.deparseAt, stored]
    rfl
  | .list _ items, _, _, found => deparseItem_eq items found
  | .view source, _, _, found => source.deparseAt_eq found

theorem View.deparseAt_eq : ∀ (view : View) {index : Nat} {cell : Cell},
    view.cells[index]? = some cell → (view.deparseAt index).value = cell.deparse
  | .sequence _, _, _, found => by
    rw [eq_of_getElem?_map_range found]
    rfl
  | .range _, _, _, found => by
    rw [eq_of_getElem?_map_range found]
    rfl
  | .coerce source target, index, cell, found => by
    rw [View.cells, List.getElem?_map] at found
    obtain ⟨before, read, rfl⟩ := Option.map_eq_some_iff.mp found
    cases target with
    | atomic target =>
      rw [View.deparseAt, Metered.value_bind, source.atomAt_eq read target]
      rfl
    | null => exact source.deparseAt_eq read
    | list => exact (source.deparseAt_eq read).trans before.deparse_toItem.symm
    | closure => exact source.deparseAt_eq read
  | .traced _ inner, _, _, found => inner.deparseAt_eq found

theorem deparseItem_eq : ∀ (items : List Value) {index : Nat} {cell : Cell},
    (cellsOfItems items)[index]? = some cell → (deparseItem items index).value = cell.deparse
  | item :: rest, 0, cell, found => by
    cases found
    exact item.deparse_eq
  | _ :: rest, index + 1, _, found => by
    rw [deparseItem]
    exact deparseItem_eq rest found

end

mutual

/-- An element read in its own kind denotes the element of the denotation. -/
theorem Value.element_eq : ∀ (v : Value) {index : Nat} {cell : Cell},
    v.eager.cells[index]? = some cell → (v.element index).value.cell = cell
  | .vector storage _, _, _, found => storage.element_eq found
  | .closure .., 0, _, found => by
    cases found
    rfl
  | .builtin .., 0, _, found => by
    cases found
    rfl

theorem Storage.element_eq : ∀ (storage : Storage) {index : Nat} {cell : Cell},
    storage.cells[index]? = some cell → (storage.element index).value.cell = cell
  | .atoms own elements, index, cell, found => by
    rw [Storage.cells, List.getElem?_map] at found
    obtain ⟨x, stored, rfl⟩ := Option.map_eq_some_iff.mp found
    rw [Storage.element, stored]
    rfl
  | .list _ items, index, cell, found => by
    rw [Storage.cells, cellsOfItems_eq, List.getElem?_map] at found
    obtain ⟨item, stored, rfl⟩ := Option.map_eq_some_iff.mp found
    rw [Storage.element, stored]
    rfl
  | .view source, _, _, found => source.element_eq found

theorem View.element_eq : ∀ (view : View) {index : Nat} {cell : Cell},
    view.cells[index]? = some cell → (view.element index).value.cell = cell
  | .sequence _, _, _, found => (eq_of_getElem?_map_range found).symm
  | .range _, _, _, found => (eq_of_getElem?_map_range found).symm
  | .coerce source target, index, cell, found => by
    rw [View.cells, List.getElem?_map] at found
    obtain ⟨before, read, rfl⟩ := Option.map_eq_some_iff.mp found
    cases target with
    | atomic target =>
      rw [View.element, Metered.value_bind, source.atomAt_eq read target]
      rfl
    | list =>
      rw [View.element, Metered.value_bind, Metered.value_pure, Scalar.cell,
        Scalar.eager_toItem, source.element_eq read]
      rfl
    | null => exact source.element_eq read
    | closure => exact source.element_eq read
  | .traced _ inner, _, _, found => inner.element_eq found

end

end Vectorial
