import Vectorial.Value.Assignment
import Vectorial.Value.Metadata

/-!
# What makes no difference in a value

The counters in front of a view do not show in what is read through it, and the edition of a
layout does not show in what is made of a closure. Either may be disregarded: it is taken out
of a value wherever it is, in list items, in attributes and behind views. Whatever is read
from the value is then read from what is left, and whatever is made of the value is made of
what is left.

Elements of lists are read as texts by rendering them, and rendering reads elements, so that
reading and rendering are looked at together.

## Main definitions

* `Disregard`: which of the two is disregarded;
* `Layout.without`, `Value.without`, `Scalar.without`: what is left.

## Main results

* `Value.value_atomAt_without`, `Value.value_element_without`: single elements;
* `Value.value_atomsAs_without`, `Value.value_elements_without`, `Value.value_produce_without`:
  all elements;
* `Value.toVector_without`, `Value.withNames_without`: what is made of a value;
* `Value.without_traced`: counters that are disregarded may be added.
-/

namespace Vectorial

/-- What is disregarded: counters in front of views, and editions of layouts. -/
structure Disregard where
  counters : Bool := false
  editions : Bool := false

variable {d : Disregard}

/-! ### What is left -/

/-- The layout without its edition, if editions are disregarded. -/
def Layout.without (d : Disregard) (layout : Layout) : Layout :=
  { layout with edition := if d.editions then 0 else layout.edition }

mutual

/-- The value without what is disregarded. -/
def Value.without (d : Disregard) : Value → Value
  | .null => .null
  | .vector storage metadata => .vector (storage.without d) (metadataWithout d metadata)
  | .closure layout env => .closure (layout.without d) env
  | .builtin name handle => .builtin name handle

/-- The storage without what is disregarded. -/
def Storage.without (d : Disregard) : Storage → Storage
  | .atoms kind elements => .atoms kind elements
  | .list id items => .list id (itemsWithout d items)
  | .view source => .view (source.without d)

/-- The view without what is disregarded. -/
def View.without (d : Disregard) : View → View
  | .sequence p => .sequence p
  | .range r => .range r
  | .coerce source target => .coerce (source.without d) target
  | .traced id inner => if d.counters then inner.without d else .traced id (inner.without d)

/-- List items without what is disregarded. -/
def itemsWithout (d : Disregard) : List Value → List Value
  | [] => []
  | item :: rest => item.without d :: itemsWithout d rest

/-- What is carried, without what is disregarded. -/
def metadataWithout (d : Disregard) : Option Metadata → Option Metadata
  | none => none
  | some (.mk dims names attributes) => some (.mk dims names (attributesWithout d attributes))

/-- Attributes without what is disregarded. -/
def attributesWithout (d : Disregard) : List (Symbol × Value) → List (Symbol × Value)
  | [] => []
  | (name, value) :: rest => (name, value.without d) :: attributesWithout d rest

end

/-- The element without what is disregarded. -/
def Scalar.without (d : Disregard) : Scalar → Scalar
  | .atom a => .atom a
  | .item v => .item (v.without d)

/-- Values with names, without what is disregarded. -/
def Parts.without (d : Disregard) (parts : Parts) : Parts :=
  parts.map fun part => (part.1, part.2.without d)

@[simp]
theorem itemsWithout_eq (items : List Value) :
    itemsWithout d items = items.map (Value.without d) := by
  induction items with
  | nil => rfl
  | cons item rest ih => rw [itemsWithout, ih, List.map_cons]

/-! ### Layouts -/

namespace Layout

variable (layout : Layout)

/-- A layout with an edition that counts is all that is left of it. -/
theorem without_of_editions (kept : d.editions = false) : layout.without d = layout := by
  simp [Layout.without, kept]

end Layout

/-! ### Shape -/

@[simp]
theorem View.kind_without (view : View) : (view.without d).kind = view.kind := by
  cases view with
  | sequence range => rfl
  | range range => rfl
  | coerce source kind => rfl
  | traced id inner =>
    rw [View.without]
    split <;> exact inner.kind_without

@[simp]
theorem Storage.kind_without (storage : Storage) : (storage.without d).kind = storage.kind := by
  cases storage with
  | atoms kind elements => rfl
  | list id items => rfl
  | view source => exact source.kind_without

mutual

@[simp]
theorem Value.size_without : ∀ v : Value, (v.without d).size = v.size
  | .null => rfl
  | .vector storage _ => storage.size_without
  | .closure .. => rfl
  | .builtin .. => rfl

@[simp]
theorem Storage.size_without : ∀ storage : Storage, (storage.without d).size = storage.size
  | .atoms .. => rfl
  | .list .. => by simp [Storage.without, Storage.size]
  | .view source => source.size_without

@[simp]
theorem View.size_without : ∀ view : View, (view.without d).size = view.size
  | .sequence _ => rfl
  | .range _ => rfl
  | .coerce source _ => source.size_without
  | .traced _ inner => by
    rw [View.without]
    split <;> exact inner.size_without

end

namespace Value

variable (v : Value)

@[simp]
theorem kind_without : (v.without d).kind = v.kind := by
  cases v with
  | vector storage metadata => exact storage.kind_without
  | _ => rfl

@[simp]
theorem typeName_without : (v.without d).typeName = v.typeName := by
  cases v with
  | vector storage metadata => exact congrArg Kind.name storage.kind_without
  | _ => rfl

@[simp]
theorem isNull_without : (v.without d).isNull = v.isNull := by
  cases v <;> rfl

@[simp]
theorem isFunction_without : (v.without d).isFunction = v.isFunction := by
  cases v <;> rfl

@[simp]
theorem isVector_without : (v.without d).isVector = v.isVector := by
  cases v <;> rfl

@[simp]
theorem names_without : (v.without d).names = v.names := by
  cases v with
  | vector storage metadata => rcases metadata with _ | ⟨dims, names, attributes⟩ <;> rfl
  | _ => rfl

end Value

/-! ### Reading and rendering -/

/-- The source form of a view follows from how its elements are read and rendered. -/
theorem Storage.value_deparse_view {source other : View} (kind : other.kind = source.kind)
    (size : other.size = source.size)
    (reads : ∀ index kind, (other.atomAt index kind).value = (source.atomAt index kind).value)
    (renders : ∀ index, (other.deparseAt index).value = (source.deparseAt index).value) :
    (Storage.view other).deparse.value = (Storage.view source).deparse.value := by
  unfold Storage.deparse
  rw [kind]
  cases source.kind with
  | atomic kind =>
    simp only [Metered.value_bind, Metered.value_pure, Metered.value_mapM, size, reads]
  | _ => simp only [Metered.value_bind, Metered.value_pure, Metered.value_mapM, size, renders]

mutual

/-- What is disregarded does not show in an element that is read in another kind. -/
@[simp]
theorem Value.value_atomAt_without : ∀ (v : Value) (index : Nat) (kind : ElementKind),
    ((v.without d).atomAt index kind).value = (v.atomAt index kind).value
  | .null, _, _ => rfl
  | .vector storage _, index, kind => storage.value_atomAt_without index kind
  | .closure .., _, _ => rfl
  | .builtin .., _, _ => rfl

theorem Storage.value_atomAt_without : ∀ (storage : Storage) (index : Nat) (kind : ElementKind),
    ((storage.without d).atomAt index kind).value = (storage.atomAt index kind).value
  | .atoms .., _, _ => rfl
  | .list _ items, index, kind => value_atomOfItem_without items index kind
  | .view source, index, kind => source.value_atomAt_without index kind

theorem View.value_atomAt_without : ∀ (view : View) (index : Nat) (kind : ElementKind),
    ((view.without d).atomAt index kind).value = (view.atomAt index kind).value
  | .sequence _, _, _ => rfl
  | .range _, _, _ => rfl
  | .coerce source (.atomic target), index, kind => by
    rw [View.without, View.atomAt, View.atomAt, Metered.value_bind, Metered.value_bind,
      source.value_atomAt_without index target, Metered.value_pure]
  | .coerce source .null, index, kind => source.value_atomAt_without index kind
  | .coerce source .list, index, kind => source.value_atomAt_without index kind
  | .coerce source .closure, index, kind => source.value_atomAt_without index kind
  | .traced _ inner, index, kind => by
    rw [View.without]
    split <;> exact inner.value_atomAt_without index kind

theorem value_atomOfItem_without : ∀ (items : List Value) (index : Nat) (kind : ElementKind),
    (atomOfItem (itemsWithout d items) index kind).value = (atomOfItem items index kind).value
  | [], _, _ => rfl
  | item :: _, 0, kind => by
    have size := item.size_without (d := d)
    have read := item.value_atomAt_without 0 kind
    by_cases single : item.size = 1
    · simpa [itemsWithout, atomOfItem, size, single] using read
    · cases kind with
      | character =>
        have rendered := congrArg some item.value_deparse_without
        simpa [itemsWithout, atomOfItem, size, single] using rendered
      | _ => simp [itemsWithout, atomOfItem, size, single]
  | _ :: rest, index + 1, kind => value_atomOfItem_without rest index kind

/-- Nor does it show in the source form. -/
@[simp]
theorem Value.value_deparse_without : ∀ v : Value, (v.without d).deparse.value = v.deparse.value
  | .null => rfl
  | .vector storage _ => storage.value_deparse_without
  | .closure .. => rfl
  | .builtin .. => rfl

theorem Storage.value_deparse_without : ∀ storage : Storage,
    (storage.without d).deparse.value = storage.deparse.value
  | .atoms .. => rfl
  | .list _ items => congrArg deparseList (value_deparseItems_without items)
  | .view source =>
    Storage.value_deparse_view source.kind_without source.size_without
      (fun index kind => source.value_atomAt_without index kind)
      (fun index => source.value_deparseAt_without index)

theorem value_deparseItems_without : ∀ items : List Value,
    (deparseItems (itemsWithout d items)).value = (deparseItems items).value
  | [] => rfl
  | item :: rest => by
    rw [itemsWithout, deparseItems, deparseItems]
    simp only [Metered.value_bind, Metered.value_pure, item.value_deparse_without,
      value_deparseItems_without rest]

theorem Value.value_deparseAt_without : ∀ (v : Value) (index : Nat),
    ((v.without d).deparseAt index).value = (v.deparseAt index).value
  | .null, _ => rfl
  | .vector storage _, index => storage.value_deparseAt_without index
  | .closure .., _ => rfl
  | .builtin .., _ => rfl

theorem Storage.value_deparseAt_without : ∀ (storage : Storage) (index : Nat),
    ((storage.without d).deparseAt index).value = (storage.deparseAt index).value
  | .atoms .., _ => rfl
  | .list _ items, index => value_deparseItem_without items index
  | .view source, index => source.value_deparseAt_without index

theorem View.value_deparseAt_without : ∀ (view : View) (index : Nat),
    ((view.without d).deparseAt index).value = (view.deparseAt index).value
  | .sequence _, _ => rfl
  | .range _, _ => rfl
  | .coerce source (.atomic target), index => by
    rw [View.without, View.deparseAt, View.deparseAt, Metered.value_bind, Metered.value_bind,
      source.value_atomAt_without index target, Metered.value_pure]
  | .coerce source .null, index => source.value_deparseAt_without index
  | .coerce source .list, index => source.value_deparseAt_without index
  | .coerce source .closure, index => source.value_deparseAt_without index
  | .traced _ inner, index => by
    rw [View.without]
    split <;> exact inner.value_deparseAt_without index

theorem value_deparseItem_without : ∀ (items : List Value) (index : Nat),
    (deparseItem (itemsWithout d items) index).value = (deparseItem items index).value
  | [], _ => rfl
  | item :: _, 0 => item.value_deparse_without
  | _ :: rest, index + 1 => value_deparseItem_without rest index

end

/-! ### Elements in their own kind -/

namespace Scalar

@[simp]
theorem toItem_without (s : Scalar) : (s.without d).toItem = s.toItem.without d := by
  cases s <;> rfl

@[simp]
theorem kind_without (s : Scalar) : (s.without d).kind = s.kind := by
  cases s <;> rfl

@[simp]
theorem isMissing_without (s : Scalar) : (s.without d).isMissing = s.isMissing := by
  cases s <;> rfl

end Scalar

mutual

/-- An element that is read is without what is disregarded. -/
@[simp]
theorem Value.value_element_without : ∀ (v : Value) (index : Nat),
    ((v.without d).element index).value = (v.element index).value.without d
  | .null, _ => rfl
  | .vector storage _, index => storage.value_element_without index
  | .closure .., _ => rfl
  | .builtin .., _ => rfl

theorem Storage.value_element_without : ∀ (storage : Storage) (index : Nat),
    ((storage.without d).element index).value = (storage.element index).value.without d
  | .atoms .., _ => rfl
  | .list _ items, index => by
    rw [Storage.without, Storage.element, Storage.element, itemsWithout_eq, List.getElem?_map]
    cases items[index]? <;> rfl
  | .view source, index => source.value_element_without index

theorem View.value_element_without : ∀ (view : View) (index : Nat),
    ((view.without d).element index).value = (view.element index).value.without d
  | .sequence _, _ => rfl
  | .range _, _ => rfl
  | .coerce source (.atomic target), index => by
    rw [View.without, View.element, View.element, Metered.value_bind, Metered.value_bind,
      source.value_atomAt_without index target]
    rfl
  | .coerce source .list, index => by
    rw [View.without, View.element, View.element, Metered.value_bind, Metered.value_bind,
      source.value_element_without index, Scalar.toItem_without]
    rfl
  | .coerce source .null, index => source.value_element_without index
  | .coerce source .closure, index => source.value_element_without index
  | .traced _ inner, index => by
    rw [View.without]
    split <;> exact inner.value_element_without index

end

/-! ### All elements -/

namespace Value

@[simp]
theorem value_elements_without (v : Value) :
    (v.without d).elements.value = v.elements.value.map (Scalar.without d) := by
  have single (v : Value) : ((List.range (v.without d).size).mapM (v.without d).element).value =
      ((List.range v.size).mapM v.element).value.map (Scalar.without d) := by
    simp only [Metered.value_mapM, size_without, value_element_without, List.map_map]
    rfl
  cases v with
  | vector storage metadata =>
    cases storage with
    | atoms kind stored => simp [without, Storage.without, Value.elements, Scalar.without]
    | list id stored => simp [without, Storage.without, Value.elements, Scalar.without]
    | view source => exact single (.vector (.view source) metadata)
  | null => rfl
  | closure layout env => exact single (.closure layout env)
  | builtin name handle => exact single (.builtin name handle)

@[simp]
theorem value_atomsAs_without (v : Value) (kind : ElementKind) :
    ((v.without d).atomsAs kind).value = (v.atomsAs kind).value := by
  have single (v : Value) :
      ((List.range (v.without d).size).mapM fun index => (v.without d).atomAt index kind).value =
        ((List.range v.size).mapM fun index => v.atomAt index kind).value := by
    simp only [Metered.value_mapM, size_without, value_atomAt_without]
  cases v with
  | vector storage metadata =>
    cases storage with
    | atoms own elements => rfl
    | list id items => exact single (.vector (.list id items) metadata)
    | view source => exact single (.vector (.view source) metadata)
  | null => rfl
  | closure layout env => exact single (.closure layout env)
  | builtin name handle => exact single (.builtin name handle)

@[simp]
theorem value_items_without (v : Value) :
    (v.without d).items.value = v.items.value.map (Value.without d) := by
  simp only [items, Metered.value_bind, Metered.value_pure, value_elements_without, List.map_map]
  exact List.map_congr_left fun s _ => s.toItem_without

/-- The element at an index that is checked is without what is disregarded. -/
theorem get_without (v : Value) (index : Nat) :
    ((v.without d).get index).map Metered.value =
      (v.get index).map fun reading => reading.value.without d := by
  cases v with
  | null => rfl
  | vector storage metadata =>
    rw [without, get, get, storage.size_without]
    split
    · exact congrArg Except.ok (storage.value_element_without index)
    · rfl
  | closure layout env =>
    simp only [without, get]
    split <;> rfl
  | builtin name handle =>
    simp only [without, get]
    split <;> rfl

end Value

/-! ### Production at once -/

@[simp]
theorem View.value_fillAtoms_without (kind : ElementKind) : ∀ view : View,
    ((view.without d).fillAtoms kind).value = (view.fillAtoms kind).value
  | .sequence _ => rfl
  | .range _ => rfl
  | .coerce source _ => source.value_atomsAs_without kind
  | .traced _ inner => by
    rw [View.without]
    split <;> exact inner.value_fillAtoms_without kind

@[simp]
theorem Value.value_produce_without (kind : ElementKind) (v : Value) :
    ((v.without d).produce kind).value = (v.produce kind).value := by
  have single (v : Value) :
      ((v.without d).atomsAs kind).value = (v.atomsAs kind).value := v.value_atomsAs_without kind
  cases v with
  | vector storage metadata =>
    cases storage with
    | atoms own elements => rfl
    | list id items => exact single (.vector (.list id items) metadata)
    | view source =>
      rw [without, Storage.without, produce, produce, source.kind_without]
      split
      · exact source.value_fillAtoms_without kind
      · exact single (.vector (.view source) metadata)
  | null => rfl
  | closure layout env => exact single (.closure layout env)
  | builtin name handle => exact single (.builtin name handle)

/-! ### What is made of a value -/

namespace Value

theorem viewedAs_without (v : Value) (kind : Kind) :
    (v.without d).viewedAs kind = (v.viewedAs kind).without d := by
  cases v <;> rfl

theorem toVector_without (v : Value) (kind : Kind) {empty : Value}
    (plain : empty.without d = empty) :
    (v.without d).toVector kind empty = (v.toVector kind empty).map (Value.without d) := by
  simp only [toVector, kind_without, isNull_without, isFunction_without, typeName_without]
  split
  · rfl
  · split
    · exact congrArg Except.ok plain.symm
    · split
      · rfl
      · exact congrArg Except.ok (v.viewedAs_without kind)

theorem mapMetadata_without {change : Metadata → Metadata}
    (natural : ∀ m, metadataWithout d (some (change m)) =
      (metadataWithout d (some m)).map change) (v : Value) :
    (v.without d).mapMetadata change = (v.mapMetadata change).without d := by
  cases v with
  | vector storage metadata =>
    rcases metadata with _ | ⟨dims, names, attributes⟩
    · exact congrArg (Value.vector _) (natural .empty).symm
    · exact congrArg (Value.vector _) (natural (.mk dims names attributes)).symm
  | _ => rfl

theorem withNames_without (v : Value) (names : List (Option String)) :
    (v.without d).withNames names = (v.withNames names).map (Value.without d) := by
  rw [withNames, withNames, isVector_without, size_without]
  split
  · rfl
  · refine congrArg Except.ok (mapMetadata_without ?_ v)
    rintro ⟨dims, names', attributes⟩
    rfl

theorem without_ofParts (id : StorageId) (parts : Parts) :
    (Value.ofParts id parts).without d = Value.ofParts id (parts.without d) := by
  have named : (parts.without d).any (fun part => part.1.isSome) =
      parts.any fun part => part.1.isSome := by
    simp [Parts.without, Function.comp_def]
  rw [ofParts, ofParts, named]
  split
  · simp [ofNamedItems, without, Storage.without, metadataWithout, attributesWithout,
      Parts.without, Function.comp_def]
  · simp [ofItems, without, Storage.without, metadataWithout, Parts.without, Function.comp_def]

theorem without_zeroed (id : StorageId) (kind : Kind) (length : Nat) :
    (Value.zeroed id kind length).without d = Value.zeroed id kind length := by
  cases kind with
  | list => simp [zeroed, ofItems, without, Storage.without, metadataWithout]
  | _ => rfl

/-! ### Counters -/

/-- Counters that are disregarded may be put in front of a value. -/
theorem without_traced (disregarded : d.counters = true) (fresh : TraceId) (v : Value) :
    (v.traced fresh).without d = v.without d := by
  cases v with
  | vector storage metadata =>
    cases storage with
    | view source =>
      cases source <;> simp [traced, without, Storage.without, View.without, disregarded]
    | _ => rfl
  | _ => rfl

/-- Other counters are put in front of what is left. -/
theorem traced_without (kept : d.counters = false) (fresh : TraceId) (v : Value) :
    (v.without d).traced fresh = (v.traced fresh).without d := by
  cases v with
  | vector storage metadata =>
    cases storage with
    | view source => cases source <;> simp [traced, without, Storage.without, View.without, kept]
    | _ => rfl
  | _ => rfl

theorem isUntraced_without (kept : d.counters = false) (v : Value) :
    (v.without d).isUntraced = v.isUntraced := by
  cases v with
  | vector storage metadata =>
    cases storage with
    | view source =>
      cases source <;>
        simp [isUntraced, isView, traceId, without, Storage.without, View.without, kept]
    | _ => rfl
  | _ => rfl

end Value

end Vectorial
