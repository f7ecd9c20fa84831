import Vectorial.Proofs.Value.Operations

/-!
# Elements in their own kind and in another

An element is read in its own kind, which is that of the vector, and coerced to another one
from there. Reading it in the other kind at once, through a view or not, one by one or with
all the others, gives the same.

## Main definitions

* `Value.elementAs`: an element read in its own kind and coerced to another.

## Main results

* `Value.kind_element`: the kind of an element;
* `Value.value_atomAt`, `Value.value_produce`: elements read in another kind;
* `Value.element_viewedAs`: the elements of a coercing view.
-/

namespace Vectorial

/-- Coercion to its own kind leaves an element as it is. -/
theorem Scalar.value_coerce_kind (s : Scalar) : (s.coerce s.kind).value = s := by
  cases s with
  | atom a => exact congrArg (fun x => Scalar.atom ⟨a.kind, x⟩) (Atom.asKind_self a.kind a.value)
  | item v => rfl

namespace Value

variable {kind : ElementKind} {v : Value} {index : Nat}

/-- The element at an index, read in its own kind and coerced to `kind`. -/
def elementAs (v : Value) (kind : ElementKind) (index : Nat) : kind.Carrier :=
  ((v.element index).value.asKind kind).value

/-- The elements of a vector are of its kind. -/
theorem kind_element (ordinary : v.IsOrdinary) (vector : v.isVector) (inside : index < v.size) :
    (v.element index).value.kind = v.kind := by
  cases v with
  | vector storage metadata =>
    rw [size_eq] at inside
    have found := List.getElem?_eq_getElem inside
    rw [← Scalar.kind_cell, element_eq _ found]
    exact storage.kind_of_mem_cells (ordinary rfl) (List.mem_of_getElem? found)
  | null => cases vector
  | closure layout env => cases vector
  | builtin name handle => cases vector

/-- What an element is in another kind depends only on what the value denotes. -/
theorem elementAs_eq {cell : Cell} (found : v.eager.cells[index]? = some cell) :
    v.elementAs kind index = cell.asKind kind := by
  rw [elementAs, asKind_eq, v.element_eq found]

/-- Reading as another kind is reading and coercing. -/
theorem value_atomAt (inside : index < v.size) :
    (v.atomAt index kind).value = v.elementAs kind index := by
  rw [v.size_eq] at inside
  have found := List.getElem?_eq_getElem inside
  rw [v.atomAt_eq found, elementAs_eq found]

theorem value_atomsAs : (v.atomsAs kind).value = (List.range v.size).map (v.elementAs kind) := by
  rw [v.atomsAs_eq]
  exact List.map_congr_left fun index member => value_atomAt (List.mem_range.mp member)

/-- Production at once gives the same elements as reading one by one. -/
theorem value_produce (v : Value) (kind : ElementKind) :
    (v.produce kind).value = (List.range v.size).map (v.elementAs kind) := by
  unfold produce
  split
  · next source metadata =>
    split
    · next same =>
      -- The elements are of the kind already, so that there is nothing to coerce.
      have taken := congrArg (List.map fun s => (Scalar.asKind s kind).value)
        (source.fillAtoms_eq same)
      simp only [List.map_map, Function.comp_def, Scalar.asKind, Metered.value_pure,
        Atom.asKind_self, List.map_id'] at taken
      exact taken
    · exact value_atomsAs
  · exact value_atomsAs

/-- Values that denote the same have the same elements in any kind. -/
theorem value_produce_congr {w : Value} (same : v.eager = w.eager) (kind : ElementKind) :
    (v.produce kind).value = (w.produce kind).value := by
  have sizes : v.size = w.size := by rw [v.size_eq, w.size_eq, same]
  rw [value_produce, value_produce, sizes]
  refine List.map_congr_left fun index member => ?_
  have inside : index < w.eager.cells.length := w.size_eq ▸ List.mem_range.mp member
  obtain ⟨cell, found⟩ : ∃ cell, w.eager.cells[index]? = some cell :=
    ⟨_, List.getElem?_eq_getElem inside⟩
  rw [elementAs_eq found, elementAs_eq (same ▸ found)]

/-- A coercing view has the elements of the vector, coerced. -/
theorem element_viewedAs {target : Kind} (vector : v.isVector) (vectors : target.HasVectors)
    (inside : index < v.size) :
    ((v.viewedAs target).element index).value = ((v.element index).value.coerce target).value := by
  cases v with
  | vector storage metadata =>
    cases target with
    | atomic target =>
      exact congrArg (fun x => Scalar.atom ⟨target, x⟩) (value_atomAt inside)
    | list => rfl
    | null => exact absurd rfl vectors.1
    | closure => exact absurd rfl vectors.2
  | null => cases vector
  | closure layout env => cases vector
  | builtin name handle => cases vector

end Value

end Vectorial
