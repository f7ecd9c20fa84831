import Vectorial.Proofs.Value.Denotation

/-!
# Elements one by one and all at once

A view that is materialized produces all of its elements at once, in a way of its own: a
progression adds its step again and again, and a coercing view is bypassed, its source being
read in the kind that is asked for. The elements are the same as those that are read one by
one, down to the identities of lists.

## Main definitions

* `View.fill`, `Value.toVec`: all elements, produced at once;
* `Value.IsReadAlike`: reading and materializing show the same elements.

## Main results

* `Progression.running_eq`: repeated addition gives the terms;
* `Value.toVec_eq`: production at once agrees with reading one by one;
* `Value.eager_materialize`: materializing does not change what a value denotes;
* `Value.isReadAlike`: every value with kinds that have vectors is read alike.
-/

namespace Vectorial

/-! ### Progressions -/

namespace Progression

theorem runningFrom_eq (step : Int) (size : Nat) (current : Int) :
    runningFrom step size current =
      (List.range size).map fun index : Nat => Int32.ofInt (current + index * step) := by
  induction size generalizing current with
  | zero => rfl
  | succ size ih =>
    rw [runningFrom, ih, List.range_succ_eq_map, List.map_cons, List.map_map]
    refine List.cons_eq_cons.mpr ⟨by simp, List.map_congr_left fun index _ => ?_⟩
    have same : current + step + index * step = current + (index + 1 : Nat) * step := by
      rw [Int.natCast_add, Int.add_mul, Int.natCast_one, Int.one_mul, Int.add_assoc,
        Int.add_comm step]
    rw [same]
    rfl

/-- Repeated addition gives the terms. -/
theorem running_eq (p : Progression) : p.running = (List.range p.size).map p.term :=
  runningFrom_eq _ _ _

end Progression

/-! ### One by one -/

namespace Value

/-- All elements of a value are its elements one by one. -/
theorem elements_eq (v : Value) :
    v.elements.value = (List.range v.size).map fun index => (v.element index).value := by
  -- Only stored elements are handed out all at once; everything else is read one by one by
  -- definition.
  have reading (v : Value) : ((List.range v.size).mapM v.element).value =
      (List.range v.size).map fun index => (v.element index).value :=
    Metered.value_mapM ..
  cases v with
  | null => exact reading _
  | closure layout env => exact reading _
  | builtin name index => exact reading _
  | vector storage metadata =>
    cases storage with
    | view source => exact reading _
    | atoms kind stored =>
      refine List.ext_getElem (by simp [elements, size, Storage.size]) fun index first _ => ?_
      have inside : index < stored.length := by simpa [elements] using first
      simp [elements, element, Storage.element, inside]
    | list id items =>
      refine List.ext_getElem (by simp [elements, size, Storage.size]) fun index first _ => ?_
      have inside : index < items.length := by simpa [elements] using first
      simp [elements, element, Storage.element, inside]

/-- All elements of a value in another kind are its elements in this kind one by one. -/
theorem atomsAs_eq (v : Value) (kind : ElementKind) : (v.atomsAs kind).value =
    (List.range v.size).map fun index => (v.atomAt index kind).value := by
  have reading (v : Value) : ((List.range v.size).mapM fun index => v.atomAt index kind).value =
      (List.range v.size).map fun index => (v.atomAt index kind).value :=
    Metered.value_mapM ..
  cases v with
  | null => exact reading _
  | closure layout env => exact reading _
  | builtin name index => exact reading _
  | vector storage metadata =>
    cases storage with
    | view source => exact reading _
    | list id items => exact reading _
    | atoms own elements =>
      refine List.ext_getElem (by simp [atomsAs, size, Storage.size]) fun index first _ => ?_
      have inside : index < elements.length := by simpa [atomsAs] using first
      simp [atomsAs, atomAt, Storage.atomAt, inside]

end Value

/-! ### All at once -/

namespace View

/-- All elements of a view, produced at once. -/
def fill (source : View) : Metered (List Scalar) :=
  match source.kind with
  | .atomic kind => (List.map fun x => .atom ⟨kind, x⟩) <$> source.fillAtoms kind
  | _ => (List.map .item) <$> source.fillItems

/-- A view of an atomic kind, produced in this kind. -/
theorem fillAtoms_eq {kind : ElementKind} : ∀ source : View, source.kind = .atomic kind →
    (source.fillAtoms kind).value.map (fun x => Scalar.atom ⟨kind, x⟩) =
      (List.range source.size).map fun index => (source.element index).value
  | .sequence p, same => by
    cases same
    rw [fillAtoms, Metered.value_pure, p.running_eq, List.map_map, List.map_map]
    rfl
  | .range r, same => by
    cases same
    rw [fillAtoms, Metered.value_pure, UpTo.terms, List.map_map, List.map_map]
    rfl
  | .coerce source target, same => by
    have target_eq : target = .atomic kind := same
    subst target_eq
    rw [fillAtoms, source.atomsAs_eq, List.map_map]
    rfl
  | .traced _ inner, same => inner.fillAtoms_eq same

/-- A view of lists, produced as list items. -/
theorem fillItems_eq : ∀ source : View, source.kind = .list →
    source.fillItems.value.map Scalar.item =
      (List.range source.size).map fun index => (source.element index).value
  | .sequence _, same => nomatch same
  | .range _, same => nomatch same
  | .coerce source target, same => by
    have target_eq : target = .list := same
    subst target_eq
    rw [fillItems, Value.items, Metered.value_bind, Metered.value_pure, source.elements_eq,
      List.map_map, List.map_map]
    rfl
  | .traced _ inner, same => inner.fillItems_eq same

/-- Production at once gives the elements that are read one by one. -/
theorem fill_eq (source : View) (vectors : source.kind.HasVectors) :
    source.fill.value = (List.range source.size).map fun index => (source.element index).value := by
  cases same : source.kind with
  | atomic kind =>
    rw [← source.fillAtoms_eq same]
    simp only [fill, same, Metered.value_map]
  | list =>
    rw [← source.fillItems_eq same]
    simp only [fill, same, Metered.value_map]
  | null => exact absurd same vectors.1
  | closure => exact absurd same vectors.2

end View

namespace Value

/-- All elements: those of a stored vector as they are, those of a view produced at once. -/
def toVec : Value → Metered (List Scalar)
  | .vector (.view source) _ => source.fill
  | v => v.elements

/-- Whether a value is not a vector of a kind that has none. -/
def IsOrdinary (v : Value) : Prop :=
  v.isVector → v.kind.HasVectors

theorem eq_null_of_kind {v : Value} (ordinary : v.IsOrdinary) (same : v.kind = .null) :
    v = .null := by
  cases v with
  | null => rfl
  | vector storage metadata => exact absurd same (ordinary rfl).1
  | closure layout env => cases same
  | builtin name index => cases same

theorem toVec_eq {v : Value} (ordinary : v.IsOrdinary) :
    v.toVec.value = (List.range v.size).map fun index => (v.element index).value := by
  cases v with
  | null => exact elements_eq _
  | closure layout env => exact elements_eq _
  | builtin name index => exact elements_eq _
  | vector storage metadata =>
    cases storage with
    | atoms kind elements => exact elements_eq _
    | list id items => exact elements_eq _
    | view source => exact source.fill_eq (ordinary rfl)

/-! ### Materializing -/

theorem materialize_atoms (fresh : StorageId) {source : View} {metadata : Option Metadata}
    {kind : ElementKind} (same : source.kind = .atomic kind) :
    ((Value.vector (.view source) metadata).materialize fresh).value =
      .vector (.atoms kind (source.fillAtoms kind).value) metadata := by
  simp only [materialize, same, Metered.value_bind, Metered.value_pure]

theorem materialize_list (fresh : StorageId) {source : View} {metadata : Option Metadata}
    (same : source.kind = .list) :
    ((Value.vector (.view source) metadata).materialize fresh).value =
      .vector (.list fresh source.fillItems.value) metadata := by
  simp only [materialize, same, Metered.value_bind, Metered.value_pure]

/-- Materializing leaves a value as it is, or puts stored elements in place of a view. -/
theorem materialize_eq_or_stored (fresh : StorageId) (v : Value) :
    (∀ id, v.materialize id = pure v) ∨
      ∃ stored, (v.materialize fresh).value = .vector stored v.metadata ∧
        ∀ id, (Value.vector stored v.metadata).materialize id =
          pure (.vector stored v.metadata) := by
  cases v with
  | null => exact .inl fun _ => rfl
  | closure layout env => exact .inl fun _ => rfl
  | builtin name index => exact .inl fun _ => rfl
  | vector storage metadata =>
    cases storage with
    | atoms kind elements => exact .inl fun _ => rfl
    | list id items => exact .inl fun _ => rfl
    | view source =>
      refine .inr ?_
      cases same : source.kind with
      | atomic kind => exact ⟨_, materialize_atoms fresh same, fun _ => rfl⟩
      | _ =>
        refine ⟨.list fresh source.fillItems.value, ?_, fun _ => rfl⟩
        simp only [materialize, same, Metered.value_bind, Metered.value_pure]
        rfl

/-- Materializing again changes nothing. -/
theorem materialize_materialize (fresh again : StorageId) (v : Value) :
    (v.materialize fresh).value.materialize again = pure (v.materialize fresh).value := by
  rcases materialize_eq_or_stored fresh v with same | ⟨stored, replaced, same⟩
  · rw [same fresh, Metered.value_pure, same again]
  · rw [replaced, same again]

theorem metadata_materialize (fresh : StorageId) (v : Value) :
    (v.materialize fresh).value.metadata = v.metadata := by
  rcases materialize_eq_or_stored fresh v with same | ⟨stored, replaced, -⟩
  · rw [same fresh, Metered.value_pure]
  · rw [replaced, metadata]

/-- The elements of a view, read one by one. -/
theorem map_cell_element (source : View) :
    (List.range source.size).map (fun index => (source.element index).value.cell) =
      source.cells := by
  rw [map_range_eq source.size_eq fun index cell found => source.element_eq found, List.map_id']

/-- Materializing does not change what a value denotes. -/
theorem eager_materialize (fresh : StorageId) {v : Value} (ordinary : v.IsOrdinary) :
    (v.materialize fresh).value.eager = v.eager := by
  cases v with
  | null => rfl
  | closure layout env => rfl
  | builtin name index => rfl
  | vector storage metadata =>
    cases storage with
    | atoms kind stored => rfl
    | list id items => rfl
    | view source =>
      cases same : source.kind with
      | atomic kind =>
        have cells := congrArg (List.map Scalar.cell) (source.fillAtoms_eq same)
        rw [List.map_map, List.map_map] at cells
        rw [materialize_atoms fresh same, eager, eager, Storage.kind, Storage.kind, same,
          Storage.cells, Storage.cells, ← map_cell_element]
        exact congrArg (fun cells => Eager.vector _ cells _) cells
      | list =>
        have cells := congrArg (List.map Scalar.cell) (source.fillItems_eq same)
        rw [List.map_map, List.map_map] at cells
        rw [materialize_list fresh same, eager, eager, Storage.kind, Storage.kind, same,
          Storage.cells, Storage.cells, cellsOfItems_eq, ← map_cell_element]
        exact congrArg (fun cells => Eager.vector _ cells _) cells
      | null => exact absurd same (ordinary rfl).1
      | closure => exact absurd same (ordinary rfl).2

theorem size_materialize (fresh : StorageId) {v : Value} (ordinary : v.IsOrdinary) :
    (v.materialize fresh).value.size = v.size := by
  rw [size_eq, size_eq, eager_materialize fresh ordinary]

theorem get_eq {v : Value} {index : Nat} (inside : index < v.size) :
    v.get index = .ok (v.element index) := by
  cases v with
  | null => exact absurd inside (Nat.not_lt_zero _)
  | vector storage metadata => exact if_pos inside
  | closure layout env =>
    obtain rfl : index = 0 := Nat.lt_one_iff.mp inside
    rfl
  | builtin name handle =>
    obtain rfl : index = 0 := Nat.lt_one_iff.mp inside
    rfl

/-- The elements of a materialized value are those of the value itself. -/
theorem element_materialize (fresh : StorageId) {v : Value} (ordinary : v.IsOrdinary)
    {index : Nat} (inside : index < v.size) :
    ((v.materialize fresh).value.element index).value = (v.element index).value := by
  cases v with
  | null => rfl
  | closure layout env => rfl
  | builtin name index => rfl
  | vector storage metadata =>
    cases storage with
    | atoms kind stored => rfl
    | list id items => rfl
    | view source =>
      -- Filling reads the view at every index, and materializing stores what was read.
      have inside : index < source.size := inside
      cases same : source.kind with
      | atomic kind =>
        have at_index := congrArg (·[index]?) (source.fillAtoms_eq same)
        simp only [List.getElem?_map, List.getElem?_range inside, Option.map_some] at at_index
        obtain ⟨x, stored, read⟩ := Option.map_eq_some_iff.mp at_index
        rw [materialize_atoms fresh same]
        simp only [element, Storage.element, stored, Option.getD_some, Metered.value_pure, read]
      | list =>
        have at_index := congrArg (·[index]?) (source.fillItems_eq same)
        simp only [List.getElem?_map, List.getElem?_range inside, Option.map_some] at at_index
        obtain ⟨x, stored, read⟩ := Option.map_eq_some_iff.mp at_index
        rw [materialize_list fresh same]
        simp only [element, Storage.element, stored, Option.getD_some, Metered.value_pure, read]
      | null => exact absurd same (ordinary rfl).1
      | closure => exact absurd same (ordinary rfl).2

/-- Whether reading one by one, producing at once and materializing show the same elements,
and materializing is done once and keeps what the value carries. -/
structure IsReadAlike (v : Value) : Prop where
  reads : ∀ index < v.size, ∃ element : Scalar,
    (v.get index).map Metered.value = .ok element ∧ v.toVec.value[index]? = some element ∧
      ∀ fresh, ((v.materialize fresh).value.get index).map Metered.value = .ok element
  once : ∀ fresh again,
    (v.materialize fresh).value.materialize again = pure (v.materialize fresh).value
  carries : ∀ fresh, (v.materialize fresh).value.metadata = v.metadata

/-- An ordinary value is read alike. -/
theorem isReadAlike {v : Value} (ordinary : v.IsOrdinary) : v.IsReadAlike := by
  refine ⟨fun index inside => ⟨(v.element index).value, ?_, ?_, fun fresh => ?_⟩,
    fun fresh again => materialize_materialize fresh again v,
    fun fresh => metadata_materialize fresh v⟩
  · rw [get_eq inside]
    rfl
  · rw [toVec_eq ordinary, List.getElem?_map, List.getElem?_range inside, Option.map_some]
  · rw [get_eq (by rwa [size_materialize fresh ordinary])]
    exact congrArg Except.ok (element_materialize fresh ordinary inside)

end Value

end Vectorial
