import Vectorial.Heap.Work
import Vectorial.Proofs.Value.Production

/-!
# Operations on what values denote

Every operation on values does to the denotation what the operation of the same name does to
values without views, and fails when that fails, in the same way. Most of them leave the
elements alone. Coercion wraps the value in a view, which denotes the elements taken to the
other kind; assignment stores the vector first.

## Main definitions

* `Run.outcome`, `Attempt.outcome`: the result of a step, whatever it did to the state;
* `Eager.IsProper`: vectors are of kinds that have vectors, list items included.

## Main results

* `Value.coerceTo_eq`: coercion to a kind;
* `Value.set_eq`: assignment to an element;
* `Value.withNames_eq`, `Value.withDims_eq`, `Value.eager_withAttribute` and so on: what is
  carried.
-/

namespace Vectorial

/-! ### Outcomes -/

/-- The way in which a fault stops a step. -/
def Fault.stop : Fault → Stop
  | .error reason => .error { cause := reason }
  | .defect violated => .defect violated

/-- The result of an operation, whatever was read. -/
def Attempt.outcome {α : Type} (operation : Attempt α) : Except Stop α :=
  operation.run.value.mapError Fault.stop

/-- The result of a step, whatever it did to the state. -/
def Run.outcome {σ α : Type} (step : Run σ α) (state : σ) : Except Stop α :=
  match step state with
  | .ok a _ => .ok a
  | .error stop _ => .error stop

theorem Run.outcome_attempt {α : Type} (operation : Attempt α) (heap : Heap) :
    (HeapM.attempt operation).outcome heap = operation.outcome := by
  obtain ⟨value, ticks⟩ := operation
  cases value with
  | ok a => rfl
  | error fault => cases fault <;> rfl

namespace Attempt

variable {α β : Type}

@[simp]
theorem outcome_pure (a : α) : (pure a : Attempt α).outcome = .ok a :=
  rfl

/-- An operation goes on with what was read. -/
theorem outcome_lift_bind (reading : Metered α) (next : α → Attempt β) :
    Attempt.outcome (monadLift reading >>= next) = (next reading.value).outcome :=
  rfl

theorem outcome_bind_of_ok {attempt : Attempt α} {a : α} (next : α → Attempt β)
    (done : attempt.outcome = .ok a) : (attempt >>= next).outcome = (next a).outcome := by
  obtain ⟨value, ticks⟩ := attempt
  cases value with
  | ok b =>
    cases done
    rfl
  | error fault => cases done

end Attempt

/-! ### Kinds that have vectors -/

/-- Whether vectors, also those in lists, are of kinds that have vectors. -/
inductive Eager.IsProper : Eager → Prop where
  | null : IsProper .null
  | closure (layout : Layout) (env : FrameId) : IsProper (.closure layout env)
  | builtin (name : Symbol) (index : Nat) : IsProper (.builtin name index)
  | vector {kind : Kind} {cells : List Cell} {extras : Extras}
      (vectors : kind.HasVectors)
      (items : ∀ item, .item item ∈ cells → IsProper item) :
      IsProper (.vector kind cells extras)

theorem Eager.IsProper.isOrdinary {v : Value} (proper : v.eager.IsProper) : v.IsOrdinary := by
  intro vector
  cases v with
  | vector storage metadata =>
    cases proper with
    | vector vectors items => exact vectors
  | _ => cases vector

namespace Value

/-! ### What is carried -/

theorem extrasOf_setDims (metadata : Option Metadata) (dims : List Nat) :
    extrasOf (some ((metadata.getD .empty).setDims dims)) = (extrasOf metadata).setDims dims := by
  cases metadata with
  | none => rfl
  | some m => cases m; rfl

theorem extrasOf_setNames (metadata : Option Metadata) (names : List (Option String)) :
    extrasOf (some ((metadata.getD .empty).setNames names)) =
      (extrasOf metadata).setNames names := by
  cases metadata with
  | none => rfl
  | some m => cases m; rfl

theorem eagerAttributes_setEntry (name : Symbol) (value : Value)
    (attributes : List (Symbol × Value)) :
    eagerAttributes (setEntry name value attributes) =
      setEntry name value.eager (eagerAttributes attributes) := by
  induction attributes with
  | nil => rfl
  | cons entry rest ih =>
    rw [setEntry]
    by_cases same : entry.1 = name
    · rw [if_pos same, eagerAttributes, eagerAttributes, setEntry, if_pos same]
    · rw [if_neg same, eagerAttributes, ih, eagerAttributes, setEntry, if_neg same]

theorem extrasOf_setAttribute (metadata : Option Metadata) (name : Symbol) (value : Value) :
    extrasOf (some ((metadata.getD .empty).setAttribute name value)) =
      (extrasOf metadata).setAttribute name value.eager := by
  cases metadata with
  | none => rfl
  | some m =>
    cases m
    exact congrArg (Extras.mk _ _) (eagerAttributes_setEntry name value _)

theorem extrasOf_namesOnly (metadata : Option Metadata) :
    extrasOf (metadata.bind Metadata.namesOnly) = (extrasOf metadata).namesOnly := by
  cases metadata with
  | none => rfl
  | some m =>
    cases m with
    | mk dims names attributes => cases names <;> rfl

theorem eager_withAttribute (v : Value) (name : Symbol) (value : Value) :
    (v.withAttribute name value).eager = v.eager.withAttribute name value.eager := by
  cases v with
  | vector storage metadata =>
    exact congrArg (Eager.vector _ _) (extrasOf_setAttribute metadata name value)
  | _ => rfl

theorem eager_strip (v : Value) : v.strip.eager = v.eager.strip := by
  cases v <;> rfl

theorem eager_stripKeepNames (v : Value) : v.stripKeepNames.eager = v.eager.stripKeepNames := by
  cases v with
  | vector storage metadata => exact congrArg (Eager.vector _ _) (extrasOf_namesOnly metadata)
  | _ => rfl

theorem withNames_eq (v : Value) (names : List (Option String)) :
    ((v.withNames names).mapError Stop.defect).map eager = v.eager.withNames names := by
  cases v with
  | vector storage metadata =>
    have sizes := (Value.vector storage metadata).size_eq
    by_cases same : names.length = (Value.vector storage metadata).size
    · have kept := extrasOf_setNames metadata names
      rw [withNames, if_neg (by simp [same])]
      rw [sizes] at same
      exact (congrArg (fun extras => Except.ok (Eager.vector _ _ extras)) kept).trans
        (if_pos same).symm
    · rw [withNames, if_pos (by simp [same, isVector])]
      rw [sizes] at same
      exact (if_neg same).symm
  | _ => rfl

theorem withDims_eq (v : Value) (dims : List Nat) :
    ((v.withDims dims).mapError Stop.defect).map eager = v.eager.withDims dims := by
  cases v with
  | vector storage metadata =>
    have sizes : (Value.vector storage metadata).size = storage.cells.length := storage.size_eq
    have kept := extrasOf_setDims metadata dims
    rw [withDims, if_neg (by simp [isVector]), sizes]
    -- Both refuse in the same order: an extent of zero, a product past 64 bits, and one that
    -- differs from the length.
    by_cases zero : dims.contains 0
    · rw [if_pos zero]
      exact (if_pos (List.contains_iff_mem.mp zero)).symm
    · have positive : 0 ∉ dims := fun member => zero (List.contains_iff_mem.mpr member)
      rw [if_neg zero]
      refine Eq.trans ?_ (if_neg positive).symm
      by_cases large : Nat.pow 2 64 ≤ extent dims
      · rw [if_pos large, if_pos large]
        rfl
      · rw [if_neg large, if_neg large]
        by_cases same : extent dims = storage.cells.length
        · rw [if_neg (not_not_intro same), if_pos same]
          exact congrArg (fun extras => Except.ok (Eager.vector _ _ extras)) kept
        · rw [if_pos same, if_neg same]
          rfl
  | _ => rfl

/-! ### Counters -/

theorem eager_traced (fresh : TraceId) (v : Value) : (v.traced fresh).eager = v.eager := by
  unfold traced
  split <;> rfl

theorem eager_addTrace (heap : Heap) (v : Value) : (heap.addTrace v).1.eager = v.eager := by
  rw [Heap.addTrace]
  split
  · exact eager_traced _ v
  · rfl

/-! ### Coercion -/

/-- The elements of a value stay as they are when they are coerced to its kind. -/
theorem map_coerce_kind {v : Value} (vectors : v.kind.HasVectors) :
    (v.eager.cells.map fun cell => cell.coerce v.kind) = v.eager.cells := by
  cases v with
  | null => exact absurd rfl vectors.1
  | closure layout env => exact absurd rfl vectors.2
  | builtin name index => exact absurd rfl vectors.2
  | vector storage metadata =>
    refine (List.map_congr_left fun cell member => ?_).trans (List.map_id' _)
    have kind_eq : cell.kind = (Value.vector storage metadata).kind :=
      storage.kind_of_mem_cells vectors member
    rw [← kind_eq, cell.coerce_kind]

theorem toVector_eq (v : Value) {kind : Kind} {empty : Value}
    (vectors : kind.HasVectors) (nothing : empty.eager = .ofCells kind []) :
    ((v.toVector kind empty).mapError fun cause => Stop.error { cause }).map eager =
      v.eager.toVector kind := by
  rw [toVector]
  by_cases same : v.kind = kind
  · subst same
    rw [if_pos rfl]
    have unchanged := map_coerce_kind vectors
    cases v with
    | vector storage metadata =>
      exact congrArg (fun cells => Except.ok (Eager.vector _ cells _)) unchanged.symm
    | null => exact absurd rfl vectors.1
    | closure layout env => exact absurd rfl vectors.2
    | builtin name index => exact absurd rfl vectors.2
  · rw [if_neg same]
    cases v with
    | null => exact congrArg Except.ok nothing
    | vector storage metadata => rfl
    | closure layout env => rfl
    | builtin name index => rfl

/-- Coercion takes each element to the other kind. -/
theorem coerceTo_eq (v : Value) (kind : Kind) :
    ((v.coerceTo kind).mapError fun cause => Stop.error { cause }).map eager =
      v.eager.coerceTo kind := by
  cases kind with
  | null => rfl
  | atomic kind => exact v.toVector_eq (Kind.hasVectors_atomic kind) rfl
  | list => exact v.toVector_eq Kind.hasVectors_list rfl
  | closure => cases v <;> rfl

/-! ### Assignment -/

theorem asKind_eq (s : Scalar) (kind : ElementKind) :
    (s.asKind kind).value = s.cell.asKind kind := by
  cases s with
  | atom a => rfl
  | item v =>
    have found : (cellsOfItems [v])[0]? = some (.item v.eager) := rfl
    exact atomOfItem_eq [v] found kind

/-- A vector is stored as atoms or as list items once it is materialized. -/
theorem materialize_cases (fresh : StorageId) {v : Value} (ordinary : v.IsOrdinary)
    (vector : v.isVector) :
    (∃ kind stored, (v.materialize fresh).value = .vector (.atoms kind stored) v.metadata) ∨
      ∃ id items, (v.materialize fresh).value = .vector (.list id items) v.metadata := by
  cases v with
  | null => cases vector
  | closure layout env => cases vector
  | builtin name index => cases vector
  | vector storage metadata =>
    cases storage with
    | atoms kind stored => exact .inl ⟨kind, stored, rfl⟩
    | list id items => exact .inr ⟨id, items, rfl⟩
    | view source =>
      cases same : source.kind with
      | atomic kind => exact .inl ⟨kind, _, materialize_atoms fresh same⟩
      | list => exact .inr ⟨fresh, _, materialize_list fresh same⟩
      | null => exact absurd same (ordinary rfl).1
      | closure => exact absurd same (ordinary rfl).2

theorem outcome_replaceAt_atoms {fresh : StorageId} {v : Value} {index : Nat} {kind : ElementKind}
    {stored : List kind.Carrier} {metadata : Option Metadata} (element : Scalar)
    (inside : ¬ v.size ≤ index)
    (made : (v.materialize fresh).value = .vector (.atoms kind stored) metadata) :
    (v.replaceAt fresh index element).outcome =
      .ok (.vector (.atoms kind (stored.set index (element.asKind kind).value)) metadata) := by
  rw [replaceAt, if_neg inside]
  generalize v.materialize fresh = reading at made
  obtain ⟨value, ticks⟩ := reading
  cases made
  rfl

theorem outcome_replaceAt_list {fresh id : StorageId} {v : Value} {index : Nat}
    {items : List Value} {metadata : Option Metadata} (element : Scalar)
    (inside : ¬ v.size ≤ index)
    (made : (v.materialize fresh).value = .vector (.list id items) metadata) :
    (v.replaceAt fresh index element).outcome =
      .ok (.vector (.list fresh (items.set index element.toItem)) metadata) := by
  rw [replaceAt, if_neg inside]
  generalize v.materialize fresh = reading at made
  obtain ⟨value, ticks⟩ := reading
  cases made
  rfl

/-- Replacing an element of a vector replaces the element of its denotation. -/
theorem replaceAt_eq (fresh : StorageId) {v : Value} (ordinary : v.IsOrdinary)
    {kind : Kind} {cells : List Cell} {extras : Extras}
    (denotes : v.eager = .vector kind cells extras) (index : Nat) (element : Scalar) :
    (v.replaceAt fresh index element).outcome.map eager =
      if cells.length ≤ index then .error (.defect (.indexPastLength index cells.length))
      else .ok (.vector kind (cells.set index (element.cell.coerce kind)) extras) := by
  have sizes : v.size = cells.length := by rw [v.size_eq, denotes]; rfl
  by_cases past : v.size ≤ index
  · rw [replaceAt, if_pos past]
    rw [sizes] at past
    rw [if_pos past, ← sizes]
    rfl
  · have vector : v.isVector := by
      cases v with
      | vector storage metadata => rfl
      | _ => cases denotes
    -- What is replaced in is the materialized vector, which denotes the same as the vector.
    have kept := eager_materialize fresh ordinary
    rw [denotes] at kept
    have inside : ¬ cells.length ≤ index := by rwa [sizes] at past
    rw [if_neg inside]
    rcases materialize_cases fresh ordinary vector with ⟨own, stored, made⟩ | ⟨id, items, made⟩
    · rw [made] at kept
      cases kept
      rw [outcome_replaceAt_atoms element past made]
      simp only [Except.map, eager, Storage.kind, Storage.cells, Cell.coerce, List.map_set,
        asKind_eq]
    · rw [made] at kept
      cases kept
      rw [outcome_replaceAt_list element past made]
      simp only [Except.map, eager, Storage.kind, Storage.cells, Cell.coerce, cellsOfItems_eq,
        List.map_set, Scalar.eager_toItem]

theorem kindHolding_eq (v : Value) (element : Kind) :
    v.kindHolding element = Eager.kindHolding v.kind element := by
  simp [kindHolding, Eager.kindHolding]

end Value

/-- A value other than a function is coerced to a vector that can hold the element. -/
theorem Eager.coerceTo_of_kindHolding {v : Eager} {element target : Kind}
    (vectors : element.HasVectors)
    (holding : kindHolding v.kind element = some target) :
    target.HasVectors ∧
      ∃ cells extras, v.coerceTo target = .ok (.vector target cells extras) := by
  have wide : target.HasVectors := by
    rw [kindHolding] at holding
    -- A function is refused, and a list on either side leads to a list; what is left are atoms and
    -- `NULL`, which become atoms of the wider kind.
    split at holding
    · cases holding
    · split at holding
      · cases holding
        exact Kind.hasVectors_list
      · next own_closure lists =>
        cases element with
        | null => exact absurd rfl vectors.1
        | closure => exact absurd rfl vectors.2
        | list => exact absurd (.inr rfl) lists
        | atomic kind =>
          cases own : v.kind with
          | closure => exact absurd own own_closure
          | list => exact absurd (.inl own) lists
          | _ =>
            rw [own] at holding
            cases holding
            exact Kind.hasVectors_atomic _
  refine ⟨wide, ?_⟩
  have no_function : v.kind ≠ .closure := fun same => by simp [kindHolding, same] at holding
  cases target with
  | null => exact absurd rfl wide.1
  | closure => exact absurd rfl wide.2
  | _ =>
    cases v with
    | null => exact ⟨_, _, rfl⟩
    | vector own cells extras => exact ⟨_, _, rfl⟩
    | closure layout env => exact absurd rfl no_function
    | builtin name index => exact absurd rfl no_function

theorem Eager.set_eq {v : Eager} {element : Cell} {target : Kind} {cells : List Cell}
    {extras : Extras} (holding : kindHolding v.kind element.kind = some target)
    (widened : v.coerceTo target = .ok (.vector target cells extras)) (index : Nat) :
    v.set index element =
      if cells.length ≤ index then .error (.defect (.indexPastLength index cells.length))
      else .ok (.vector target (cells.set index (element.coerce target)) extras) := by
  rw [set, holding]
  simp only [widened]
  rfl

namespace Value

theorem coerceTo_self {v : Value} {kind : Kind} (vectors : kind.HasVectors)
    (same : v.kind = kind) : v.coerceTo kind = .ok v := by
  cases kind with
  | null => exact absurd rfl vectors.1
  | closure => exact absurd rfl vectors.2
  | _ => exact if_pos same

/-- Assignment to an element is assignment to the element of the denotation. -/
theorem set_eq (fresh : StorageId) (v : Value) (index : Nat) (element : Scalar) :
    (v.set fresh index element).outcome.map eager = v.eager.set index element.cell := by
  rw [set, kindHolding_eq]
  cases holding : Eager.kindHolding v.kind element.kind with
  | none =>
    rw [Eager.set, v.kind_eager, element.kind_cell, holding, v.typeName_eager]
    rfl
  | some target =>
    have eager_holding : Eager.kindHolding v.eager.kind element.cell.kind = some target := by
      rw [v.kind_eager, element.kind_cell, holding]
    obtain ⟨vectors, cells, extras, widened⟩ :=
      Eager.coerceTo_of_kindHolding element.cell.hasVectors_kind eager_holding
    rw [Eager.set_eq eager_holding widened]
    have coerced := v.coerceTo_eq target
    rw [widened] at coerced
    cases result : v.coerceTo target with
    | error cause =>
      rw [result] at coerced
      cases coerced
    | ok wide =>
      rw [result] at coerced
      have denotes : wide.eager = .vector target cells extras := Except.ok.inj coerced
      have wide_ordinary : wide.IsOrdinary := fun _ => by
        rwa [← wide.kind_eager, denotes]
      by_cases same : v.kind = target
      · -- A value that has the kind already is not wrapped.
        have unchanged : wide = v := by
          rw [coerceTo_self vectors same] at result
          exact (Except.ok.inj result).symm
        subst unchanged
        refine Eq.trans ?_ (replaceAt_eq fresh wide_ordinary denotes index element)
        exact congrArg (fun attempt => (Attempt.outcome attempt).map eager) (if_pos same)
      · have stored_denotes := eager_materialize fresh wide_ordinary
        rw [denotes] at stored_denotes
        have stored_ordinary : (wide.materialize fresh).value.IsOrdinary := fun _ => by
          rwa [← kind_eager, stored_denotes]
        refine Eq.trans ?_ (replaceAt_eq fresh stored_ordinary stored_denotes index element)
        refine congrArg (Except.map eager) ?_
        refine (congrArg Attempt.outcome (if_neg same)).trans ?_
        rw [result]
        rfl

end Value

end Vectorial
