import Mathlib.Algebra.Group.Nat.Defs
import Vectorial.Call.Matching
import Vectorial.Proofs.Builtin.Safety
import Vectorial.Proofs.Evaluation.Discipline

/-!
# Values that a host can reach

A host reaches values by performing operations on values that it has reached before: it makes
vectors, lists and functions, looks at vectors in other ways, applies operators and calls
builtins. It also reaches what is inside of a value, the items of lists and the attributes.

Lengths are looked at only when something is attached to a vector. They are right all the
same for everything that can be reached, because no later operation changes the number of
elements of a vector that carries something.

## Main definitions

* `Value.Reachable`: the values that some operations lead to;
* `Value.Contains`: the values inside of a value;
* `Value.Tallies`: what a vector carries and how it computes its elements go with its length
  and its kind.

## Main results

* `Value.Reachable.wellFormed`: every operation leads to well-formed values only;
* `Value.WellFormed.of_contains`: what is inside of a well-formed value is well formed;
* `Value.tallies_of_reachable`: everything inside of a value that can be reached tallies.
-/

namespace Vectorial

namespace Value

variable {v w : Value}

/-! ### What can be reached and what is inside -/

/-- The values that some operations lead to. What an operation is performed on was reached
before, in whichever heap. -/
inductive Reachable : Value → Prop where
  | perform {pool : List Value} (earlier : ∀ w ∈ pool, Reachable w) {instruction : Instruction}
      {heap later : Heap} {v : Value} (done : instruction.perform pool heap = .ok v later) :
      Reachable v
  | viewedAs {v : Value} (earlier : Reachable v) {kind : Kind} (vectors : kind.HasVectors) :
      Reachable (v.viewedAs kind)
  | binary {left right : Value} (first : Reachable left) (second : Reachable right)
      {op : BinaryOp} {heap later : Heap} {v : Value}
      (done : HeapM.attempt (Value.binary op left right) heap = .ok v later) : Reachable v
  | builtin {actuals : Parts} (earlier : ∀ part ∈ actuals, Reachable part.2) {builtin : Builtin}
      (registered : builtin ∈ Registry.standard.builtins) {binding : Binding}
      (matched : Matching.matchCall builtin.formals (actuals.map Prod.fst) = .ok binding)
      {heap later : Heap} {v : Value}
      (done : HeapM.operate (builtin.run ⟨builtin.formals, binding, actuals⟩) heap = .ok v later) :
      Reachable v

/-- Whether the second value is the first one or inside of it: among its elements as list
items, among its attributes, or further inside. -/
inductive Contains : Value → Value → Prop where
  | self (v : Value) : Contains v v
  | element {v inner : Value} {index : Nat} {reading : Metered Scalar}
      (read : v.get index = .ok reading) (within : Contains reading.value.toItem inner) :
      Contains v inner
  | attached {v inner : Value} {entry : Symbol × Value} (carried : entry ∈ v.attributes)
      (within : Contains entry.2 inner) : Contains v inner

/-- Whether all that is known of a vector without reading it is true of what is read: it has
one name for each element, and positive dimensions whose product is the number of elements.
Metadata are there only if they carry something. A view has elements of its kind and of no
other, as many as it tells, and the same ones whether they are read one by one or produced at
once. -/
structure Tallies (v : Value) : Prop where
  named : ∀ names, v.names = some names → names.length = v.size
  shaped : ∀ dims, v.dims = some dims → (∀ d ∈ dims, 0 < d) ∧ dims.prod = v.size
  carries : ∀ m, v.metadata = some m → m.isEmpty = false
  computed : ∀ source m, v = .vector (.view source) m →
    v.kind.HasVectors ∧ source.fill.value.length = v.size ∧
      (∀ element ∈ source.fill.value, element.kind = v.kind) ∧
      ∀ index < v.size, ∃ reading, v.get index = .ok reading ∧
        source.fill.value[index]? = some reading.value

end Value

/-! ### Operations -/

theorem Attempt.Delivers.of_isSafe {α : Type} {attempt : Attempt α} {P : α → Prop}
    (safe : attempt.IsSafe P) : attempt.Delivers P := by
  intro a delivered
  rw [IsSafe, outcome, ExceptT.run, delivered] at safe
  exact safe

/-- What an operation leaves behind is what the attempt that it makes delivers. -/
theorem of_operate_eq_ok {α : Type} {operation : Operation α} {P : α → Prop}
    (safe : operation.IsSafe P) {heap later : Heap} {a : α}
    (done : HeapM.operate operation heap = .ok a later) : P a := by
  rw [Discipline.operate_eq] at done
  cases attempted : HeapM.attempt (operation heap.nextStorage) heap with
  | error stop later =>
    rw [attempted] at done
    cases done
  | ok result later =>
    rw [attempted] at done
    cases done
    exact of_attempt_eq_ok (.of_isSafe (safe _)) attempted

namespace Value

variable {v w inner : Value}

/-- Every operation leads to well-formed values only. -/
theorem Reachable.wellFormed (reachable : v.Reachable) : v.WellFormed := by
  induction reachable with
  | perform _ done ih => exact wellFormed_perform ih done
  | viewedAs _ vectors ih => exact ih.viewedAs vectors
  | binary _ _ done =>
    exact of_attempt_eq_ok (.of_isSafe (binary_isSafe _ _ _)) done
  | builtin _ registered _ done ih =>
    exact of_operate_eq_ok (Registry.standard_isSafe _ registered ⟨_, _, _⟩ rfl ih) done

/-- What instructions build from values that can be reached can be reached. -/
theorem reachable_of_build {instructions : List Instruction} {pool results : List Value}
    (earlier : ∀ v ∈ pool, v.Reachable) {heap later : Heap}
    (built : build instructions pool heap = .ok results later) :
    ∀ v ∈ results, v.Reachable :=
  forall_mem_of_build (fun _ _ _ _ _ earlier done => .perform earlier done) earlier built

/-! ### Inside of a value -/

theorem WellFormed.attributes (sound : v.WellFormed) :
    ∀ entry ∈ v.attributes, entry.2.WellFormed := by
  intro entry attached
  cases sound with
  | null => cases attached
  | closure => cases attached
  | builtin => cases attached
  | @vector storage metadata _ _ _ attributes =>
    cases metadata with
    | none => cases attached
    | some m => exact attributes m rfl entry attached

/-- What is inside of a well-formed value is well formed. -/
theorem WellFormed.of_contains (sound : v.WellFormed) (within : v.Contains inner) :
    inner.WellFormed := by
  induction within with
  | self => exact sound
  | element read _ ih => exact ih (sound.get read)
  | attached carried _ ih => exact ih (sound.attributes _ carried)

end Value

/-! ### Lengths and kinds -/

/-- An element of a view is of the kind of the view. -/
theorem View.kind_element {source : View} (vectors : source.kind.HasVectors) {index : Nat}
    (inside : index < source.size) : (source.element index).value.kind = source.kind := by
  have inside : index < source.cells.length := source.size_eq ▸ inside
  have read := source.element_eq (List.getElem?_eq_getElem inside)
  rw [← Scalar.kind_cell, read]
  exact source.kind_of_mem_cells vectors (List.getElem_mem inside)

namespace Value

variable {v w inner : Value}

/-- Where nothing is wrong, all that is known of a value is true of what is read. -/
theorem WellFormed.tallies (sound : v.WellFormed) : v.Tallies := by
  constructor
  case named =>
    intro names named
    exact sound.length_names named
  case shaped =>
    intro dims shaped
    cases sound with
    | null => cases shaped
    | closure => cases shaped
    | builtin => cases shaped
    | vector stored accounts =>
      obtain ⟨m, carried, shaped⟩ := Option.bind_eq_some_iff.mp shaped
      obtain ⟨positive, product⟩ := (accounts m carried).shaped dims shaped
      refine ⟨fun d listed => Nat.pos_of_ne_zero fun zero => ?_, product⟩
      exact positive (zero ▸ listed)
  case carries =>
    intro m carried
    cases sound with
    | null => cases carried
    | closure => cases carried
    | builtin => cases carried
    | vector stored accounts carries => exact carries m carried
  case computed =>
    rintro source m rfl
    cases sound with
    | vector stored =>
      cases stored with
      | view behind =>
        have vectors := behind.hasVectors
        -- All three facts on a view are read off the list it fills: the elements one by one, in
        -- their order.
        have filled := source.fill_eq vectors
        refine ⟨vectors, ?_, ?_, ?_⟩
        · rw [filled, List.length_map, List.length_range]
          rfl
        · intro element listed
          rw [filled] at listed
          obtain ⟨index, inside, rfl⟩ := List.mem_map.mp listed
          exact View.kind_element vectors (List.mem_range.mp inside)
        · intro index inside
          have inside : index < source.size := inside
          refine ⟨_, get_eq inside, ?_⟩
          rw [filled, List.getElem?_map, List.getElem?_range inside]
          rfl

/-- Everything inside of a value that can be reached tallies: no operation detaches lengths
from elements. -/
theorem tallies_of_reachable (reachable : v.Reachable) (within : v.Contains inner) :
    inner.Tallies :=
  (reachable.wellFormed.of_contains within).tallies

/-- A counted view of a range as doubles in two rows. -/
def countedRows : Value :=
  .vector (.view (.traced 0 (.coerce (.vector (.view (.range ⟨6, by decide⟩)) none)
    (.atomic .double)))) (some (.mk (some [2, 3]) none []))

/-- A list whose only item is also its attribute. -/
def rowsInList : Value :=
  .vector (.list 1 [countedRows]) (some (.mk none (some [some "rows"]) [("shape", countedRows)]))

/-- How a host comes to have the list. -/
def makeRowsInList : List Instruction :=
  [.upTo 6, .coerceTo 0 (.atomic .double), .withDims 1 [2, 3], .traced 2,
    .namedList [(some "rows", 3)], .withAttribute 4 "shape" 3]

theorem tallies_of_reachable_rowsInList :
    rowsInList.Reachable ∧ rowsInList.Contains countedRows ∧ rowsInList.Tallies ∧
      countedRows.Tallies := by
  have built : build makeRowsInList [] .empty = .ok _ _ := rfl
  have reachable : rowsInList.Reachable :=
    reachable_of_build (List.forall_mem_nil _) built _ (List.mem_of_getElem? (i := 5) rfl)
  have carried : ("shape", countedRows) ∈ rowsInList.attributes := List.mem_singleton_self _
  have within : rowsInList.Contains countedRows := .attached carried (.self _)
  exact ⟨reachable, within, tallies_of_reachable reachable (.self _),
    tallies_of_reachable reachable within⟩

end Value

end Vectorial
