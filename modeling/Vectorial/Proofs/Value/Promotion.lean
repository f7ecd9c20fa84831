import Vectorial.Proofs.Value.Elements

/-!
# Assignment widens a vector and stores it

Assigning an element to a vector takes all of its elements to the kind that holds them and the
new one, which is that of lists as soon as one of the two is a list or an item of one. The
result is stored, whatever the vector was before, carries what the vector carried, and differs
from the vector in no element but the assigned one.

## Main definitions

* `Value.Assigns`: a stored vector that differs in one element and in the kind of all.

## Main results

* `Value.assigns_replaceAt`: an element of the right kind is replaced in place;
* `Value.set_promotes`: assignment to any element of any value.
-/

namespace Vectorial.Value

variable {v w : Value} {index : Nat} {element : Scalar} {kind : Kind} {fresh : StorageId}

/-- A stored vector of the kind, with the size of `v` and what `v` carries. Its elements are
those of `v` coerced to the kind, except that at the index there is the given one. -/
structure Assigns (v : Value) (index : Nat) (element : Scalar) (kind : Kind) (w : Value) :
    Prop where
  isVector : w.isVector
  isView : w.isView = false
  kind_eq : w.kind = kind
  size_eq : w.size = v.size
  metadata_eq : w.metadata = v.metadata
  here : (w.element index).value = (element.coerce kind).value
  elsewhere : ∀ other < v.size, other ≠ index →
    (w.element other).value = ((v.element other).value.coerce kind).value

/-! ### In place -/

theorem kind_materialize (fresh : StorageId) (ordinary : v.IsOrdinary) :
    (v.materialize fresh).value.kind = v.kind := by
  rw [← kind_eager, eager_materialize fresh ordinary, kind_eager]

/-- The elements of an ordinary vector are of its kind already. -/
theorem value_coerce_element (ordinary : v.IsOrdinary) (vector : v.isVector)
    (inside : index < v.size) :
    ((v.element index).value.coerce v.kind).value = (v.element index).value := by
  rw [← kind_element ordinary vector inside, Scalar.value_coerce_kind]

/-- Stored atoms with one of them replaced. -/
theorem assigns_atoms {own : ElementKind} {stored : List own.Carrier} {metadata : Option Metadata}
    (inside : index < stored.length) (element : Scalar) :
    (Value.vector (.atoms own stored) metadata).Assigns index element (.atomic own)
      (.vector (.atoms own (stored.set index (element.asKind own).value)) metadata) := by
  refine ⟨rfl, rfl, rfl, List.length_set .., rfl, ?_, fun other before apart => ?_⟩
  · simp [Value.element, Storage.element, inside, Scalar.coerce]
  · refine Eq.trans ?_ (Scalar.value_coerce_kind (.atom ⟨own, _⟩)).symm
    exact congrArg (fun x => Scalar.atom ⟨own, x.getD own.missing⟩)
      (List.getElem?_set_ne (Ne.symm apart))

/-- Stored list items with one of them replaced. -/
theorem assigns_items {id : StorageId} {items : List Value} {metadata : Option Metadata}
    (inside : index < items.length) (element : Scalar) :
    (Value.vector (.list id items) metadata).Assigns index element .list
      (.vector (.list fresh (items.set index element.toItem)) metadata) := by
  refine ⟨rfl, rfl, rfl, List.length_set .., rfl, ?_, fun other before apart => ?_⟩
  · simp [Value.element, Storage.element, inside, Scalar.coerce]
  · exact congrArg (fun x => Scalar.item (x.getD .null)) (List.getElem?_set_ne (Ne.symm apart))

/-- What is assigned to a vector that shows the elements of another one, coerced, is assigned
to the other one. -/
theorem Assigns.of_coerced {stored : Value} (assigns : stored.Assigns index element kind w)
    (sizes : stored.size = v.size) (carried : stored.metadata = v.metadata)
    (shown : ∀ other < v.size, ((stored.element other).value.coerce kind).value =
      ((v.element other).value.coerce kind).value) : v.Assigns index element kind w where
  isVector := assigns.isVector
  isView := assigns.isView
  kind_eq := assigns.kind_eq
  size_eq := assigns.size_eq.trans sizes
  metadata_eq := assigns.metadata_eq.trans carried
  here := assigns.here
  elsewhere other before apart :=
    (assigns.elsewhere other (sizes.symm ▸ before) apart).trans (shown other before)

/-- An element of a vector is replaced in place. -/
theorem assigns_replaceAt (fresh : StorageId) (ordinary : v.IsOrdinary) (vector : v.isVector)
    (inside : index < v.size) (element : Scalar) :
    ∃ w, (v.replaceAt fresh index element).outcome = .ok w ∧ v.Assigns index element v.kind w := by
  have kinds := kind_materialize fresh ordinary
  have sizes := size_materialize fresh ordinary
  have carried := metadata_materialize fresh v
  have shown (other : Nat) (before : other < v.size) :=
    congrArg (fun s => (Scalar.coerce s v.kind).value) (element_materialize fresh ordinary before)
  -- Whichever way the vector is stored afterwards, it has the kind, the size, the metadata and the
  -- elements of the vector before.
  rcases materialize_cases fresh ordinary vector with ⟨own, stored, made⟩ | ⟨id, items, made⟩
  · rw [made] at kinds sizes carried shown
    refine ⟨_, outcome_replaceAt_atoms element (Nat.not_le_of_lt inside) made, ?_⟩
    rw [← kinds] at shown ⊢
    exact (assigns_atoms (Nat.lt_of_lt_of_eq inside sizes.symm) element).of_coerced sizes carried
      shown
  · rw [made] at kinds sizes carried shown
    refine ⟨_, outcome_replaceAt_list element (Nat.not_le_of_lt inside) made, ?_⟩
    rw [← kinds] at shown ⊢
    exact (assigns_items (Nat.lt_of_lt_of_eq inside sizes.symm) element).of_coerced sizes carried
      shown

/-! ### Widened -/

/-- A vector and an element have a kind that holds both. -/
theorem exists_kindHolding (ordinary : v.IsOrdinary) (vector : v.isVector) (element : Scalar) :
    ∃ kind, v.kindHolding element.kind = some kind ∧ kind.HasVectors ∧
      if v.kind = .list ∨ element.kind = .list then kind = .list
      else v.kind.common element.kind = some kind := by
  have own := ordinary vector
  have other : element.kind.HasVectors := element.kind_cell ▸ element.cell.hasVectors_kind
  -- That there is such a kind is all that has to be seen; which one follows from its definition.
  suffices ∃ kind, v.kindHolding element.kind = some kind by
    obtain ⟨kind, holding⟩ := this
    have wide : kind.HasVectors := by
      rw [kindHolding_eq, ← kind_eager] at holding
      exact (Eager.coerceTo_of_kindHolding other holding).1
    refine ⟨kind, holding, wide, ?_⟩
    rw [kindHolding, if_neg own.2] at holding
    split at holding
    · next lists =>
      cases holding
      rw [if_pos (by simpa using lists)]
    · next atoms => rwa [if_neg (by simpa using atoms)]
  rw [kindHolding, if_neg own.2]
  split
  · exact ⟨_, rfl⟩
  · next atoms =>
    cases at_own : v.kind with
    | null => exact absurd at_own own.1
    | closure => exact absurd at_own own.2
    | list => simp [at_own] at atoms
    | atomic a =>
      cases at_other : element.kind with
      | null => exact absurd at_other other.1
      | closure => exact absurd at_other other.2
      | list => simp [at_other] at atoms
      | atomic b => exact ⟨_, rfl⟩

theorem isVector_viewedAs (vector : v.isVector) : (v.viewedAs kind).isVector := by
  cases v <;> first | rfl | cases vector

theorem kind_viewedAs (vector : v.isVector) : (v.viewedAs kind).kind = kind := by
  cases v <;> first | rfl | cases vector

theorem isOrdinary_viewedAs (vector : v.isVector) (vectors : kind.HasVectors) :
    (v.viewedAs kind).IsOrdinary := fun _ => by
  rwa [kind_viewedAs vector]

theorem isVector_materialize (fresh : StorageId) (ordinary : v.IsOrdinary) (vector : v.isVector) :
    (v.materialize fresh).value.isVector := by
  rcases materialize_cases fresh ordinary vector with ⟨_, _, made⟩ | ⟨_, _, made⟩ <;>
    exact made ▸ rfl

theorem isOrdinary_materialize (fresh : StorageId) (ordinary : v.IsOrdinary) :
    (v.materialize fresh).value.IsOrdinary := by
  intro vector
  rw [kind_materialize fresh ordinary]
  refine ordinary ?_
  cases v <;> first | rfl | exact vector

/-- An element of a vector that is stored first is replaced in the stored one. -/
theorem assigns_stored (ordinary : v.IsOrdinary) (vector : v.isVector) (inside : index < v.size)
    (element : Scalar) :
    ∃ w, (do
        let stored ← (v.materialize fresh : Metered Value)
        stored.replaceAt fresh index element : Attempt Value).outcome = .ok w ∧
      v.Assigns index element v.kind w := by
  have sizes := size_materialize fresh ordinary
  obtain ⟨w, done, assigns⟩ := assigns_replaceAt fresh (isOrdinary_materialize fresh ordinary)
    (isVector_materialize fresh ordinary vector) (sizes.symm ▸ inside) element
  rw [kind_materialize fresh ordinary] at assigns
  refine ⟨w, (Attempt.outcome_lift_bind _ _).trans done,
    assigns.of_coerced sizes (metadata_materialize fresh v) fun other before => ?_⟩
  rw [element_materialize fresh ordinary before]

/-- A vector of another kind is coerced without being read. -/
theorem coerceTo_of_ne (vector : v.isVector) (vectors : kind.HasVectors) (other : v.kind ≠ kind) :
    v.coerceTo kind = .ok (v.viewedAs kind) := by
  have taken (empty : Value) : v.toVector kind empty = .ok (v.viewedAs kind) := by
    rw [toVector, if_neg other]
    cases v <;> first | rfl | cases vector
  cases kind with
  | atomic kind => exact taken _
  | list => exact taken _
  | null => exact absurd rfl vectors.1
  | closure => exact absurd rfl vectors.2

/-- For all values, of kinds that have vectors where they are vectors: assigning any element at
an index inside a value that is no function gives a stored vector of the same size with the
same names, dimensions and attributes. It is a list if the value is one or a list item is
assigned, and otherwise of the common kind of both; the assigned element is the given one
coerced to this kind, and every other one is the old one coerced to it. A function is refused,
and nothing is read. -/
theorem set_promotes (fresh : StorageId) (v : Value) (ordinary : v.IsOrdinary) (index : Nat)
    (element : Scalar) :
    if v.isFunction then
      v.set fresh index element = Attempt.refuse (.unsupportedOperand "[<-" v.typeName)
    else
      index < v.size → ∃ kind w,
        (if v.kind = .list ∨ element.kind = .list then kind = .list
          else v.kind.common element.kind = some kind) ∧
        (v.set fresh index element).outcome = .ok w ∧ v.Assigns index element kind w := by
  split
  · next function =>
    have no_kind : v.kindHolding element.kind = none := if_pos (by
      cases v <;> first | rfl | cases function)
    rw [set, no_kind]
  next ordinary_value =>
  intro inside
  have vector : v.isVector := by
    cases v with
    | vector storage metadata => rfl
    | null => exact absurd inside (Nat.not_lt_zero index)
    | closure layout env => exact absurd rfl ordinary_value
    | builtin name handle => exact absurd rfl ordinary_value
  obtain ⟨kind, holding, vectors, chosen⟩ := exists_kindHolding ordinary vector element
  rw [set, holding]
  by_cases same : v.kind = kind
  · subst same
    obtain ⟨w, done, assigns⟩ := assigns_replaceAt fresh ordinary vector inside element
    exact ⟨v.kind, w, chosen, by simpa using done, assigns⟩
  · -- The vector is viewed in the other kind, stored, and then changed in place.
    have wide := isOrdinary_viewedAs vector vectors
    have sizes : (v.viewedAs kind).size = v.size := by cases v <;> rfl
    have carried : (v.viewedAs kind).metadata = v.metadata := by cases v <;> rfl
    obtain ⟨w, done, assigns⟩ := assigns_stored wide (isVector_viewedAs vector)
      (sizes.symm ▸ inside) element
    rw [kind_viewedAs vector] at assigns
    refine ⟨kind, w, chosen, ?_, assigns.of_coerced sizes carried fun other before => ?_⟩
    · simpa only [if_neg same, coerceTo_of_ne vector vectors same, Attempt.ofCause,
        Attempt.ofExcept, pure_bind]
        using done
    · rw [← element_viewedAs vector vectors before]
      have unchanged := value_coerce_element wide (isVector_viewedAs vector) (sizes.symm ▸ before)
      rwa [kind_viewedAs vector] at unchanged

/-- A text assigned into a descending progression makes its terms texts. -/
theorem set_promotes_textIntoProgression :
    let names := some (.mk none (some [some "first", none, some "last"]) [])
    let v := Value.vector (.view (.sequence ⟨12, 10, -1, by decide⟩)) names
    let text (s : String) := Scalar.atom ⟨.character, some s⟩
    (∃ w, (v.set 5 1 (text "x")).outcome = .ok w ∧ w.isView = false ∧ w.metadata = names ∧
      (w.element 0).value = text "12" ∧ (w.element 1).value = text "x" ∧
      (w.element 2).value = text "10") ∧
    (Value.builtin "length" 1).set 5 0 (text "x") =
      Attempt.refuse (.unsupportedOperand "[<-" "builtin") := by
  intro names v text
  constructor
  · have ordinary : v.IsOrdinary := fun _ => Kind.hasVectors_atomic .integer
    have holds := set_promotes 5 v ordinary 1 (text "x")
    rw [if_neg (by decide)] at holds
    obtain ⟨kind, w, chosen, done, assigns⟩ := holds (by decide)
    obtain rfl : Kind.atomic .character = kind := Option.some.inj chosen
    refine ⟨w, done, assigns.isView, assigns.metadata_eq, ?_, assigns.here, ?_⟩
    · exact assigns.elsewhere 0 (by decide) (by decide)
    · exact assigns.elsewhere 2 (by decide) (by decide)
  · exact set_promotes 5 (.builtin "length" 1) nofun 0 (text "x")

end Vectorial.Value
