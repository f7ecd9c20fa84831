import Vectorial.Proofs.Element.Widening
import Vectorial.Proofs.Value.Absence

/-!
# Production at once bypasses the outermost coercion

A view that reads its elements as another kind is bypassed when all of them are produced at once:
the elements of its source are converted to the kind that is asked for, and never become what the
view would show. For views in views the innermost kinds still count, and only the outermost one is
left out. Nobody can tell if the view is asked for its own kind, which is how values are stored.
In general, the kind of the view must be one by way of which the elements become the kind that is
asked for as directly.

## Main definitions

* `View.fillAs`: the elements of a view in any kind, produced at once;
* `View.beneath`: the elements that are converted;
* `Kind.PassesThrough`: a kind that changes nothing on the way to another one.

## Main results

* `Atom.asKind_narrowed`: any element narrows to a number by way of a wider kind;
* `Scalar.coerce_coerce`: coercion by way of a kind that elements pass through;
* `View.value_fillAs`, `View.value_peek`: what is produced, and what is read;
* `View.fillAs_agrees`: where the two agree, and `View.not_fillAs_agrees`: where they do not.
-/

namespace Vectorial

/-! ### By way of a wider kind -/

namespace Atom

/-- A double becomes the same byte by way of the integers. -/
theorem toRaw_toInteger (d : Binary64) : toRaw ⟨.integer, d.toInteger⟩ = d.toRaw := by
  by_cases none : d.isNaN
  · rw [Binary64.toInteger, Binary64.toInteger?, if_pos none, Binary64.toRaw, if_pos none]
    rfl
  rw [Binary64.toInteger, Binary64.toInteger?, if_neg none, Binary64.toRaw, if_neg none]
  by_cases outside : 2147483647 < d.truncated ∨ d.truncated ≤ -2147483648
  · have no_byte : ¬(0 ≤ d.truncated ∧ d.truncated ≤ 255) := by omega
    rw [if_pos outside, if_neg no_byte]
    rfl
  · have whole : (Int32.ofInt d.truncated).toInt = d.truncated :=
      Int32.toInt_ofInt_of_le (by omega) (by omega)
    rw [if_neg outside, Option.getD_some, toRaw, whole]

/-- So does any element. -/
theorem toRaw_ofInteger (a : Atom) : toRaw ⟨.integer, a.toInteger⟩ = a.toRaw := by
  obtain ⟨own, x⟩ := a
  cases own with
  | logical => exact asKind_toInteger .raw (a := ⟨.logical, x⟩) rfl nofun
  | raw => exact asKind_toInteger .raw (a := ⟨.raw, x⟩) rfl nofun
  | integer => rfl
  | double => exact toRaw_toInteger x
  | complex =>
    -- Any missing complex number counts as missing here, also one whose real part is a number.
    by_cases absent : Complex.isMissing x
    · have integer : toInteger ⟨.complex, x⟩ = missingInteger := if_pos absent
      have byte : toRaw ⟨.complex, x⟩ = 0 := if_pos absent
      rw [integer, byte]
      rfl
    · have integer : toInteger ⟨.complex, x⟩ = x.re.toInteger := if_neg absent
      have byte : toRaw ⟨.complex, x⟩ = x.re.toRaw := if_neg absent
      rw [integer, byte, toRaw_toInteger]
  | character =>
    change toRaw ⟨.integer, ((x.bind parseNumber).map Binary64.toInteger).getD missingInteger⟩ =
      ((x.bind parseNumber).map Binary64.toRaw).getD 0
    cases x.bind parseNumber with
    | none => rfl
    | some d => exact toRaw_toInteger d

/-- Any element becomes the same integer by way of the doubles. -/
theorem toInteger_ofDouble (a : Atom) : toInteger ⟨.double, a.toDouble⟩ = a.toInteger := by
  obtain ⟨own, x⟩ := a
  cases own with
  | logical => exact asKind_toDouble .integer (a := ⟨.logical, x⟩) rfl nofun
  | raw => exact asKind_toDouble .integer (a := ⟨.raw, x⟩) rfl nofun
  | integer => exact asKind_toDouble .integer (a := ⟨.integer, x⟩) rfl nofun
  | double => rfl
  | complex =>
    by_cases absent : Complex.isMissing x
    · have double : toDouble ⟨.complex, x⟩ = .missing := if_pos absent
      have integer : toInteger ⟨.complex, x⟩ = missingInteger := if_pos absent
      rw [double, integer]
      rfl
    · have double : toDouble ⟨.complex, x⟩ = x.re := if_neg absent
      have integer : toInteger ⟨.complex, x⟩ = x.re.toInteger := if_neg absent
      rw [double, integer]
      rfl
  | character =>
    change Binary64.toInteger ((x.bind parseNumber).getD .missing) =
      ((x.bind parseNumber).map Binary64.toInteger).getD missingInteger
    cases x.bind parseNumber with
    | none => rfl
    | some d => rfl

/-- Any element becomes the same double by way of the complex numbers. -/
theorem toDouble_ofComplex (a : Atom) : toDouble ⟨.complex, a.toComplex⟩ = a.toDouble := by
  by_cases complex : a.kind = .complex
  · obtain ⟨own, x⟩ := a
    subst complex
    rfl
  -- A double that is missing is told apart first: its complex number is the missing one, and not
  -- the one with the double as its real part.
  by_cases absent : a.toDouble.isMissing
  · have whole : a.toComplex = .missing := by
      rw [toComplex_eq complex, absent, Bool.or_true, if_pos rfl]
    rw [whole, beq_iff_eq.mp absent]
    rfl
  · have missing_double (missing : a.isMissing) : ElementKind.double.isMissing a.toDouble :=
      isMissing_asKind_of_isMissing .double missing nofun
    have present : ¬a.isMissing := mt missing_double absent
    rw [Bool.not_eq_true] at present absent
    have whole : a.toComplex = ⟨a.toDouble, .zero false⟩ := by
      rw [toComplex_eq complex, present, absent, Bool.or_self]
      rfl
    have real : Complex.isMissing ⟨a.toDouble, .zero false⟩ = false := by
      rw [Complex.isMissing, absent, Bool.false_or]
      exact (by decide : (Binary64.zero false).isMissing = false)
    have double : toDouble ⟨.complex, ⟨a.toDouble, .zero false⟩⟩ = a.toDouble :=
      if_neg (by rw [real]; decide)
    rw [whole, double]

/-- Any element becomes a number by way of a wider kind as it does directly. Truth values are
excluded: what is cut off on the way to an integer makes them true. -/
theorem asKind_narrowed {number wide : ElementKind} (widens : number.WidensTo wide)
    (number_ne : number ≠ .logical) (a : Atom) :
    asKind ⟨wide, a.asKind wide⟩ number = a.asKind number := by
  -- Every number is reached by way of the next wider one, so that longer ways are made of steps.
  have integer_ofComplex : toInteger ⟨.complex, a.toComplex⟩ = a.toInteger := by
    rw [← toInteger_ofDouble ⟨.complex, a.toComplex⟩, toDouble_ofComplex, toInteger_ofDouble]
  have raw_ofDouble (a : Atom) : toRaw ⟨.double, a.toDouble⟩ = a.toRaw := by
    rw [← toRaw_ofInteger ⟨.double, a.toDouble⟩, toInteger_ofDouble, toRaw_ofInteger]
  have raw_ofComplex : toRaw ⟨.complex, a.toComplex⟩ = a.toRaw := by
    rw [← raw_ofDouble ⟨.complex, a.toComplex⟩, toDouble_ofComplex, raw_ofDouble]
  by_cases same : number = wide
  · subst same
    exact asKind_self number _
  cases number with
  | logical => exact absurd rfl number_ne
  | raw =>
    cases wide with
    | integer => exact toRaw_ofInteger a
    | double => exact raw_ofDouble a
    | complex => exact raw_ofComplex
    | raw => exact absurd rfl same
    | logical => exact absurd widens (by decide)
    | character => exact absurd widens (by decide)
  | integer =>
    cases wide with
    | double => exact toInteger_ofDouble a
    | complex => exact integer_ofComplex
    | integer => exact absurd rfl same
    | _ => exact absurd widens (by decide)
  | double =>
    cases wide with
    | complex => exact toDouble_ofComplex a
    | double => exact absurd rfl same
    | _ => exact absurd widens (by decide)
  | complex => exact absurd (by revert widens; cases wide <;> decide) same
  | character => exact absurd widens.1 nofun

end Atom

section

variable {number wide : ElementKind}

theorem ElementKind.missing_narrowed (widens : number.WidensTo wide)
    (number_ne : number ≠ .logical) :
    Atom.asKind ⟨wide, wide.missing⟩ number = number.missing := by
  revert widens number_ne
  cases number <;> cases wide <;> decide

/-- A value without a single element is missing as any number. -/
theorem Eager.rendered_narrowed (widens : number.WidensTo wide) (number_ne : number ≠ .logical)
    (v : Eager) : Atom.asKind ⟨wide, v.rendered wide⟩ number = v.rendered number := by
  have missing {kind : ElementKind} (numeric : kind.isNumeric) :
      v.rendered kind = kind.missing := by
    cases kind <;> first | rfl | cases numeric
  rw [missing widens.1, missing widens.2.1, ElementKind.missing_narrowed widens number_ne]

mutual

/-- A value with a single element, as deep as it may be, narrows as this element does. -/
theorem Eager.asOne_narrowed (widens : number.WidensTo wide) (number_ne : number ≠ .logical) :
    ∀ v : Eager, Atom.asKind ⟨wide, v.asOne wide⟩ number = v.asOne number
  | .null => Eager.rendered_narrowed widens number_ne .null
  | .vector own [] extras => Eager.rendered_narrowed widens number_ne (.vector own [] extras)
  | .vector _ [cell] _ => cell.asKind_narrowed widens number_ne
  | .vector own (first :: second :: rest) extras =>
    Eager.rendered_narrowed widens number_ne (.vector own (first :: second :: rest) extras)
  | .closure .. => ElementKind.missing_narrowed widens number_ne
  | .builtin .. => ElementKind.missing_narrowed widens number_ne

theorem Cell.asKind_narrowed (widens : number.WidensTo wide) (number_ne : number ≠ .logical) :
    ∀ cell : Cell, Atom.asKind ⟨wide, cell.asKind wide⟩ number = cell.asKind number
  | .atom a => a.asKind_narrowed widens number_ne
  | .item v => v.asOne_narrowed widens number_ne

end

end

/-! ### Kinds that elements pass through -/

/-- Whether elements of the first kind become elements of the third by way of the second just as
they do directly: the second is one of the others, or leaves or wraps the elements as they are;
it is wider than the first, and no texts are made of numbers; or it is wider than the third, and
no truth values are made. -/
inductive Kind.PassesThrough : Kind → Kind → Kind → Prop where
  | own (own asked : Kind) : PassesThrough own own asked
  | asked (own asked : Kind) : PassesThrough own asked asked
  | null (own asked : Kind) : PassesThrough own .null asked
  | closure (own asked : Kind) : PassesThrough own .closure asked
  | list (own asked : Kind) : PassesThrough own .list asked
  | wider {own wide asked : ElementKind} (widens : own.WidensTo wide)
      (no_text : asked ≠ .character) : PassesThrough (.atomic own) (.atomic wide) (.atomic asked)
  | narrower (own : Kind) {wide asked : ElementKind} (widens : asked.WidensTo wide)
      (no_truth : asked ≠ .logical) : PassesThrough own (.atomic wide) (.atomic asked)

namespace Scalar

variable {s : Scalar} {via asked : Kind}

theorem value_coerce_atomic (s : Scalar) (kind : ElementKind) :
    (s.coerce (.atomic kind)).value = .atom ⟨kind, s.cell.asKind kind⟩ :=
  congrArg (fun x => Scalar.atom ⟨kind, x⟩) (Value.asKind_eq s kind)

/-- Coercion by way of a kind that the element passes through. -/
theorem coerce_coerce (vectors : asked.HasVectors) (passes : s.kind.PassesThrough via asked) :
    ((s.coerce via).value.coerce asked).value = (s.coerce asked).value := by
  generalize own_eq : s.kind = own at passes
  cases passes with
  | own => rw [← own_eq, value_coerce_kind]
  | asked =>
    cases via with
    | atomic kind =>
      rw [value_coerce_atomic s kind, value_coerce_atomic]
      exact congrArg (fun x => atom ⟨kind, x⟩) (Atom.asKind_self kind _)
    | list => rfl
    | null => rfl
    | closure => rfl
  | null => rfl
  | closure => rfl
  | list =>
    cases asked with
    | atomic kind =>
      rw [value_coerce_atomic, value_coerce_atomic]
      refine congrArg (fun x => atom ⟨kind, x⟩) ?_
      change s.toItem.eager.asOne kind = _
      rw [eager_toItem, Cell.asOne_toItem]
    | list => rfl
    | null => exact absurd rfl vectors.1
    | closure => exact absurd rfl vectors.2
  | wider widens no_text =>
    cases s with
    | atom a =>
      obtain rfl := Kind.atomic.inj own_eq
      exact congrArg (fun x => atom ⟨_, x⟩) (Atom.asKind_asKind widens no_text)
    | item v => cases own_eq
  -- An item may be nested, and narrows as the one element does that it comes down to.
  | narrower _ widens no_truth =>
    rw [value_coerce_atomic, value_coerce_atomic, value_coerce_atomic]
    exact congrArg (fun x => atom ⟨_, x⟩) (s.cell.asKind_narrowed widens no_truth)

end Scalar

/-! ### Production in any kind -/

namespace View

/-- All elements of a view as elements of a kind that has vectors, produced at once. -/
def fillAs (view : View) : Kind → Metered (List Scalar)
  | .atomic kind => (List.map fun x => .atom ⟨kind, x⟩) <$> view.fillAtoms kind
  | _ => (List.map .item) <$> view.fillItems

/-- The element that is converted when a view is produced at once. A coercing view is bypassed. -/
def beneath : View → Nat → Scalar
  | .sequence p, index => .atom ⟨.integer, p.term index⟩
  | .range _, index => .atom ⟨.integer, UpTo.term index⟩
  | .coerce source _, index => (source.element index).value
  | .traced _ inner, index => inner.beneath index

theorem value_fillAtoms (view : View) (kind : ElementKind) : (view.fillAtoms kind).value =
    (List.range view.size).map fun index => ((view.beneath index).asKind kind).value := by
  cases view with
  | sequence p =>
    rw [fillAtoms, Metered.value_pure, p.running_eq, List.map_map]
    rfl
  | range r =>
    rw [fillAtoms, Metered.value_pure, UpTo.terms, List.map_map]
    rfl
  | coerce source target => exact source.value_atomsAs
  | traced id inner => exact inner.value_fillAtoms kind

theorem value_fillItems (view : View) : view.fillItems.value =
    (List.range view.size).map fun index => (view.beneath index).toItem := by
  cases view with
  | sequence p =>
    rw [fillItems, Metered.value_pure, p.running_eq, List.map_map]
    rfl
  | range r =>
    rw [fillItems, Metered.value_pure, UpTo.terms, List.map_map]
    rfl
  | coerce source target =>
    rw [fillItems, Value.items, Metered.value_bind, Metered.value_pure, source.elements_eq,
      List.map_map]
    rfl
  | traced id inner => exact inner.value_fillItems

/-- What is produced are the elements beneath, converted to what is asked for. -/
theorem value_fillAs (view : View) {asked : Kind} (vectors : asked.HasVectors) :
    (view.fillAs asked).value =
      (List.range view.size).map fun index => ((view.beneath index).coerce asked).value := by
  cases asked with
  | atomic kind =>
    rw [fillAs, Metered.value_map, value_fillAtoms, List.map_map]
    rfl
  | list =>
    have items : view.fillAs .list = (List.map .item) <$> view.fillItems := rfl
    rw [items, Metered.value_map, value_fillItems, List.map_map]
    rfl
  | null => exact absurd rfl vectors.1
  | closure => exact absurd rfl vectors.2

/-- What is read are the elements beneath, converted to the kind of the view. -/
theorem value_peek : ∀ (view : View) {index : Nat}, index < view.size →
    (view.peek index).map Metered.value = .ok ((view.beneath index).coerce view.kind).value
  | .sequence p, index, inside => by
    -- A term is an integer, and reading an integer as one does nothing.
    rw [peek, p.termAt_of_lt_size inside]
    exact congrArg Except.ok (Scalar.value_coerce_kind (.atom ⟨.integer, p.term index⟩)).symm
  | .range r, index, inside => by
    rw [peek, r.termAt_of_lt_size inside]
    exact congrArg Except.ok (Scalar.value_coerce_kind (.atom ⟨.integer, UpTo.term index⟩)).symm
  | .coerce source target, index, inside => by
    rw [peek, Value.get_eq inside]
    rfl
  | .traced id inner, index, inside => by
    have read := inner.value_peek inside
    rw [peek]
    cases made : inner.peek index with
    | ok reading =>
      rw [made] at read
      exact read
    | error defect =>
      rw [made] at read
      cases read

/-- For all views, nested as they may be, and all kinds that have vectors: as many elements are
produced as the view has, and each of them is the element beneath converted to the kind that is
asked for, while the one that is read is the element beneath converted to the kind of the view.
The produced one is the one that is read, converted to the kind that is asked for, if the element
beneath passes through the kind of the view: if nothing is coerced or the kind of the view is
asked for, and in the other cases of `Kind.PassesThrough`. -/
theorem fillAs_agrees (view : View) (asked : Kind) (vectors : asked.HasVectors) :
    (view.fillAs asked).value.length = view.size ∧
    ∀ index < view.size, ∃ element : Scalar,
      (view.peek index).map Metered.value = .ok element ∧
      element = ((view.beneath index).coerce view.kind).value ∧
      (view.fillAs asked).value[index]? = some ((view.beneath index).coerce asked).value ∧
      ((view.beneath index).kind.PassesThrough view.kind asked →
        (view.fillAs asked).value[index]? = some (element.coerce asked).value) := by
  rw [view.value_fillAs vectors]
  refine ⟨by rw [List.length_map, List.length_range], fun index inside => ?_⟩
  have produced : ((List.range view.size).map fun index =>
      ((view.beneath index).coerce asked).value)[index]? =
      some ((view.beneath index).coerce asked).value := by
    rw [List.getElem?_map, List.getElem?_range inside, Option.map_some]
  refine ⟨_, view.value_peek inside, rfl, produced, fun passes => ?_⟩
  rw [produced, Scalar.coerce_coerce vectors passes]

/-- List items seen as doubles behind counters and produced as integers, the second one being a
list of one integer itself; and a progression produced as texts. -/
theorem fillAs_agrees_nestedItem :
    let items : Value := .ofItems 1 [.ofAtom ⟨.double, .missing⟩, .ofItems 2 [.ofInteger 7]]
    let view := View.traced 3 (.coerce items (.atomic .double))
    let terms := View.sequence ⟨9, 5, -2, by decide⟩
    Kind.PassesThrough .list (.atomic .double) (.atomic .integer) ∧
    (∃ element, (view.peek 1).map Metered.value = .ok element ∧
      (view.fillAs (.atomic .integer)).value[1]? = some (element.coerce (.atomic .integer)).value) ∧
    ∃ element, (terms.peek 2).map Metered.value = .ok element ∧
      (terms.fillAs (.atomic .character)).value[2]? =
        some (element.coerce (.atomic .character)).value := by
  intro items view terms
  have passes : Kind.PassesThrough .list (.atomic .double) (.atomic .integer) :=
    .narrower .list (by decide) nofun
  refine ⟨passes, ?_, ?_⟩
  · obtain ⟨element, read, -, -, agrees⟩ :=
      (fillAs_agrees view (.atomic .integer) (Kind.hasVectors_atomic _)).2 1 (by decide)
    exact ⟨element, read, agrees passes⟩
  · obtain ⟨element, read, -, -, agrees⟩ :=
      (fillAs_agrees terms (.atomic .character) (Kind.hasVectors_atomic _)).2 2 (by decide)
    exact ⟨element, read, agrees (.own _ _)⟩

/-- The integer two is read as a truth value, which is the integer one, and is produced as the
integer two. -/
theorem not_fillAs_agrees :
    let view := View.coerce (.ofAtoms .integer [2]) (.atomic .logical)
    view.size = 1 ∧ (view.peek 0).map Metered.value = .ok (.atom ⟨.logical, .yes⟩) ∧
    ((Scalar.atom ⟨.logical, .yes⟩).coerce (.atomic .integer)).value =
      .atom ⟨.integer, (1 : Int32)⟩ ∧
    (view.fillAs (.atomic .integer)).value = [.atom ⟨.integer, (2 : Int32)⟩] ∧
    (view.fillAs (.atomic .integer)).value[0]? ≠
      some ((Scalar.atom ⟨.logical, .yes⟩).coerce (.atomic .integer)).value := by
  intro view
  refine ⟨rfl, rfl, rfl, rfl, fun same => ?_⟩
  have equal : (Scalar.atom ⟨.integer, (2 : Int32)⟩) = .atom ⟨.integer, (1 : Int32)⟩ :=
    Option.some.inj same
  have values : (⟨.integer, (2 : Int32)⟩ : Atom) = ⟨.integer, (1 : Int32)⟩ := by
    injection equal
  exact absurd values (by decide)

end View

end Vectorial
