import Vectorial.Operator.Arithmetic
import Vectorial.Proofs.Element.Widening
import Vectorial.Proofs.Value.Elements

/-!
# Arithmetic combines elements

An operator brings its operands to a common kind and combines their elements, the shorter
operand being repeated. What it makes of two present elements is specified by exact arithmetic:
an integer is the exact result or missing, and a double is the one nearest the exact result.
As elements are read in no other way than by their index, it makes no difference whether an
operand is stored or computed on demand.

## Main definitions

* `recycledLength`: the length of a result;
* `ArithOp.raised`: the kind of a result;
* `ArithOp.Gives`: what two present elements are combined to;
* `Value.IsOperand`: the values that an operator accepts.

## Main results

* `zipRecycled_map_range`: the elements of two lists that are combined;
* `Value.arithmetic_elementwise`: every operator on any two values.
-/

namespace Vectorial

/-! ### Repetition -/

section Recycled

variable {α β : Type}

/-- The length of the result of combining lists of two lengths: that of the longer one, unless
one is empty. -/
def recycledLength (m n : Nat) : Nat :=
  if m = 0 ∨ n = 0 then 0 else max m n

theorem mod_lt_of_lt_recycledLength {m n i : Nat} (inside : i < recycledLength m n) :
    i % m < m ∧ i % n < n := by
  rw [recycledLength] at inside
  split at inside
  · cases inside
  · next nonempty =>
    rw [not_or] at nonempty
    exact ⟨Nat.mod_lt i (Nat.pos_of_ne_zero nonempty.1),
      Nat.mod_lt i (Nat.pos_of_ne_zero nonempty.2)⟩

theorem getElem?_flatten_replicate (xs : List α) {count i : Nat} (inside : i < count * xs.length) :
    (List.replicate count xs).flatten[i]? = xs[i % xs.length]? := by
  induction count generalizing i with
  | zero => omega
  | succ count ih =>
    rw [List.replicate_succ, List.flatten_cons]
    rcases Nat.lt_or_ge i xs.length with less | rest
    · rw [List.getElem?_append_left less, Nat.mod_eq_of_lt less]
    · rw [List.getElem?_append_right rest, Nat.mod_eq_sub_mod rest]
      exact ih (by rw [Nat.succ_mul] at inside; omega)

theorem getElem?_recycled {xs : List α} {length i : Nat} (nonempty : xs ≠ [])
    (inside : i < length) : (recycled length xs)[i]? = xs[i % xs.length]? := by
  rw [recycled, List.getElem?_take_of_lt inside]
  refine getElem?_flatten_replicate xs (Nat.lt_trans inside ?_)
  exact Nat.lt_mul_of_div_lt (Nat.lt_succ_self _) (List.length_pos_of_ne_nil nonempty)

theorem length_recycled {xs : List α} (length : Nat) (nonempty : xs ≠ []) :
    (recycled length xs).length = length := by
  have enough : length < (length / xs.length + 1) * xs.length :=
    Nat.lt_mul_of_div_lt (Nat.lt_succ_self _) (List.length_pos_of_ne_nil nonempty)
  simp only [recycled, List.length_take, List.length_flatten, List.map_replicate,
    List.sum_replicate_nat]
  omega

/-- Lists given by functions of the index, combined. -/
theorem zipRecycled_map_range (f : α → α → β) (x y : Nat → α) (m n : Nat) :
    zipRecycled f ((List.range m).map x) ((List.range n).map y) =
      (List.range (recycledLength m n)).map fun i => f (x (i % m)) (y (i % n)) := by
  rw [zipRecycled, recycledLength]
  by_cases empty : m = 0 ∨ n = 0
  · rw [if_pos empty, if_pos (by simpa [List.isEmpty_iff] using empty)]
    rfl
  · rw [if_neg empty, if_neg (by simpa [List.isEmpty_iff] using empty)]
    rw [not_or] at empty
    have left : (List.range m).map x ≠ [] := by simpa using empty.1
    have right : (List.range n).map y ≠ [] := by simpa using empty.2
    refine List.ext_getElem? fun i => ?_
    simp only [List.length_map, List.length_range, List.getElem?_zipWith, List.getElem?_map]
    -- Below the longer length both sides are recycled, and beyond it both lists have ended.
    rcases Nat.lt_or_ge i (max m n) with inside | outside
    · have in_left := Nat.mod_lt i (Nat.pos_of_ne_zero empty.1)
      have in_right := Nat.mod_lt i (Nat.pos_of_ne_zero empty.2)
      rw [getElem?_recycled left inside, getElem?_recycled right inside]
      simp [inside, in_left, in_right]
    · rw [List.getElem?_eq_none (by rw [length_recycled _ left]; exact outside)]
      simpa using outside

end Recycled

/-! ### Operators -/

namespace ArithOp

/-- The least kind in which an operator works. -/
def least (op : ArithOp) : ElementKind :=
  if op = .div then .double else .integer

/-- A common kind raised to one in which an operator works. -/
def raised (op : ArithOp) : Kind → ElementKind
  | .atomic kind => kind.join op.least
  | _ => op.least

/-- An operator on numbers of any sort. -/
def exactly {α : Type} [Add α] [Sub α] [Mul α] [Div α] : ArithOp → α → α → α
  | add, x, y => x + y
  | sub, x, y => x - y
  | mul, x, y => x * y
  | div, x, y => x / y

/-- An operator on doubles that are not missing. -/
def rounded : ArithOp → Binary64 → Binary64 → Binary64
  | add => Binary64.add
  | sub => Binary64.sub
  | mul => Binary64.mul
  | div => Binary64.div

/-- An operator on complex numbers that are not missing, each step being rounded. -/
def byParts : ArithOp → Complex → Complex → Complex
  | add, a, b => ⟨rounded add a.re b.re, rounded add a.im b.im⟩
  | sub, a, b => ⟨rounded sub a.re b.re, rounded sub a.im b.im⟩
  | mul, a, b =>
    ⟨rounded sub (rounded mul a.re b.re) (rounded mul a.im b.im),
      rounded add (rounded mul a.re b.im) (rounded mul a.im b.re)⟩
  | div, a, b =>
    let norm := rounded add (rounded mul b.re b.re) (rounded mul b.im b.im)
    ⟨rounded div (rounded add (rounded mul a.re b.re) (rounded mul a.im b.im)) norm,
      rounded div (rounded sub (rounded mul a.im b.re) (rounded mul a.re b.im)) norm⟩

/-- What an operator gives for two elements of a kind that are not missing. An integer is the
exact result, if that is in range, and missing otherwise; a double is the rounded result, which
is the nearest one to the exact result on finite operands; a complex number has its parts rounded
at each step. -/
def Gives (op : ArithOp) :
    (kind : ElementKind) → kind.Carrier → kind.Carrier → kind.Carrier → Prop
  | .integer, (a : Int32), (b : Int32), (c : Int32) =>
    if -(2 ^ 31 - 1) ≤ op.exactly a.toInt b.toInt ∧ op.exactly a.toInt b.toInt ≤ 2 ^ 31 - 1 then
      c.toInt = op.exactly a.toInt b.toInt
    else c = missingInteger
  | .double, (x : Binary64), (y : Binary64), (z : Binary64) =>
    z = op.rounded x y ∧
      (x.isFinite → y.isFinite → (op = div → y.isZero = false) →
        z.IsNearest (op.exactly x.value y.value))
  | .complex, (a : Complex), (b : Complex), (c : Complex) => c = op.byParts a b
  | _, _, _, _ => False

section Gives

variable {op : ArithOp}

theorem onIntegers_gives (whole : op ≠ div) {a b : Int32} (present : a ≠ missingInteger)
    (present' : b ≠ missingInteger) : op.Gives .integer a b (op.onIntegers a b) := by
  have eq : op.onIntegers a b = presentInteger (op.exactly a.toInt b.toInt) := by
    unfold onIntegers
    rw [if_neg (by simp [present, present'])]
    cases op with
    | div => exact absurd rfl whole
    | _ => rfl
  rw [Gives, eq, presentInteger]
  split
  · next inside =>
    rw [if_pos (by omega)]
    exact Int32.toInt_ofInt_of_le (by omega) (by omega)
  · next outside => rw [if_neg (by omega)]

theorem onDoubles_gives {x y : Binary64} (present : x.isMissing = false)
    (present' : y.isMissing = false) : op.Gives .double x y (op.onDoubles x y) := by
  have eq : op.onDoubles x y = op.rounded x y := by
    unfold onDoubles
    rw [if_neg (by simp [present, present'])]
    cases op <;> rfl
  rw [Gives, eq]
  refine ⟨rfl, fun finite finite' nonzero => ?_⟩
  cases op with
  | add => exact Binary64.isNearest_add finite finite'
  | sub => exact Binary64.isNearest_sub finite finite'
  | mul => exact Binary64.isNearest_mul finite finite'
  | div => exact Binary64.isNearest_div finite finite' (nonzero rfl)

theorem onComplex_gives {a b : Complex} (present : a.isMissing = false)
    (present' : b.isMissing = false) : op.Gives .complex a b (op.onComplex a b) := by
  unfold onComplex
  rw [Gives, if_neg (by simp [present, present'])]
  cases op <;> rfl

end Gives

end ArithOp

/-! ### Operands -/

namespace Value

section Operands

variable {op : BinaryOp} {arith : ArithOp} {kind : ElementKind} {left right v : Value}

/-- Whether a value can be an operand: `NULL`, or a vector of truth values, bytes or numbers. -/
def IsOperand (v : Value) : Prop :=
  v.isNull ∨ ∃ kind, v.kind = .atomic kind ∧ kind ≠ .character

theorem isArithmetic_iff : v.isArithmetic ↔ v.IsOperand := by
  rw [isArithmetic, Bool.or_eq_true, IsOperand]
  refine or_congr_right ?_
  cases v.kind with
  | atomic kind => cases kind <;> simp [Kind.isNumeric, ElementKind.isNumeric]
  | _ => simp [Kind.isNumeric]

theorem kind_of_isNull (null : v.isNull) : v.kind = .null := by
  cases v <;> first | rfl | cases null

theorem resultKind_atomic (arith : ArithOp) (number : kind ≠ .character) :
    arith.resultKind (.atomic kind) = some (kind.join arith.least) := by
  cases kind <;> cases arith <;> first | rfl | exact absurd rfl number

theorem join_ne_character {a b : ElementKind} (number : a ≠ .character) (number' : b ≠ .character) :
    a.join b ≠ .character := by
  cases a <;> cases b <;> first | decide | exact absurd rfl number | exact absurd rfl number'

theorem join_join_least (a b : ElementKind) (arith : ArithOp) :
    a.join ((a.join b).join arith.least) = (a.join b).join arith.least ∧
      b.join ((a.join b).join arith.least) = (a.join b).join arith.least := by
  rw [ArithOp.least]
  split <;> cases a <;> cases b <;> decide

/-- What operands have in common is raised to a kind of numbers that is as wide. -/
theorem exists_common (operand : left.IsOperand) (operand' : right.IsOperand) (arith : ArithOp) :
    ∃ common, left.kind.common right.kind = some common ∧
      arith.resultKind common = some (arith.raised common) ∧
      (∀ kind, left.kind = .atomic kind → kind.join (arith.raised common) = arith.raised common) ∧
      (∀ kind, right.kind = .atomic kind →
        kind.join (arith.raised common) = arith.raised common) := by
  -- `NULL` has no kind of its own to be raised, so that its side asks nothing of the result.
  rcases operand with null | ⟨a, at_left, number⟩ <;>
    rcases operand' with null' | ⟨b, at_right, number'⟩
  · rw [kind_of_isNull null, kind_of_isNull null']
    exact ⟨_, rfl, by cases arith <;> rfl, nofun, nofun⟩
  · rw [kind_of_isNull null, at_right]
    refine ⟨_, rfl, resultKind_atomic arith number', nofun, fun _ same => ?_⟩
    cases same
    cases b <;> cases arith <;> rfl
  · rw [at_left, kind_of_isNull null']
    refine ⟨_, rfl, resultKind_atomic arith number, fun _ same => ?_, nofun⟩
    cases same
    cases a <;> cases arith <;> rfl
  · rw [at_left, at_right]
    refine ⟨_, rfl, resultKind_atomic arith (join_ne_character number number'), ?_, ?_⟩
    · rintro _ ⟨⟩
      exact (join_join_least a b arith).1
    · rintro _ ⟨⟩
      exact (join_join_least a b arith).2

theorem cases_of_resultKind {common : Kind} (works : arith.resultKind common = some kind) :
    kind = .integer ∧ arith ≠ .div ∨ kind = .double ∨ kind = .complex := by
  unfold ArithOp.resultKind at works
  split at works <;> cases works
  iterate 4
    split
    · exact .inr (.inl rfl)
    · next whole => exact .inl ⟨rfl, whole⟩
  · exact .inr (.inl rfl)
  · exact .inr (.inr rfl)

theorem numeric_of_resultKind {common : Kind} (works : arith.resultKind common = some kind) :
    kind.isNumeric ∧ ElementKind.integer.join kind = kind := by
  obtain ⟨rfl, -⟩ | rfl | rfl := cases_of_resultKind works <;> decide

/-- In a kind in which it works an operator combines the elements one by one. -/
theorem arithmetic_eq_combine {common : Kind} (known : op.arith? = some arith)
    (operand : left.IsOperand) (operand' : right.IsOperand)
    (shared : left.kind.common right.kind = some common)
    (works : arith.resultKind common = some kind) :
    ∃ f : kind.Carrier → kind.Carrier → kind.Carrier,
      arithmetic op left right = combine kind f left right ∧
      ∀ x y, if kind.isMissing x ∨ kind.isMissing y then f x y = kind.missing
        else arith.Gives kind x y (f x y) := by
  have chosen : arithmeticKind op left right = some (arith, kind) := by
    simp [arithmeticKind, known, shared, works, isArithmetic_iff.mpr operand,
      isArithmetic_iff.mpr operand']
  rw [arithmetic, chosen]
  -- One function for each kind in which operators work. They check for missing operands first.
  obtain ⟨rfl, whole⟩ | rfl | rfl := cases_of_resultKind works
  · refine ⟨arith.onIntegers, rfl, fun x y => ?_⟩
    split
    · next absent =>
      unfold ArithOp.onIntegers
      exact if_pos (by simpa [ElementKind.isMissing] using absent)
    · next present =>
      simp only [not_or, ElementKind.isMissing, beq_iff_eq] at present
      exact ArithOp.onIntegers_gives whole present.1 present.2
  · refine ⟨arith.onDoubles, rfl, fun x y => ?_⟩
    split
    · next absent =>
      unfold ArithOp.onDoubles
      exact if_pos (by simpa [ElementKind.isMissing] using absent)
    · next present =>
      simp only [not_or, ElementKind.isMissing, Bool.not_eq_true] at present
      exact ArithOp.onDoubles_gives present.1 present.2
  · refine ⟨arith.onComplex, rfl, fun x y => ?_⟩
    split
    · next absent =>
      unfold ArithOp.onComplex
      exact if_pos (by simpa [ElementKind.isMissing] using absent)
    · next present =>
      simp only [not_or, ElementKind.isMissing, Bool.not_eq_true] at present
      exact ArithOp.onComplex_gives present.1 present.2

theorem outcome_combine_eq (f : kind.Carrier → kind.Carrier → kind.Carrier) (left right : Value) :
    Attempt.outcome (combine kind f left right) =
      .ok (.ofAtoms kind (zipRecycled f (left.produce kind).value (right.produce kind).value)) :=
  rfl

theorem outcome_combine (f : kind.Carrier → kind.Carrier → kind.Carrier) (left right : Value) :
    Attempt.outcome (combine kind f left right) =
      .ok (.vector (.atoms kind
        ((List.range (recycledLength left.size right.size)).map fun i =>
          f (left.elementAs kind (i % left.size)) (right.elementAs kind (i % right.size))))
        none) := by
  rw [outcome_combine_eq, value_produce, value_produce, zipRecycled_map_range, ofAtoms]

/-- Raising an element leaves it missing or present. -/
theorem isMissing_elementAs (operand : v.IsOperand) {index : Nat} (inside : index < v.size)
    (numeric : kind.isNumeric) (wide : ElementKind.integer.join kind = kind)
    (narrow : ∀ own, v.kind = .atomic own → own.join kind = kind) :
    kind.isMissing (v.elementAs kind index) = (v.element index).value.isMissing := by
  rcases operand with null | ⟨own, own_kind, -⟩
  · cases v with
    | null => exact absurd inside (Nat.not_lt_zero _)
    | _ => cases null
  · have vector : v.isVector := by cases v <;> first | rfl | cases own_kind
    have ordinary : v.IsOrdinary := fun _ => own_kind ▸ Kind.hasVectors_atomic own
    -- An element of an operand is an atom of the operand's own kind, never an item.
    have element := kind_element ordinary vector inside
    rw [elementAs]
    rw [own_kind] at element
    cases at_index : (v.element index).value with
    | item w => rw [at_index] at element; cases element
    | atom a =>
      rw [at_index] at element
      cases element
      exact Atom.isMissing_asKind numeric wide (narrow a.kind own_kind)

theorem outcome_arithmetic_of_not (unsuited : ¬ (left.IsOperand ∧ right.IsOperand)) :
    (arithmetic op left right).outcome = .error (.error
      { cause := .unsupportedOperand op.sign (left.typeName ++ " and " ++ right.typeName) }) := by
  have none_chosen : arithmeticKind op left right = none := by
    rw [← isArithmetic_iff, ← isArithmetic_iff, ← Bool.and_eq_true] at unsuited
    rw [arithmeticKind]
    cases op.arith? with
    | none => rfl
    | some arith => exact if_neg unsuited
  rw [arithmetic, none_chosen]
  rfl

/-- Operands that denote the same have the same result, however they are stored. -/
theorem outcome_arithmetic_congr {left' right' : Value} (same : left'.eager = left.eager)
    (same' : right'.eager = right.eager) :
    (arithmetic op left' right').outcome = (arithmetic op left right).outcome := by
  -- Kinds, types and elements of a value can be read off from what it denotes.
  have operands {v w : Value} (same : v.eager = w.eager) :
      v.kind = w.kind ∧ v.isNull = w.isNull ∧ v.typeName = w.typeName := by
    refine ⟨?_, ?_, ?_⟩
    · rw [← kind_eager, same, kind_eager]
    · cases v <;> cases w <;> first | rfl | cases same
    · rw [← typeName_eager, same, typeName_eager]
  obtain ⟨kinds, nulls, types⟩ := operands same
  obtain ⟨kinds', nulls', types'⟩ := operands same'
  have chosen : arithmeticKind op left' right' = arithmeticKind op left right := by
    have suited : left'.isArithmetic = left.isArithmetic := by
      rw [isArithmetic, isArithmetic, kinds, nulls]
    have suited' : right'.isArithmetic = right.isArithmetic := by
      rw [isArithmetic, isArithmetic, kinds', nulls']
    unfold arithmeticKind
    rw [kinds, kinds', suited, suited']
  have combined (kind : ElementKind) (f : kind.Carrier → kind.Carrier → kind.Carrier) :
      Attempt.outcome (combine kind f left' right') =
        Attempt.outcome (combine kind f left right) := by
    rw [outcome_combine_eq, outcome_combine_eq, value_produce_congr same, value_produce_congr same']
  rw [arithmetic, arithmetic, chosen, unsupportedOperands, unsupportedOperands, types, types']
  split
  · exact combined _ _
  · exact combined _ _
  · exact combined _ _
  · rfl

end Operands

/-- For all values: an arithmetic operator fails exactly if one of them is neither `NULL` nor a
vector of truth values, bytes or numbers, and says so. The result is a stored vector that carries
nothing, of the common kind raised to one in which the operator works, as long as the longer
operand unless one is empty. Each element is missing if the element of an operand is, and
otherwise what the operator gives for the two, coerced to the kind. Operands that are stored
first have the same result as those that are not. -/
theorem arithmetic_elementwise {op : BinaryOp} {arith : ArithOp} (known : op.arith? = some arith)
    (left right : Value) :
    (left.IsOperand ∧ right.IsOperand →
      ∃ common, left.kind.common right.kind = some common ∧
        ∃ elements : List (arith.raised common).Carrier,
          (arithmetic op left right).outcome =
            .ok (.vector (.atoms (arith.raised common) elements) none) ∧
          elements.length = recycledLength left.size right.size ∧
          ∀ i c, elements[i]? = some c →
            if (left.element (i % left.size)).value.isMissing ∨
                (right.element (i % right.size)).value.isMissing then
              c = (arith.raised common).missing
            else arith.Gives (arith.raised common) (left.elementAs _ (i % left.size))
              (right.elementAs _ (i % right.size)) c) ∧
    (¬ (left.IsOperand ∧ right.IsOperand) →
      (arithmetic op left right).outcome = .error (.error
        { cause := .unsupportedOperand op.sign (left.typeName ++ " and " ++ right.typeName) })) ∧
    (left.IsOrdinary → right.IsOrdinary → ∀ fresh fresh',
      (arithmetic op (left.materialize fresh).value right).outcome =
          (arithmetic op left right).outcome ∧
        (arithmetic op left (right.materialize fresh').value).outcome =
          (arithmetic op left right).outcome ∧
        (arithmetic op (left.materialize fresh).value (right.materialize fresh').value).outcome =
          (arithmetic op left right).outcome) := by
  refine ⟨?_, outcome_arithmetic_of_not, fun ordinary ordinary' fresh fresh' => ?_⟩
  · rintro ⟨operand, operand'⟩
    obtain ⟨common, shared, works, narrow, narrow'⟩ := exists_common operand operand' arith
    obtain ⟨f, eq, gives⟩ := arithmetic_eq_combine known operand operand' shared works
    refine ⟨common, shared, _, (congrArg Attempt.outcome eq).trans (outcome_combine f left right),
      by rw [List.length_map, List.length_range], fun i c here => ?_⟩
    rw [List.getElem?_map, Option.map_eq_some_iff] at here
    obtain ⟨j, at_j, rfl⟩ := here
    obtain ⟨inside, rfl⟩ := List.getElem?_eq_some_iff.mp at_j
    rw [List.length_range] at inside
    simp only [List.getElem_range]
    obtain ⟨inside_left, inside_right⟩ := mod_lt_of_lt_recycledLength inside
    obtain ⟨numeric, wide⟩ := numeric_of_resultKind works
    -- The operator looks at the raised elements, the statement at those of the operands.
    rw [← isMissing_elementAs operand inside_left numeric wide narrow,
      ← isMissing_elementAs operand' inside_right numeric wide narrow']
    exact gives _ _
  · have same := eager_materialize fresh ordinary
    have same' := eager_materialize fresh' ordinary'
    exact ⟨outcome_arithmetic_congr same rfl, outcome_arithmetic_congr rfl same',
      outcome_arithmetic_congr same same'⟩

/-- The last product is out of range and missing, the one before is not; a function has no
products. -/
theorem arithmetic_elementwise_progression :
    let ordinals := Value.vector (.view (.sequence ⟨1, 3, 1, by decide⟩)) none
    let half := Value.ofAtoms .integer [1073741823]
    (∃ elements : List Int32,
      (arithmetic .mul ordinals half).outcome = .ok (.vector (.atoms .integer elements) none) ∧
      elements.length = 3 ∧ (∀ c, elements[1]? = some c → c.toInt = 2147483646) ∧
      ∀ c, elements[2]? = some c → c = missingInteger) ∧
    (arithmetic .mul (.builtin "length" 1) half).outcome =
      .error (.error { cause := .unsupportedOperand "*" "builtin and integer" }) := by
  intro ordinals half
  have known : BinaryOp.mul.arith? = some .mul := rfl
  constructor
  · have operands : ordinals.IsOperand ∧ half.IsOperand :=
      ⟨.inr ⟨.integer, rfl, nofun⟩, .inr ⟨.integer, rfl, nofun⟩⟩
    obtain ⟨common, shared, elements, done, length, gives⟩ :=
      (arithmetic_elementwise known ordinals half).1 operands
    cases shared
    have second : (ordinals.element (1 % ordinals.size)).value = .atom ⟨.integer, (2 : Int32)⟩ :=
      rfl
    have third : (ordinals.element (2 % ordinals.size)).value = .atom ⟨.integer, (3 : Int32)⟩ :=
      rfl
    have only (i : Nat) : (half.element (i % half.size)).value =
        .atom ⟨.integer, (1073741823 : Int32)⟩ := by
      have size : half.size = 1 := rfl
      rw [size, Nat.mod_one]
      rfl
    refine ⟨elements, done, length, fun c here => ?_, fun c here => ?_⟩
    · have product := gives 1 c here
      rw [elementAs, elementAs, second, only, if_neg (by decide)] at product
      replace product : ArithOp.mul.Gives .integer (2 : Int32) (1073741823 : Int32) c := product
      rwa [ArithOp.Gives, if_pos (by decide)] at product
    · have product := gives 2 c here
      rw [elementAs, elementAs, third, only, if_neg (by decide)] at product
      replace product : ArithOp.mul.Gives .integer (3 : Int32) (1073741823 : Int32) c := product
      rwa [ArithOp.Gives, if_neg (by decide)] at product
  · refine (arithmetic_elementwise known (.builtin "length" 1) half).2.1 ?_
    rintro ⟨null | ⟨kind, same, -⟩, -⟩
    · cases null
    · cases same

end Value

end Vectorial
