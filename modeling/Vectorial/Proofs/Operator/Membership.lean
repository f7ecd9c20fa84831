import Vectorial.Proofs.Binary64.Equality
import Vectorial.Proofs.Value.Elements

/-!
# Membership is pairwise equality

A single needle is sought until it is found, and for several the keys of the other value are
collected first. Both answer the same question: whether some element of the other value is
equal to the needle, both read in the kind in which the values are comparable. What is missing
equals nothing.

## Main definitions

* `ElementKind.Equals`: equality of two elements of a kind;
* `Value.IsMember`: some element of another value equals the element.

## Main results

* `ElementKind.key_iff`: equal elements are those that have a key in common;
* `Value.memberIn_eq`: both ways of searching find the same;
* `Value.member_iff_equal`: the operator on all values.
-/

namespace Vectorial

/-! ### Keys -/

namespace ElementKind

/-- Equality of elements: doubles that compare equal or are both no number, complex numbers
that are equal part by part, and identical elements of the other kinds. -/
def Equals : (kind : ElementKind) → kind.Carrier → kind.Carrier → Prop
  | .logical, a, b => a = b
  | .raw, a, b => a = b
  | .integer, a, b => a = b
  | .double, x, y => Binary64.Equals x y
  | .complex, c, d => Binary64.Equals c.re d.re ∧ Binary64.Equals c.im d.im
  | .character, a, b => a = b

end ElementKind

theorem Complex.key_iff {c d : Complex} : (∃ key, c.key = some key ∧ d.key = some key) ↔
    c.isMissing = false ∧ d.isMissing = false ∧ c.re.Equals d.re ∧ c.im.Equals d.im := by
  -- A complex number has the key of its parts if both have one.
  have parts (c key : Complex) :
      c.key = some key ↔ c.re.key = some key.re ∧ c.im.key = some key.im := by
    obtain ⟨re, im⟩ := key
    rw [Complex.key]
    split
    · next one two here there => simp [here, there]
    · next absent =>
      simp only [reduceCtorEq, false_iff, not_and]
      exact fun here there => absent re im here there
  have real := Binary64.key_iff (x := c.re) (y := d.re)
  have imaginary := Binary64.key_iff (x := c.im) (y := d.im)
  simp only [Complex.isMissing, Bool.or_eq_false_iff]
  constructor
  · rintro ⟨key, h, h'⟩
    obtain ⟨first, second, equal⟩ :=
      real.mp ⟨key.re, ((parts c key).mp h).1, ((parts d key).mp h').1⟩
    obtain ⟨third, fourth, equal'⟩ :=
      imaginary.mp ⟨key.im, ((parts c key).mp h).2, ((parts d key).mp h').2⟩
    exact ⟨⟨first, third⟩, ⟨second, fourth⟩, equal, equal'⟩
  · rintro ⟨⟨first, third⟩, ⟨second, fourth⟩, equal, equal'⟩
    obtain ⟨re, here, there⟩ := real.mpr ⟨first, second, equal⟩
    obtain ⟨im, here', there'⟩ := imaginary.mpr ⟨third, fourth, equal'⟩
    exact ⟨⟨re, im⟩, (parts c _).mpr ⟨here, here'⟩, (parts d _).mpr ⟨there, there'⟩⟩

/-- With everything but a marker as its own key, equal keys are equal elements. -/
theorem marked_iff {α : Type} [DecidableEq α] {marker x y : α} :
    (∃ key, (if x = marker then none else some x) = some key ∧
      (if y = marker then none else some y) = some key) ↔ x ≠ marker ∧ y ≠ marker ∧ x = y := by
  by_cases here : x = marker <;> by_cases there : y = marker <;> simp [here, there, eq_comm]

namespace ElementKind

/-- Two elements have a key in common exactly when neither is missing and they are equal. -/
theorem key_iff : ∀ (kind : ElementKind) {x y : kind.Carrier},
    (∃ key, kind.key x = some key ∧ kind.key y = some key) ↔
      kind.isMissing x = false ∧ kind.isMissing y = false ∧ kind.Equals x y
  | .double, _, _ => Binary64.key_iff
  | .complex, _, _ => Complex.key_iff
  | .logical, _, _ => by simpa [key, isMissing, Equals] using marked_iff
  | .integer, _, _ => by simpa [key, isMissing, Equals] using marked_iff
  | .raw, x, y => by simp [key, isMissing, Equals, eq_comm]
  | .character, x, y => by cases x <;> cases y <;> simp [key, isMissing, Equals, eq_comm]

end ElementKind

/-! ### Kinds -/

/-- Two kinds are comparable in an atomic kind, unless one is that of functions or both are
that of `NULL`. -/
theorem Kind.membership_cases (a b : Kind) :
    (a = .closure ∨ b = .closure) ∧ membership a b = none ∨
    (a = .null ∧ b = .null) ∧ membership a b = some .null ∨
    (a ≠ .closure ∧ b ≠ .closure) ∧ ∃ kind, membership a b = some (.atomic kind) := by
  cases a <;> cases b <;> simp [membership, common]

namespace Value

/-- The element of `needles` at an index is not missing, and some element of `haystack` is not
missing and equal to it, when both are coerced to `kind`. -/
def IsMember (kind : ElementKind) (needles haystack : Value) (index : Nat) : Prop :=
  kind.isMissing (needles.elementAs kind index) = false ∧
    ∃ other < haystack.size, kind.isMissing (haystack.elementAs kind other) = false ∧
      kind.Equals (needles.elementAs kind index) (haystack.elementAs kind other)

variable {kind : ElementKind} {needles haystack v : Value} {index : Nat} {key : kind.Carrier}

theorem isMember_iff : IsMember kind needles haystack index ↔
    ∃ key, kind.key (needles.elementAs kind index) = some key ∧
      ∃ other < haystack.size, kind.key (haystack.elementAs kind other) = some key := by
  constructor
  · rintro ⟨present, other, inside, present', equal⟩
    obtain ⟨key, here, there⟩ := (kind.key_iff).mpr ⟨present, present', equal⟩
    exact ⟨key, here, other, inside, there⟩
  · rintro ⟨key, here, other, inside, there⟩
    obtain ⟨present, present', equal⟩ := (kind.key_iff).mp ⟨key, here, there⟩
    exact ⟨present, other, inside, present', equal⟩

/-! ### Searching -/

/-- The search among some elements finds the key if one of them has it. -/
theorem containsFrom_iff (v : Value) (key : kind.Carrier) (count start : Nat) :
    (v.containsFrom kind key count start).value = true ↔
      ∃ index, start ≤ index ∧ index < start + count ∧
        kind.key (v.atomAt index kind).value = some key := by
  induction count generalizing start with
  | zero =>
    simp only [containsFrom, Metered.value_pure, Bool.false_eq_true, false_iff]
    rintro ⟨index, from_start, inside, -⟩
    omega
  | succ count ih =>
    rw [containsFrom, Metered.value_bind]
    split
    · next hit => simpa using ⟨start, Nat.le_refl _, by omega, hit⟩
    · next miss =>
      -- A miss moves the start on by one, and the index that hits is not the one that missed.
      rw [ih]
      constructor
      · rintro ⟨index, later, inside, hit⟩
        exact ⟨index, by omega, by omega, hit⟩
      · rintro ⟨index, from_start, inside, hit⟩
        have other : start ≠ index := fun same => miss (same ▸ hit)
        exact ⟨index, by omega, by omega, hit⟩

theorem contains_iff : (haystack.contains kind key).value = true ↔
    ∃ other < haystack.size, kind.key (haystack.elementAs kind other) = some key := by
  rw [contains, containsFrom_iff]
  constructor
  · rintro ⟨other, -, inside, hit⟩
    rw [Nat.zero_add] at inside
    exact ⟨other, inside, value_atomAt inside ▸ hit⟩
  · rintro ⟨other, inside, hit⟩
    exact ⟨other, Nat.zero_le _, by omega, (value_atomAt inside).symm ▸ hit⟩

/-- The keys of all elements have the key if one of the elements has it. -/
theorem contains_keys_iff :
    ((haystack.atomsAs kind).value.filterMap kind.key).contains key = true ↔
      ∃ other < haystack.size, kind.key (haystack.elementAs kind other) = some key := by
  rw [List.contains_iff_mem, List.mem_filterMap, value_atomsAs]
  constructor
  · rintro ⟨_, member, hit⟩
    obtain ⟨other, inside, rfl⟩ := List.mem_map.mp member
    exact ⟨other, List.mem_range.mp inside, hit⟩
  · rintro ⟨other, inside, hit⟩
    exact ⟨_, List.mem_map.mpr ⟨other, List.mem_range.mpr inside, rfl⟩, hit⟩

/-- A single needle and several are sought by their keys, in one way or the other, and found
if some element of the other value has the key. -/
theorem memberIn_eq (kind : ElementKind) (needles haystack : Value) :
    ∃ has : kind.Carrier → Bool,
      (∀ key, has key = true ↔
        ∃ other < haystack.size, kind.key (haystack.elementAs kind other) = some key) ∧
      (memberIn kind needles haystack).outcome =
        .ok ((List.range needles.size).map fun index =>
          (kind.key (needles.elementAs kind index)).any has) := by
  -- One needle is sought in the other value itself, several are sought among its keys.
  by_cases single : needles.size = 1
  · refine ⟨fun key => (haystack.contains kind key).value, fun key => contains_iff, ?_⟩
    have inside : 0 < needles.size := by omega
    rw [memberIn, if_pos single, atomWithin, if_pos inside, Attempt.outcome_lift_bind,
      value_atomAt inside, single]
    cases sought : kind.key (needles.elementAs kind 0) with
    | none => simp [sought]
    | some key =>
      rw [Attempt.outcome_lift_bind]
      simp [sought]
  · refine ⟨((haystack.atomsAs kind).value.filterMap kind.key).contains,
      fun key => contains_keys_iff, ?_⟩
    rw [memberIn, if_neg single, Attempt.outcome_lift_bind, Attempt.outcome_lift_bind,
      value_atomsAs (v := needles), List.map_map]
    rfl

/-! ### The operator -/

theorem kind_eq_closure_iff (ordinary : v.IsOrdinary) : v.kind = .closure ↔ v.isFunction := by
  cases v with
  | null => simp [Value.kind, isFunction]
  | vector storage metadata => simpa [isFunction] using (ordinary rfl).2
  | closure layout env => simp [Value.kind, isFunction]
  | builtin name index => simp [Value.kind, isFunction]

/-- For all values, of kinds that have vectors where they are vectors: membership fails exactly
when one of the two is a function, and names the type of the first that is. Otherwise it is a
stored vector of truth values, none of them missing, with one for each needle and nothing
carried; and it is true exactly where the needle, read in its own kind and coerced to the kind
in which the two are comparable, is not missing and equal to some element of the other value
that is read in the same way and not missing either. -/
theorem member_iff_equal (needles haystack : Value) (ordinary : needles.IsOrdinary)
    (ordinary' : haystack.IsOrdinary) :
    if needles.isFunction ∨ haystack.isFunction then
      (needles.member haystack).outcome = .error (.error
        { cause := .unsupportedOperand "%in%"
            (if needles.isFunction then needles else haystack).typeName })
    else
      ∃ found : List Logical,
        (needles.member haystack).outcome = .ok (.vector (.atoms .logical found) none) ∧
        found.length = needles.size ∧ Logical.missing ∉ found ∧
        ∀ index < needles.size, ∃ kind,
          Kind.membership needles.kind haystack.kind = some (.atomic kind) ∧
          (found[index]? = some .yes ↔ IsMember kind needles haystack index) := by
  have functions : needles.kind = .closure ∨ haystack.kind = .closure ↔
      needles.isFunction ∨ haystack.isFunction :=
    or_congr (kind_eq_closure_iff ordinary) (kind_eq_closure_iff ordinary')
  rw [member]
  rcases Kind.membership_cases needles.kind haystack.kind with
    ⟨function, kinds⟩ | ⟨⟨nothing, nothing'⟩, kinds⟩ | ⟨⟨data, data'⟩, kind, kinds⟩
  · rw [if_pos (functions.mp function), kinds]
    rfl
  · rw [if_neg (by simp [← functions, nothing, nothing']), kinds]
    -- Between two that are `NULL` there is no kind to compare in, but there are no needles.
    obtain rfl := eq_null_of_kind ordinary nothing
    exact ⟨[], rfl, rfl, List.not_mem_nil, fun index inside => absurd inside (Nat.not_lt_zero _)⟩
  · rw [if_neg (by simp [← functions, data, data']), kinds]
    obtain ⟨has, spec, outcome⟩ := memberIn_eq kind needles haystack
    refine ⟨_, Attempt.outcome_bind_of_ok _ outcome, by simp, ?_, fun index inside =>
      ⟨kind, rfl, ?_⟩⟩
    · simp only [List.mem_map, not_exists, not_and]
      rintro answer -
      cases answer <;> simp [Logical.ofBool]
    · have answer (b : Bool) : Logical.ofBool b = .yes ↔ b = true := by
        cases b <;> simp [Logical.ofBool]
      simp [inside, answer, isMember_iff, Option.any_eq_true, spec]

/-- A negative zero is found among integers, and the missing number is found nowhere. -/
theorem member_iff_equal_negativeZero :
    let needles := Value.ofAtoms .double [.zero true, .missing]
    let haystack := Value.ofAtoms .integer [0, missingInteger]
    ∃ found : List Logical,
      (needles.member haystack).outcome = .ok (.vector (.atoms .logical found) none) ∧
        found[0]? = some .yes ∧ found[1]? ≠ some .yes := by
  intro needles haystack
  have ordinary : needles.IsOrdinary := fun _ => Kind.hasVectors_atomic .double
  have ordinary' : haystack.IsOrdinary := fun _ => Kind.hasVectors_atomic .integer
  have holds := member_iff_equal needles haystack ordinary ordinary'
  rw [if_neg (by decide)] at holds
  obtain ⟨found, outcome, -, -, answers⟩ := holds
  obtain ⟨kind, ⟨⟩, first⟩ := answers 0 (by decide)
  obtain ⟨kind, ⟨⟩, second⟩ := answers 1 (by decide)
  refine ⟨found, outcome, first.mpr ⟨by decide, 0, by decide, ?_, .inl ?_⟩, ?_⟩
  · decide +kernel
  · decide +kernel
  · rw [ne_eq, second]
    rintro ⟨present, -⟩
    exact absurd present (by decide)

end Value

end Vectorial
