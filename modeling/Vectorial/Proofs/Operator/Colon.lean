import Vectorial.Proofs.Binary64.Exact
import Vectorial.Proofs.Builtin.Safety
import Vectorial.Proofs.Element.Widening
import Vectorial.Proofs.Value.Elements
import Vectorial.Proofs.Value.Progression

/-!
# From one whole number to another

The bounds of a progression are read as doubles, in which whole numbers of the size of integers
are exact, and so are their distance and the number that it leads to. So the last term is the
second bound itself, whatever the direction, and all terms are integers that are not missing.
Other bounds may be rounded, but never so far that the last term lies on the wrong side of the
first one.

## Main definitions

* `Value.IsWholeNumber`: a value is a single truth value, byte, integer or double that is this
  whole number;
* `Value.HasBound`: a value is a single element that is read as this double.

## Main results

* `Value.outcome_colon`: finite bounds are not refused;
* `Value.between_whole`: what is between two whole numbers;
* `Value.colon_enumerates`: the operator.
-/

namespace Vectorial

/-! ### Whole numbers -/

/-- The element is a truth value, a byte, an integer or a double that is this whole number. -/
def Atom.IsWholeNumber (n : Int) : Atom → Prop
  | ⟨.logical, l⟩ => l = .no ∧ n = 0 ∨ l = .yes ∧ n = 1
  | ⟨.raw, r⟩ => n = r.toNat
  | ⟨.integer, i⟩ => i ≠ missingInteger ∧ n = i.toInt
  | ⟨.double, d⟩ => d.IsInteger n
  | ⟨.complex, _⟩ => False
  | ⟨.character, _⟩ => False

/-- A whole number is exact as a double. -/
theorem Atom.IsWholeNumber.toDouble {a : Atom} {n : Int} (whole : a.IsWholeNumber n) :
    a.toDouble.IsInteger n := by
  obtain ⟨kind, x⟩ := a
  cases kind with
  | logical =>
    rcases whole with ⟨rfl, rfl⟩ | ⟨rfl, rfl⟩
    · exact Binary64.isInteger_ofInt (n := 0) (by decide)
    · exact Binary64.isInteger_ofInt (n := 1) (by decide)
  | raw =>
    -- A byte has fewer bits than a double.
    obtain rfl := whole
    have byte : x.toNat < 256 := x.toNat_lt
    refine Binary64.isInteger_ofInt ?_
    rw [Int.natAbs_natCast, show Nat.pow 2 53 = 9007199254740992 from rfl]
    omega
  | integer =>
    obtain ⟨present, rfl⟩ := whole
    rw [Atom.toDouble, if_neg present]
    exact Binary64.isInteger_ofInt (natAbs_toInt_lt x)
  | double => exact whole
  | complex => exact whole.elim
  | character => exact whole.elim

namespace Binary64

variable {x y : Binary64} {a b n : Int}

/-- A whole number in the range of integers that are not missing is one of them. -/
theorem IsInteger.integral?_eq (whole : x.IsInteger n) (small : n.natAbs ≤ 2147483647) :
    x.integral? = some (Int32.ofInt n) := by
  have inside : -2147483648 < n ∧ n < 2147483648 := by omega
  rw [integral?, whole.truncated_eq, whole.finite, whole.isWhole, decide_eq_true inside]
  rfl

/-- As many steps as fit between two whole numbers are their distance. -/
theorem IsInteger.steps (whole : x.IsInteger a) (whole' : y.IsInteger b)
    (small : (b - a).natAbs < Nat.pow 2 53) :
    (y.sub x).abs.floorNonnegative.IsInteger (b - a).natAbs :=
  (whole'.sub whole small).abs.floorNonnegative small

/-- So many steps lead from one to the other. -/
theorem IsInteger.last (whole : x.IsInteger a) (whole' : y.IsInteger b)
    (small : a.natAbs ≤ 2147483648) (small' : b.natAbs ≤ 2147483648) :
    (x.add ((ofInt (if a ≤ b then 1 else -1 : Int32).toInt).mul
      (y.sub x).abs.floorNonnegative)).IsInteger b := by
  have few : Nat.pow 2 53 = 9007199254740992 := rfl
  have steps := whole.steps whole' (by omega)
  -- Up or down, the product and the sum are whole numbers of few bits, and so exact.
  have direction (d : Int) (one : d.natAbs = 1) (reaches : a + d * (b - a).natAbs = b) :
      (x.add ((ofInt d).mul (y.sub x).abs.floorNonnegative)).IsInteger b := by
    have step : (ofInt d).IsInteger d := isInteger_ofInt (by omega)
    have size : (d * (b - a).natAbs).natAbs = (b - a).natAbs := by
      rw [Int.natAbs_mul, one, Nat.one_mul, Int.natAbs_natCast]
    have sum := whole.add (step.mul steps (by omega)) (by omega)
    rwa [reaches] at sum
  have up : (1 : Int32).toInt = 1 := rfl
  have down : (-1 : Int32).toInt = -1 := rfl
  split
  · rw [up]
    exact direction 1 rfl (by omega)
  · rw [down]
    exact direction (-1) rfl (by omega)

end Binary64

namespace Value

variable {v w : Value} {x y : Binary64} {a b n : Int}

/-! ### Bounds -/

/-- The value is a single element, which is this double if it is read as one. -/
structure HasBound (v : Value) (x : Binary64) : Prop where
  vector : v.isVector
  single : v.size = 1
  reads : v.elementAs .double 0 = x

/-- A vector that is coerced to doubles has the same elements, seen as doubles. -/
theorem exists_coerceTo_double (vector : v.isVector) :
    ∃ number, v.coerceTo (.atomic .double) = .ok number ∧ number.size = v.size ∧
      ∀ index < v.size, (number.atomAt index .double).value = v.elementAs .double index := by
  cases v with
  | vector storage metadata =>
    by_cases same : (Value.vector storage metadata).kind = .atomic .double
    · exact ⟨_, if_pos same, rfl, fun index inside => value_atomAt inside⟩
    · refine ⟨(Value.vector storage metadata).viewedAs (.atomic .double), if_neg same, rfl,
        fun index inside => ?_⟩
      have element := element_viewedAs rfl (Kind.hasVectors_atomic .double) inside
      have same_size : ((Value.vector storage metadata).viewedAs (.atomic .double)).size =
        (Value.vector storage metadata).size := rfl
      rw [value_atomAt (same_size ▸ inside), elementAs, element]
      rfl
  | null => cases vector
  | closure layout env => cases vector
  | builtin name handle => cases vector

/-- A bound that is finite is not refused. -/
theorem outcome_bound (has : v.HasBound x) (finite : x.isFinite) (arg : Symbol) :
    (v.bound arg).outcome = .ok x := by
  obtain ⟨number, made, size, reads⟩ := exists_coerceTo_double has.vector
  have inside : 0 < number.size := by rw [size, has.single]; exact Nat.one_pos
  have read : (number.atomAt 0 .double).value = x :=
    (reads 0 (size ▸ inside)).trans has.reads
  rw [bound, if_neg (not_not.mpr has.single), made]
  refine (Attempt.outcome_bind_of_ok _ (a := number) rfl).trans ?_
  rw [atomWithin, if_pos inside]
  refine (Attempt.outcome_lift_bind _ _).trans ?_
  rw [read]
  simp [Binary64.ordinary_of_isFinite finite]

theorem outcome_colon (has : v.HasBound x) (has' : w.HasBound y) (finite : x.isFinite)
    (finite' : y.isFinite) : (v.colon w).outcome = (Attempt.ofDefect (between x y)).outcome := by
  rw [colon]
  refine (Attempt.outcome_bind_of_ok _ (outcome_bound has finite "from")).trans ?_
  exact Attempt.outcome_bind_of_ok _ (outcome_bound has' finite' "to")

/-! ### Whole numbers -/

/-- The value is a single truth value, byte, integer or double that is this whole number. -/
def IsWholeNumber (v : Value) (n : Int) : Prop :=
  v.size = 1 ∧ ∃ a : Atom, (v.get 0).map Metered.value = .ok (.atom a) ∧ a.IsWholeNumber n

theorem isWholeNumber_ofAtom {a : Atom} (whole : a.IsWholeNumber n) :
    (ofAtom a).IsWholeNumber n :=
  ⟨rfl, a, rfl, whole⟩

theorem IsWholeNumber.hasBound (whole : v.IsWholeNumber n) : ∃ x, v.HasBound x ∧ x.IsInteger n := by
  obtain ⟨single, a, shown, whole⟩ := whole
  have inside : 0 < v.size := size_pos_of_single single
  rw [get_eq inside] at shown
  have element : (v.element 0).value = .atom a := Except.ok.inj shown
  refine ⟨a.toDouble, ⟨?_, single, ?_⟩, whole.toDouble⟩
  · cases v with
    | vector storage metadata => rfl
    | null => cases single
    | closure layout env => cases element
    | builtin name handle => cases element
  · rw [elementAs, element]
    rfl

/-- Between two whole numbers there is a progression in steps of one, or a count from one on. -/
theorem between_whole (whole : x.IsInteger a) (whole' : y.IsInteger b)
    (small : a.natAbs ≤ 2147483647) (small' : b.natAbs ≤ 2147483647) :
    between x y =
      if Int32.ofInt a = 1 ∧ 1 ≤ Int32.ofInt b then Value.upTo (Int32.ofInt b)
      else Value.sequence (Int32.ofInt a) (Int32.ofInt b) (if a ≤ b then 1 else -1) := by
  have upward : x.le y = decide (a ≤ b) := by
    rw [Bool.eq_iff_iff, whole.le_iff whole', decide_eq_true_eq]
  have last := (whole.last whole' (by omega) (by omega)).integral?_eq small'
  rw [between]
  simp only [upward, decide_eq_true_eq, whole.integral?_eq small, last]

/-- All terms between two whole numbers, whichever of the two views computes them. -/
theorem exists_between_whole (whole : x.IsInteger a) (whole' : y.IsInteger b)
    (small : a.natAbs ≤ 2147483647) (small' : b.natAbs ≤ 2147483647) :
    ∃ view terms, between x y = .ok (.vector (.view view) none) ∧ view.Shows terms ∧
      Progression.Enumerates a b (if a ≤ b then 1 else -1) terms := by
  have start : (Int32.ofInt a).toInt = a := Int32.toInt_ofInt_of_le (by omega) (by omega)
  have stop : (Int32.ofInt b).toInt = b := Int32.toInt_ofInt_of_le (by omega) (by omega)
  have step : (if a ≤ b then 1 else -1 : Int32).toInt = if a ≤ b then 1 else -1 := by
    split <;> rfl
  have leads : Progression.Leads (Int32.ofInt a).toInt (Int32.ofInt b).toInt
      (if a ≤ b then 1 else -1 : Int32).toInt := by
    rw [start, stop, step, Progression.leads_iff]
    split <;> omega
  let p : Progression := ⟨_, _, _, Progression.leads_iff.mp leads⟩
  have enumerates : Progression.Enumerates a b (if a ≤ b then 1 else -1) p.running := by
    have terms := p.enumerates_running
    rwa [start, stop, step] at terms
  rw [between_whole whole whole' small small']
  split
  -- Counting from one upward has a view of its own, with the same terms.
  · next counts =>
    have positive : 1 ≤ (Int32.ofInt b).toInt := Int32.le_iff_toInt_le.mp counts.2
    have up : a ≤ b := by
      have one := congrArg Int32.toInt counts.1
      rw [start] at one
      exact one.le.trans (stop ▸ positive)
    let r : UpTo := ⟨Int32.ofInt b, positive⟩
    have same : r.terms = p.running := r.terms_eq_running counts.1 rfl (if_pos up)
    exact ⟨.range r, p.running, congrArg (Except.map _) (dif_pos positive),
      same ▸ View.shows_range r, enumerates⟩
  · exact ⟨.sequence p, p.running,
      congrArg (Except.map _) ((Progression.of_eq _ _ _).trans (dif_pos leads)),
      View.shows_sequence p, enumerates⟩

/-! ### The operator -/

/-- For all values that are single truth values, bytes, integers or doubles and whole numbers in
the range of the integers that are not missing, the operator gives a view of integers. They are
one more than the distance of the two, in steps of one from the first in the direction of the
second, which is the last of them, and none is missing. For any two values that are single
elements and finite if they are read as doubles, it gives a well-formed value, whatever they are
rounded to; only memory that no address reaches may be asked for. -/
theorem colon_enumerates (v w : Value) :
    (∀ a b, v.IsWholeNumber a → w.IsWholeNumber b →
      a.natAbs ≤ 2147483647 → b.natAbs ≤ 2147483647 →
      ∃ view terms, (v.colon w).outcome = .ok (.vector (.view view) none) ∧ view.Shows terms ∧
        terms.length = (b - a).natAbs + 1 ∧
        (∀ index (inside : index < terms.length),
          terms[index].toInt = if a ≤ b then a + index else a - index) ∧
        terms.getLast?.map Int32.toInt = some b ∧ missingInteger ∉ terms) ∧
    ∀ x y, v.HasBound x → w.HasBound y → x.isFinite → y.isFinite →
      (∃ result, (v.colon w).outcome = .ok result ∧ result.WellFormed) ∨
        (v.colon w).outcome = .error (.defect .capacityOverflow) := by
  refine ⟨fun a b whole whole' small small' => ?_, fun x y has has' finite finite' => ?_⟩
  · obtain ⟨x, has, whole⟩ := whole.hasBound
    obtain ⟨y, has', whole'⟩ := whole'.hasBound
    obtain ⟨view, terms, made, shows, enumerates⟩ :=
      exists_between_whole whole whole' small small'
    have length : terms.length = (b - a).natAbs + 1 := by
      rw [enumerates.length_eq]
      split <;> simp
    have exact (index : Nat) (inside : index < terms.length) :
        terms[index].toInt = if a ≤ b then a + index else a - index := by
      rw [enumerates.exact index inside]
      split <;> omega
    refine ⟨view, terms, ?_, shows, length, exact, ?_, fun absent => ?_⟩
    · rw [outcome_colon has has' whole.finite whole'.finite, made]
      rfl
    · have inside : (b - a).natAbs < terms.length := by omega
      have last : terms.length - 1 = (b - a).natAbs := by omega
      rw [List.getLast?_eq_getElem?, last, List.getElem?_eq_getElem inside, Option.map_some,
        exact _ inside]
      split <;> exact congrArg some (by omega)
    · have within := enumerates.within _ absent
      rw [toInt_missingInteger] at within
      omega
  · rw [outcome_colon has has' finite finite']
    -- Whatever was rounded on the way, the checks on a progression are passed.
    have safe := between_isSafe x y
    cases ended : between x y with
    | ok result =>
      rw [ended] at safe
      exact .inl ⟨result, rfl, safe⟩
    | error violated =>
      rw [ended] at safe
      obtain rfl : violated = .capacityOverflow := safe
      exact .inr rfl

/-- Down from the greatest integer to the double of the least one that is not missing; and up from
one half, which is not whole. -/
theorem colon_enumerates_extremes :
    let most := ofAtom ⟨.integer, 2147483647⟩
    let least := ofAtom ⟨.double, .ofInt (-2147483647)⟩
    let half := ofAtom ⟨.double, ⟨0x3FE0000000000000⟩⟩
    (∃ view terms, (most.colon least).outcome = .ok (.vector (.view view) none) ∧
      view.Shows terms ∧ terms.length = 4294967295 ∧
      terms.getLast?.map Int32.toInt = some (-2147483647) ∧ missingInteger ∉ terms) ∧
    ((∃ result, (half.colon most).outcome = .ok result ∧ result.WellFormed) ∨
      (half.colon most).outcome = .error (.defect .capacityOverflow)) := by
  intro most least half
  have whole : most.IsWholeNumber 2147483647 := isWholeNumber_ofAtom ⟨by decide, rfl⟩
  have integer : (Binary64.ofInt (-2147483647)).IsInteger (-2147483647) :=
    Binary64.isInteger_ofInt (by decide)
  have whole' : least.IsWholeNumber (-2147483647) := isWholeNumber_ofAtom integer
  have fraction : half.HasBound ⟨0x3FE0000000000000⟩ := ⟨rfl, rfl, rfl⟩
  obtain ⟨y, number, bound⟩ := whole.hasBound
  constructor
  · obtain ⟨view, terms, made, shows, length, -, last, present⟩ :=
      (colon_enumerates most least).1 _ _ whole whole' (by decide) (by decide)
    exact ⟨view, terms, made, shows, length, last, present⟩
  · exact (colon_enumerates half most).2 _ y fraction number (by decide) bound.finite

end Value

end Vectorial
