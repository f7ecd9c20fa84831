import Vectorial.Proofs.Decimal.Whole
import Vectorial.Value.Reading

/-!
# Widening loses nothing

A kind of numbers widens to another one if that is what the two have in common. An element that
is widened stays what it was: it is read as any kind of number as before, so that taking it back
returns it with all its bits, the payload of a NaN included, and widening in two steps is widening
in one. It is missing exactly if it was. Texts are no wider kind of number, but truth values and
integers survive being written and read as well.

## Main definitions

* `ElementKind.WidensTo`: the order of the kinds of numbers.

## Main results

* `Atom.asKind_asKind`: a widened number is read as the number itself;
* `Atom.isMissing_widened`, `Atom.isMissing_toText`: it is missing if the number is;
* `Scalar.widening_embeds`: coercion along the order and back.
-/

namespace Vectorial

namespace ElementKind

/-- Whether the second of two kinds of numbers is what they have in common. -/
def WidensTo (narrow wide : ElementKind) : Prop :=
  narrow.isNumeric ∧ wide.isNumeric ∧
    (Kind.atomic narrow).common (.atomic wide) = some (.atomic wide)

instance : DecidableRel WidensTo :=
  fun _ _ => inferInstanceAs (Decidable (_ ∧ _ ∧ _))

variable {narrow wide : ElementKind}

theorem ne_character_of_isNumeric {kind : ElementKind} (numeric : kind.isNumeric) :
    kind ≠ character := by
  rintro rfl
  cases numeric

theorem WidensTo.join_eq (widens : narrow.WidensTo wide) : narrow.join wide = wide :=
  Kind.atomic.inj (Option.some.inj widens.2.2)

/-- Widening to another kind leads to integers at least. -/
theorem WidensTo.eq_or_integer (widens : narrow.WidensTo wide) :
    narrow = wide ∨ integer.join wide = wide := by
  revert widens
  cases narrow <;> cases wide <;> decide

end ElementKind

/-- An integer is small enough to be a double. -/
theorem natAbs_toInt_lt (i : Int32) : i.toInt.natAbs < Nat.pow 2 53 := by
  have least := i.le_toInt
  have most := i.toInt_lt
  rw [show Nat.pow 2 53 = 9007199254740992 from rfl]
  omega

/-- A power of two is at most that power of ten. The exponents are left open, for the powers that
it is used for are too large to be computed. -/
theorem two_pow_le_ten_pow {j k : Nat} (le : j ≤ k) : Nat.pow 2 j ≤ 10 ^ k :=
  (Nat.pow_le_pow_left (by decide) j).trans (Nat.pow_le_pow_right (by decide) le)

theorem toInt_missingInteger : missingInteger.toInt = -2147483648 :=
  rfl

/-- A byte as an integer. -/
theorem toInt_ofByte (r : UInt8) : (Int32.ofNat r.toNat).toInt = r.toNat := by
  have byte : r.toNat < 256 := r.toNat_lt
  exact Int32.toInt_ofNat_of_lt (by omega)

/-- No byte is missing as an integer. -/
theorem ofByte_ne_missingInteger (r : UInt8) : Int32.ofNat r.toNat ≠ missingInteger := by
  intro same
  have value := toInt_ofByte r
  rw [same, toInt_missingInteger] at value
  omega

namespace Atom

variable {kind : ElementKind} {a b : Atom}

/-! ### Missing elements -/

/-- A truth value, a byte or an integer is missing as an integer exactly if it is. -/
theorem isMissing_toInteger (narrow : a.kind.join .integer = .integer) :
    ElementKind.integer.isMissing a.toInteger = a.isMissing := by
  obtain ⟨own, x⟩ := a
  cases own with
  | logical => cases x <;> decide
  | raw => exact beq_eq_false_iff_ne.mpr (ofByte_ne_missingInteger x)
  | integer => rfl
  | double => cases narrow
  | complex => cases narrow
  | character => cases narrow

theorem isMissing_toDouble (narrow : a.kind.join .double = .double) :
    ElementKind.double.isMissing a.toDouble = a.isMissing := by
  obtain ⟨own, x⟩ := a
  cases own with
  | logical =>
    cases x with
    | missing => decide
    | yes => exact Binary64.isMissing_ofInt 1
    | no => exact Binary64.isMissing_ofInt 0
  | raw => exact Binary64.isMissing_ofInt x.toNat
  | integer =>
    -- Only the missing integer becomes the missing double; all others become numbers.
    by_cases absent : x = missingInteger
    · subst absent
      decide
    · have present : Atom.isMissing ⟨.integer, x⟩ = false := beq_eq_false_iff_ne.mpr absent
      rw [present, toDouble, if_neg absent]
      exact Binary64.isMissing_ofInt x.toInt
  | double => rfl
  | complex => cases narrow
  | character => cases narrow

/-- Any element but a complex one becomes complex by way of a double. -/
theorem toComplex_eq (other : a.kind ≠ .complex) : a.toComplex =
    if a.isMissing || a.toDouble.isMissing then .missing else ⟨a.toDouble, .zero false⟩ := by
  obtain ⟨own, x⟩ := a
  cases own with
  | complex => exact absurd rfl other
  | _ => rfl

theorem isMissing_toComplex (narrow : a.kind.join .complex = .complex) :
    ElementKind.complex.isMissing a.toComplex = a.isMissing := by
  by_cases same : a.kind = .complex
  · obtain ⟨own, x⟩ := a
    subst same
    rfl
  -- Any other number goes by way of a double, which is missing if the number is.
  have real : a.kind.join .double = .double := by
    revert narrow same
    cases a.kind <;> decide
  have double : a.toDouble.isMissing = a.isMissing := isMissing_toDouble real
  rw [toComplex_eq same, double, Bool.or_self]
  split
  · next absent => exact absent.symm
  · next present =>
    rw [Bool.not_eq_true] at present
    have zero : (Binary64.zero false).isMissing = false := by decide
    exact (congrArg₂ (· || ·) double zero).trans (Bool.or_false _)

/-- A number that is raised to another kind is missing exactly if it was. -/
theorem isMissing_asKind (numeric : kind.isNumeric) (wide : ElementKind.integer.join kind = kind)
    (narrow : a.kind.join kind = kind) : kind.isMissing (a.asKind kind) = a.isMissing := by
  cases kind with
  | logical => cases wide
  | raw => cases wide
  | integer => exact isMissing_toInteger narrow
  | double => exact isMissing_toDouble narrow
  | complex => exact isMissing_toComplex narrow
  | character => cases numeric

/-- A text is missing exactly if the element is that it was made of. -/
theorem isMissing_toText (a : Atom) :
    ElementKind.character.isMissing a.toText = a.isMissing := by
  unfold toText
  split
  · next absent => exact absent.symm
  · next present =>
    rw [Bool.not_eq_true] at present
    rw [present]
    obtain ⟨own, x⟩ := a
    cases own with
    | character => exact present
    | _ => rfl

/-! ### Numbers that are widened -/

/-- Elements with one double become one complex number, if both or none of them is missing. -/
theorem toComplex_congr (a b : Atom) (left : a.kind ≠ .complex) (right : b.kind ≠ .complex)
    (absent : a.isMissing = b.isMissing) (double : a.toDouble = b.toDouble) :
    a.toComplex = b.toComplex := by
  rw [toComplex_eq left, toComplex_eq right, absent, double]

/-- A byte is read as the integer that it amounts to. -/
theorem asKind_ofByte (kind : ElementKind) (r : UInt8) (number : kind ≠ .character) :
    asKind ⟨.integer, Int32.ofNat r.toNat⟩ kind = asKind ⟨.raw, r⟩ kind := by
  have value := toInt_ofByte r
  have present := ofByte_ne_missingInteger r
  have byte : r.toNat < 256 := r.toNat_lt
  have double : toDouble ⟨.integer, Int32.ofNat r.toNat⟩ = toDouble ⟨.raw, r⟩ :=
    (if_neg present).trans (congrArg Binary64.ofInt value)
  cases kind with
  | logical =>
    -- A byte is true if it is not zero, and so is the integer.
    have nonzero : (Int32.ofNat r.toNat != 0) = (r != 0) := by
      rw [Bool.eq_iff_iff, bne_iff_ne, bne_iff_ne, ne_eq, ne_eq, ← Int32.toInt_inj, value,
        ← UInt8.toNat_inj]
      exact not_congr Int.natCast_eq_zero
    exact (if_neg present).trans (congrArg Logical.ofBool nonzero)
  | raw =>
    have inside : 0 ≤ (Int32.ofNat r.toNat).toInt ∧ (Int32.ofNat r.toNat).toInt ≤ 255 := by omega
    refine (if_pos inside).trans ?_
    rw [value, Int.toNat_natCast]
    exact UInt8.ofNat_toNat
  | integer => rfl
  | double => exact double
  | complex =>
    exact toComplex_congr ⟨.integer, _⟩ ⟨.raw, r⟩ nofun nofun (beq_eq_false_iff_ne.mpr present)
      double
  | character => exact absurd rfl number

/-- A truth value or a byte is read as the integer that it amounts to. -/
theorem asKind_toInteger (kind : ElementKind) (narrow : a.kind.join .integer = .integer)
    (number : kind ≠ .character) : asKind ⟨.integer, a.toInteger⟩ kind = a.asKind kind := by
  obtain ⟨own, x⟩ := a
  cases own with
  | logical =>
    revert number
    cases x <;> cases kind <;> decide +kernel
  | raw => exact asKind_ofByte kind x number
  | integer => rfl
  | double => cases narrow
  | complex => cases narrow
  | character => cases narrow

/-- An integer is read as the double that has its value. -/
theorem asKind_ofInteger (kind : ElementKind) (i : Int32) (number : kind ≠ .character) :
    asKind ⟨.double, toDouble ⟨.integer, i⟩⟩ kind = asKind ⟨.integer, i⟩ kind := by
  -- The missing integer is one value, for which every kind is computed.
  by_cases absent : i = missingInteger
  · subst absent
    revert number
    cases kind <;> decide
  have small := natAbs_toInt_lt i
  have whole : toDouble ⟨.integer, i⟩ = .ofInt i.toInt := if_neg absent
  have number' := Binary64.isNaN_ofInt i.toInt
  have truncated := Binary64.truncated_ofInt small
  cases kind with
  | logical =>
    have nonzero : (!(Binary64.ofInt i.toInt).isZero) = (i != 0) := by
      rw [Binary64.isZero_ofInt small, Bool.eq_iff_iff, bne_iff_ne, ne_eq, ← Int32.toInt_inj,
        Bool.not_eq_true', decide_eq_false_iff_not]
      rfl
    simp only [asKind, toLogical, whole, number', absent, nonzero, Bool.false_eq_true, if_false]
  | raw =>
    simp only [asKind, toRaw, whole, Binary64.toRaw, number', truncated, Bool.false_eq_true,
      if_false]
  | integer =>
    have least := i.le_toInt
    have most := i.toInt_lt
    -- Every other integer is in the range of the doubles that are read as integers.
    have inside : ¬(2147483647 < i.toInt ∨ i.toInt ≤ -2147483648) := by
      have apart := mt Int32.toInt_inj.mp absent
      rw [toInt_missingInteger] at apart
      omega
    simp only [asKind, toInteger, whole, Binary64.toInteger, Binary64.toInteger?, number',
      truncated, inside, Bool.false_eq_true, if_false, Int32.ofInt_toInt, Option.getD_some]
  | double => rfl
  | complex =>
    exact toComplex_congr ⟨.double, _⟩ ⟨.integer, i⟩ nofun nofun
      (isMissing_toDouble (a := ⟨.integer, i⟩) rfl) rfl
  | character => exact absurd rfl number

/-- Any number that is narrower than a double is read as that double. -/
theorem asKind_toDouble (kind : ElementKind) (narrow : a.kind.join .double = .double)
    (number : kind ≠ .character) : asKind ⟨.double, a.toDouble⟩ kind = a.asKind kind := by
  -- Truth values and bytes go by way of the integers.
  have stepwise (narrow : a.kind.join .integer = .integer) :
      asKind ⟨.double, a.toDouble⟩ kind = a.asKind kind := by
    have double : toDouble ⟨.integer, a.toInteger⟩ = a.toDouble :=
      asKind_toInteger .double narrow nofun
    rw [← double, asKind_ofInteger kind _ number, asKind_toInteger kind narrow number]
  obtain ⟨own, x⟩ := a
  cases own with
  | logical => exact stepwise rfl
  | raw => exact stepwise rfl
  | integer => exact asKind_ofInteger kind x number
  | double => rfl
  | complex => cases narrow
  | character => cases narrow

/-- A double is read as the complex number that it is the real part of. -/
theorem asKind_ofDouble (kind : ElementKind) (d : Binary64) (number : kind ≠ .character) :
    asKind ⟨.complex, toComplex ⟨.double, d⟩⟩ kind = asKind ⟨.double, d⟩ kind := by
  by_cases absent : d = .missing
  · subst absent
    revert number
    cases kind <;> decide
  have present : d.isMissing = false := beq_eq_false_iff_ne.mpr absent
  have whole : toComplex ⟨.double, d⟩ = ⟨d, .zero false⟩ := by
    -- The imaginary part of a widened double is zero, and the number is missing only if the double
    -- is.
    have either : ¬(d.isMissing || d.isMissing) = true := by rw [present]; decide
    exact if_neg either
  have real : Complex.isMissing ⟨d, .zero false⟩ = false := by
    have zero : (Binary64.zero false).isMissing = false := by decide
    rw [Complex.isMissing, present, Bool.false_or, zero]
  cases kind with
  | logical =>
    have zero : (Binary64.zero false).isNaN = false ∧ (Binary64.zero false).isZero := by decide
    simp only [asKind, whole, toLogical, zero, Bool.or_false, Bool.not_true]
  | raw => simp only [asKind, whole, toRaw, real, Bool.false_eq_true, if_false]
  | integer => simp only [asKind, whole, toInteger, real, Bool.false_eq_true, if_false]
  | double => simp only [asKind, whole, toDouble, real, Bool.false_eq_true, if_false]
  | complex => rfl
  | character => exact absurd rfl number

/-- Any number is read as the complex number that it becomes. -/
theorem asKind_toComplex (kind : ElementKind) (narrow : a.kind.join .complex = .complex)
    (number : kind ≠ .character) : asKind ⟨.complex, a.toComplex⟩ kind = a.asKind kind := by
  by_cases same : a.kind = .complex
  · obtain ⟨own, x⟩ := a
    subst same
    rfl
  have real : a.kind.join .double = .double := by
    revert narrow same
    cases a.kind <;> decide
  have complex : toComplex ⟨.double, a.toDouble⟩ = a.toComplex :=
    asKind_toDouble .complex real nofun
  rw [← complex, asKind_ofDouble kind _ number, asKind_toDouble kind real number]

variable {wide : ElementKind}

/-- A number that is widened is read as any kind of number as before. -/
theorem asKind_asKind (widens : a.kind.WidensTo wide) (number : kind ≠ .character) :
    asKind ⟨wide, a.asKind wide⟩ kind = a.asKind kind := by
  rcases widens.eq_or_integer with same | beyond
  · obtain ⟨own, x⟩ := a
    subst same
    rw [asKind_self]
  · have narrow := widens.join_eq
    cases wide with
    | logical => cases beyond
    | raw => cases beyond
    | integer => exact asKind_toInteger kind narrow number
    | double => exact asKind_toDouble kind narrow number
    | complex => exact asKind_toComplex kind narrow number
    | character => cases widens.2.1

/-- It is missing exactly if it was. -/
theorem isMissing_widened (widens : a.kind.WidensTo wide) :
    wide.isMissing (a.asKind wide) = a.isMissing := by
  rcases widens.eq_or_integer with same | beyond
  · obtain ⟨own, x⟩ := a
    subst same
    rw [asKind_self]
    rfl
  · exact isMissing_asKind widens.2.1 beyond widens.join_eq

/-! ### Through text -/

theorem toInteger_text (text : String) : toInteger ⟨.character, some text⟩ =
    ((parseNumber text).map Binary64.toInteger).getD missingInteger :=
  rfl

/-- An integer that is written is read as itself. -/
theorem toInteger_toText (i : Int32) :
    toInteger ⟨.character, toText ⟨.integer, i⟩⟩ = i := by
  by_cases absent : i = missingInteger
  · subst absent
    rfl
  have present : Atom.isMissing ⟨.integer, i⟩ = false := beq_eq_false_iff_ne.mpr absent
  have written : toText ⟨.integer, i⟩ = some (toString i.toInt) := by
    unfold toText
    rw [present]
    rfl
  have small : i.toInt.natAbs < 10 ^ 300 :=
    (natAbs_toInt_lt i).trans_le (two_pow_le_ten_pow (by decide))
  have whole : toDouble ⟨.integer, i⟩ = .ofInt i.toInt := if_neg absent
  rw [written, toInteger_text, parseNumber_toString small, ← whole]
  exact asKind_ofInteger .integer i nofun

/-- So is a truth value. -/
theorem toLogical_toText (l : Logical) :
    toLogical ⟨.character, toText ⟨.logical, l⟩⟩ = l := by
  cases l <;> decide

end Atom

/-! ### Coercion -/

namespace Scalar

/-- Coercion along the order of the kinds of numbers, and to texts: an element that is widened
comes back as it was, is coerced further as if it had not been, and is missing exactly if it was;
so is the text of any element; and the texts of integers and truth values are read as these. -/
theorem widening_embeds (s : Atom) :
    (∀ wide, s.kind.WidensTo wide →
      ((atom s).coerce (.atomic wide) >>= fun t => t.coerce (.atomic s.kind)) = pure (atom s) ∧
      (∀ wider, wide.WidensTo wider →
        ((atom s).coerce (.atomic wide) >>= fun t => t.coerce (.atomic wider)) =
          (atom s).coerce (.atomic wider)) ∧
      ((atom s).coerce (.atomic wide)).value.isMissing = s.isMissing) ∧
    ((atom s).coerce (.atomic .character)).value.isMissing = s.isMissing ∧
    (s.kind = .logical ∨ s.kind = .integer →
      ((atom s).coerce (.atomic .character) >>= fun t => t.coerce (.atomic s.kind)) =
        pure (atom s)) := by
  refine ⟨fun wide widens => ⟨?_, fun wider onward => ?_, ?_⟩, s.isMissing_toText, fun own => ?_⟩
  · have back := Atom.asKind_asKind widens (ElementKind.ne_character_of_isNumeric widens.1)
    rw [Atom.asKind_self] at back
    exact congrArg (fun x => pure (atom ⟨s.kind, x⟩)) back
  · have further := Atom.asKind_asKind widens (ElementKind.ne_character_of_isNumeric onward.2.1)
    exact congrArg (fun x => pure (atom ⟨wider, x⟩)) further
  · exact Atom.isMissing_widened widens
  -- There and back through text, by what the two kinds write.
  · obtain ⟨kind, x⟩ := s
    rcases own with same | same
    · obtain rfl : kind = .logical := same
      exact congrArg (fun l => pure (atom ⟨.logical, l⟩)) (Atom.toLogical_toText x)
    · obtain rfl : kind = .integer := same
      exact congrArg (fun i => pure (atom ⟨.integer, i⟩)) (Atom.toInteger_toText x)

/-- The least integer that is not missing comes back from the doubles and from its text, and
becomes the same complex number by way of the doubles as directly. -/
theorem widening_embeds_least_integer :
    ElementKind.integer.WidensTo .double ∧ ElementKind.double.WidensTo .complex ∧
      ((atom ⟨.integer, -2147483647⟩).coerce (.atomic .double) >>= fun t =>
          t.coerce (.atomic .integer)) = pure (atom ⟨.integer, -2147483647⟩) ∧
      ((atom ⟨.integer, -2147483647⟩).coerce (.atomic .double) >>= fun t =>
          t.coerce (.atomic .complex)) =
        (atom ⟨.integer, -2147483647⟩).coerce (.atomic .complex) ∧
      ((atom ⟨.integer, -2147483647⟩).coerce (.atomic .character) >>= fun t =>
          t.coerce (.atomic .integer)) = pure (atom ⟨.integer, -2147483647⟩) := by
  have embeds := widening_embeds ⟨.integer, -2147483647⟩
  obtain ⟨back, onward, -⟩ := embeds.1 .double (by decide)
  exact ⟨by decide, by decide, back, onward .complex (by decide), embeds.2.2 (.inr rfl)⟩

end Scalar

end Vectorial
