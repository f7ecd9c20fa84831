import Mathlib.Data.List.TakeWhile
import Vectorial.NumberText
import Vectorial.Proofs.Binary64.Whole

/-!
# The text of a whole number

A whole number is written with its digits and nothing else, and after a sign if it is negative.
Such a text has no blanks to trim, is none of the words for exceptional numbers, and has neither
a point nor an exponent, so that it is read as the double nearest the number.

## Main results

* `digitCount_le_iff`: how many digits a number has;
* `Decimal.readUnsigned_digits`: digits alone are read as their value;
* `Binary64.ofNumeral_digits`: so are digits after a sign;
* `parseNumber_toString`: the text of a whole number denotes the nearest double.
-/

namespace Vectorial

/-! ### Digits -/

theorem digitCount_eq (n : Nat) : digitCount n = (Nat.toDigits 10 n).length := by
  induction n using digitCount.induct with
  | case1 n single =>
    rw [digitCount, if_pos single, Nat.toDigits_of_lt_base single]
    rfl
  | case2 n several ih =>
    have last : Nat.toDigits 10 n = Nat.toDigits 10 (n / 10) ++ [(n % 10).digitChar] :=
      Nat.toDigits_of_base_le (by decide) (Nat.not_lt.mp several)
    rw [digitCount, if_neg several, ih, last, List.length_append]
    rfl

/-- A number has at most as many digits as it is below a power of ten. -/
theorem digitCount_le_iff {n places : Nat} (pos : 0 < places) :
    digitCount n ≤ places ↔ n < 10 ^ places := by
  rw [digitCount_eq]
  exact Nat.length_toDigits_le_iff (by decide) pos

/-- The digits of a number have its value. -/
theorem digitsValue_toDigits (n : Nat) : Decimal.digitsValue (Nat.toDigits 10 n) = n :=
  Nat.ofDigitChars_ten_toDigits

theorem isDigit_toDigits {n : Nat} {c : Char} (member : c ∈ Nat.toDigits 10 n) : c.isDigit :=
  Nat.isDigit_of_mem_toDigits (by decide) (by decide) member

theorem toNat_of_isDigit {c : Char} (digit : c.isDigit) : 48 ≤ c.toNat ∧ c.toNat ≤ 57 := by
  simpa [Char.isDigit, UInt32.le_iff_toNat_le] using digit

/-- A digit is no character of any other meaning. -/
theorem ne_of_isDigit {c d : Char} (digit : c.isDigit) (other : d.isDigit = false) : c ≠ d := by
  rintro rfl
  rw [digit] at other
  cases other

theorem toLower_of_isDigit {c : Char} (digit : c.isDigit) : c.toLower = c := by
  have range := toNat_of_isDigit digit
  refine dif_neg fun upper => ?_
  have above : 65 ≤ c.toNat := UInt32.le_iff_toNat_le.mp upper.1
  omega

/-! ### Blanks -/

namespace Text

theorem isBlank_of_isDigit {c : Char} (digit : c.isDigit) : isBlank c = false := by
  have range := toNat_of_isDigit digit
  simp [isBlank, blankRanges]
  omega

/-- Without blanks there is nothing to trim. -/
theorem trim_eq_self {text : List Char} (solid : ∀ c ∈ text, isBlank c = false) :
    trim text = text := by
  have kept (part : List Char) (solid : ∀ c ∈ part, isBlank c = false) :
      part.dropWhile isBlank = part := by
    cases part with
    | nil => rfl
    | cons c rest => rw [List.dropWhile_cons, solid c List.mem_cons_self]; rfl
  rw [trim, kept text solid, kept _ fun c member => solid c (List.mem_reverse.mp member),
    List.reverse_reverse]

end Text

/-! ### Numerals -/

namespace Decimal

/-- Digits alone are read as their value. -/
theorem readUnsigned_digits {digits : List Char} (nonempty : digits ≠ [])
    (all : ∀ c ∈ digits, c.isDigit) : readUnsigned digits = some ⟨digitsValue digits, 0⟩ := by
  have whole : digits.takeWhile Char.isDigit = digits := List.takeWhile_eq_self_iff.mpr all
  have rest : digits.dropWhile Char.isDigit = [] := List.dropWhile_eq_nil_iff.mpr all
  simp [readUnsigned, whole, rest, nonempty]

/-- A whole number that is not past all doubles is rounded once. -/
theorem toBinary64_whole (negative : Bool) {n : Nat} (small : n < 10 ^ 300) :
    toBinary64 negative ⟨n, 0⟩ = .nearest negative (n * Binary64.unit) 1 := by
  have places : digitCount n ≤ 300 := (digitCount_le_iff (by decide)).mpr small
  rw [toBinary64]
  split
  · next nothing =>
    have zero : n = 0 := nothing
    rw [zero, Nat.zero_mul]
    cases negative <;> decide
  · have first : firstPlace ⟨n, 0⟩ = digitCount n - 1 := by
      rw [firstPlace, Int.zero_add]
    rw [first, if_neg (by omega), if_neg (by omega), if_pos (Int.le_refl 0)]
    exact congrArg (Binary64.nearest negative · 1) (congrArg (· * Binary64.unit) (Nat.mul_one n))

end Decimal

namespace Binary64

/-- A text that begins with a digit after an optional sign is read without the sign. -/
theorem ofNumeral_cons {first : Char} (digit : first.isDigit) (rest : List Char) :
    ofNumeral (first :: rest) =
        (Decimal.readUnsigned (first :: rest)).map (Decimal.toBinary64 false) ∧
      ofNumeral ('-' :: first :: rest) =
        (Decimal.readUnsigned (first :: rest)).map (Decimal.toBinary64 true) := by
  have no_minus : first ≠ '-' := ne_of_isDigit digit (by decide)
  have no_plus : first ≠ '+' := ne_of_isDigit digit (by decide)
  -- The words for infinity begin with a letter.
  have no_word : first.toLower ≠ 'i' := by
    rw [toLower_of_isDigit digit]
    exact ne_of_isDigit digit (by decide)
  constructor
  · simp [ofNumeral, no_minus, no_plus, no_word]
  · simp [ofNumeral, no_word]

/-- Digits after an optional sign are read as the number that they make. -/
theorem ofNumeral_digits {digits : List Char} (nonempty : digits ≠ [])
    (all : ∀ c ∈ digits, c.isDigit) :
    ofNumeral digits = some (Decimal.toBinary64 false ⟨Decimal.digitsValue digits, 0⟩) ∧
      ofNumeral ('-' :: digits) =
        some (Decimal.toBinary64 true ⟨Decimal.digitsValue digits, 0⟩) := by
  obtain ⟨first, rest, rfl⟩ := List.exists_cons_of_ne_nil nonempty
  obtain ⟨above, below⟩ := ofNumeral_cons (all first List.mem_cons_self) rest
  rw [above, below, Decimal.readUnsigned_digits nonempty all]
  exact ⟨rfl, rfl⟩

end Binary64

/-! ### Whole numbers -/

theorem toList_toString (n : Int) : (toString n).toList =
    if n < 0 then '-' :: Nat.toDigits 10 n.natAbs else Nat.toDigits 10 n.natAbs := by
  rw [Int.toString_eq_repr, Int.repr_eq_if]
  split
  · next positive =>
    rw [if_neg (Int.not_lt.mpr positive), Nat.toList_repr, show n.toNat = n.natAbs by omega]
  · next negative =>
    rw [if_pos (Int.not_le.mp negative), String.toList_append, Nat.toList_repr,
      show (-n).toNat = n.natAbs by omega]
    rfl

/-- The characters of a whole number. -/
theorem mem_toString {n : Int} {c : Char} (member : c ∈ (toString n).toList) :
    c = '-' ∨ c.isDigit := by
  rw [toList_toString] at member
  split at member
  · exact (List.mem_cons.mp member).imp_right isDigit_toDigits
  · exact .inr (isDigit_toDigits member)

/-- The text of a whole number denotes the nearest double, if it is not past all of them. -/
theorem parseNumber_toString {n : Int} (small : n.natAbs < 10 ^ 300) :
    parseNumber (toString n) = some (.ofInt n) := by
  have solid : ∀ c ∈ (toString n).toList, Text.isBlank c = false := by
    intro c member
    rcases mem_toString member with rfl | digit
    · decide
    · exact Text.isBlank_of_isDigit digit
  have no_word : (toString n).toList ≠ "NaN".toList := by
    intro same
    have member : 'N' ∈ (toString n).toList := by
      rw [same]
      decide
    rcases mem_toString member with minus | digit
    · exact absurd minus (by decide)
    · exact absurd digit (by decide)
  obtain ⟨above, below⟩ := Binary64.ofNumeral_digits Nat.toDigits_ne_nil
    fun c member => isDigit_toDigits (n := n.natAbs) member
  rw [digitsValue_toDigits, Decimal.toBinary64_whole _ small] at above below
  rw [parseNumber, Text.trim_eq_self solid, if_neg no_word, toList_toString, Binary64.ofInt]
  split
  · next negative => rw [below, decide_eq_true negative]
  · next positive => rw [above, decide_eq_false positive]

end Vectorial
