import Vectorial.Proofs.Decimal.Notation
import Vectorial.Proofs.Decimal.Significant

/-!
# Writing a number and reading it back

A finite double is written as the shortest decimal of the double that is nearest its decimal of
fifteen digits. Reading the text gives that double, and as it has the same fifteen digits it is
written in the same way. So writing and reading settle after one step. They do not at the end of the
finite range, where the decimal of fifteen digits is read as an infinity: its name is spelled in
another way than that of an infinity.

## Main definitions

* `IsDecimalNumeral`: a text is a decimal in one of the two notations, after an optional sign;
* `Binary64.ReadsBackAs`: reading the text of a double gives another one that resembles it.

## Main results

* `formatDouble_of_isFinite`: the text of a finite double;
* `parseNumber_formatDouble`: reading the text of a double.
-/

namespace Vectorial

open Binary64

/-! ### Texts -/

/-- The text is a decimal in positional or scientific notation, after a minus sign or none. -/
def IsDecimalNumeral (text : String) : Prop :=
  ∃ (negative : Bool) (d : Decimal) (body : List Char), d.IsNotation body ∧
    text = String.ofList (if negative then '-' :: body else body)

section Texts

variable {d : Decimal} {body : List Char} {c : Char}

theorem mem_signed (written : d.IsNotation body) {negative : Bool}
    (member : c ∈ if negative then '-' :: body else body) :
    c.isDigit ∨ c ∈ ['.', 'e', '-', '+'] := by
  cases negative with
  | false => exact written.mem member
  | true =>
    rcases List.mem_cons.mp member with rfl | inside
    · exact .inr (by decide)
    · exact written.mem inside

/-- A numeral has no letter but that of the exponent. -/
theorem notMem_signed (written : d.IsNotation body) {negative : Bool} (no_digit : c.isDigit = false)
    (no_other : c ∉ ['.', 'e', '-', '+']) : c ∉ if negative then '-' :: body else body := by
  intro member
  rcases mem_signed written member with digit | other
  · rw [digit] at no_digit
    cases no_digit
  · exact no_other other

/-- A numeral is read as the double that is nearest the decimal. -/
theorem parseNumber_signed (written : d.IsNotation body) (negative : Bool) :
    parseNumber (String.ofList (if negative then '-' :: body else body)) =
      some (d.toBinary64 negative) := by
  have solid (c : Char) (member : c ∈ if negative then '-' :: body else body) :
      Text.isBlank c = false := by
    rcases mem_signed written member with digit | other
    · exact Text.isBlank_of_isDigit digit
    · simp only [List.mem_cons, List.not_mem_nil, or_false] at other
      rcases other with rfl | rfl | rfl | rfl <;> decide
  have no_word : (if negative then '-' :: body else body) ≠ "NaN".toList := by
    intro same
    have capital : 'N' ∉ if negative then '-' :: body else body :=
      notMem_signed written (by decide) (by decide)
    rw [same] at capital
    exact capital (by decide)
  rw [parseNumber, String.toList_ofList, Text.trim_eq_self solid, if_neg no_word,
    written.ofNumeral negative]

/-- A numeral is no word. -/
theorem IsDecimalNumeral.ne_word {text : String} (numeral : IsDecimalNumeral text) :
    text ∉ ["Inf", "-Inf", "NaN", "inf", "-inf"] := by
  obtain ⟨negative, d, body, written, rfl⟩ := numeral
  intro word
  have lower : 'n' ∉ if negative then '-' :: body else body :=
    notMem_signed written (by decide) (by decide)
  have upper : 'N' ∉ if negative then '-' :: body else body :=
    notMem_signed written (by decide) (by decide)
  rw [← String.toList_ofList (l := if negative then '-' :: body else body)] at lower upper
  generalize String.ofList (if negative then '-' :: body else body) = text at *
  simp only [List.mem_cons, List.not_mem_nil, or_false] at word
  rcases word with rfl | rfl | rfl | rfl | rfl
  · exact lower (by decide)
  · exact lower (by decide)
  · exact upper (by decide)
  · exact lower (by decide)
  · exact lower (by decide)

end Texts

/-! ### The text of a finite double -/

namespace Binary64

variable {x r : Binary64}

theorem isNotation_formatMagnitude (x : Binary64) : x.shortest.IsNotation (formatMagnitude x) := by
  rw [formatMagnitude]
  split
  · exact .positional
  · exact .scientific

theorem isMissing_of_isFinite (finite : x.isFinite) : x.isMissing = false := by
  refine Bool.eq_false_iff.mpr fun absent => ?_
  have number := (ordinary_of_isFinite finite).1
  rw [isNaN_of_isMissing absent] at number
  cases number

/-- A finite double is written as the double that is nearest its decimal of fifteen digits, if that
is finite. -/
theorem formatDouble_of_isFinite (finite : x.isFinite) (nonzero : x.isZero = false)
    (rounded : (x.significant 15).toBinary64 x.negative = r) (bounded : r.isFinite) :
    formatDouble x =
      String.ofList (if x.negative then '-' :: formatMagnitude r else formatMagnitude r) := by
  obtain ⟨number, ordinary⟩ := ordinary_of_isFinite finite
  rw [formatDouble, isMissing_of_isFinite finite, number, ordinary, nonzero]
  simp only [Bool.false_eq_true, if_false, rounded, (ordinary_of_isFinite bounded).2]

/-- Reading the text of a double gives another one: it is finite, infinite or no number exactly as
the first is, has its sign unless it is zero or no number, and is written in the same way. -/
structure ReadsBackAs (x r : Binary64) : Prop where
  parsed : parseNumber (formatDouble x) = some r
  finite_eq : r.isFinite = x.isFinite
  infinite_eq : r.isInfinite = x.isInfinite
  nan_eq : r.isNaN = x.isNaN
  sign_eq : r.isZero = false → r.isNaN = false → r.negative = x.negative
  text_eq : formatDouble r = formatDouble x

theorem readsBackAs_of_isFinite (finite : x.isFinite) (nonzero : x.isZero = false)
    (below : x.magnitude < fifteenLimit) :
    IsDecimalNumeral (formatDouble x) ∧
      x.ReadsBackAs ((x.significant 15).toBinary64 x.negative) := by
  have bounded := isFinite_rounded nonzero below x.negative
  have sign := Decimal.negative_toBinary64 x.negative (x.significant 15)
  have again := toBinary64_significant finite nonzero bounded
  have rounded_nonzero := isZero_rounded finite nonzero x.negative
  have text := formatDouble_of_isFinite finite nonzero rfl bounded
  -- The text has the digits of the rounded double, which is all that matters of it from here on.
  generalize (x.significant 15).toBinary64 x.negative = r at *
  have written := r.isNotation_formatMagnitude
  obtain ⟨number, ordinary⟩ := ordinary_of_isFinite finite
  obtain ⟨number', ordinary'⟩ := ordinary_of_isFinite bounded
  refine ⟨⟨x.negative, _, _, written, text⟩, ?_⟩
  refine
    { parsed := ?_
      finite_eq := bounded.trans finite.symm
      infinite_eq := ordinary'.trans ordinary.symm
      nan_eq := number'.trans number.symm
      sign_eq := fun _ _ => sign
      text_eq := ?_ }
  · rw [text, parseNumber_signed written, ← sign, toBinary64_shortest bounded rounded_nonzero]
  · rw [text, formatDouble_of_isFinite bounded rounded_nonzero (sign ▸ again) bounded, sign]

/-! ### All doubles -/

theorem eq_zero_of_isZero (null : x.isZero) : x = .zero x.negative := by
  have same : x.magnitude = (Binary64.zero x.negative).magnitude := by
    rw [magnitude_zero]
    exact beq_iff_eq.mp null
  obtain ⟨exponents, fractions⟩ := eq_of_magnitude same
  have sign : (Binary64.zero x.negative).negative = x.negative := by
    cases x.negative <;> decide
  exact eq_of_fields sign.symm exponents fractions

theorem eq_infinity_of_isInfinite (infinite : x.isInfinite) : x = .infinity x.negative := by
  rw [isInfinite, Bool.and_eq_true, beq_iff_eq, beq_iff_eq] at infinite
  have sign : (infinity x.negative).negative = x.negative := by
    cases x.negative <;> decide
  exact eq_of_fields sign.symm (infinite.1.trans (exponent_infinity _).symm)
    (infinite.2.trans (fraction_infinity _).symm)

theorem readsBackAs_of_isZero (null : x.isZero) :
    formatDouble x = "0" ∧ x.ReadsBackAs (.zero false) := by
  rw [eq_zero_of_isZero null]
  cases x.negative <;>
    exact ⟨by decide, by decide, by decide, by decide, by decide, by decide, by decide⟩

theorem readsBackAs_of_isInfinite (infinite : x.isInfinite) :
    formatDouble x ∈ ["Inf", "-Inf"] ∧ x.ReadsBackAs (.infinity x.negative) := by
  rw [eq_infinity_of_isInfinite infinite]
  cases x.negative <;>
    exact ⟨by decide, by decide, by decide, by decide, by decide, fun _ _ => by decide, by decide⟩

theorem readsBackAs_of_isNaN (nothing : x.isNaN) (present : x.isMissing = false) :
    formatDouble x = "NaN" ∧ x.ReadsBackAs nan := by
  have text : formatDouble x = "NaN" := by rw [formatDouble, present, nothing]; rfl
  have bits : x.isFinite = false ∧ x.isInfinite = false := by
    rw [isNaN, Bool.and_eq_true, beq_iff_eq] at nothing
    have payload : (x.fraction == 0) = false := beq_eq_false_iff_ne.mpr (bne_iff_ne.mp nothing.2)
    rw [isFinite, isInfinite, nothing.1, payload]
    exact ⟨rfl, rfl⟩
  refine ⟨text, ?parsed, ?finite, ?infinite, ?nan, ?sign, ?text⟩
  case parsed =>
    rw [text]
    decide
  case finite =>
    rw [bits.1]
    decide
  case infinite =>
    rw [bits.2]
    decide
  case nan =>
    rw [nothing]
    decide
  case sign =>
    intro _ number
    cases number
  case text =>
    rw [text]
    decide

/-- The end of the finite range is written with a name, though not with one of an infinity. -/
theorem formatDouble_past_limit (finite : x.isFinite) (above : fifteenLimit ≤ x.magnitude) :
    formatDouble x = (if x.negative then "-inf" else "inf") ∧
      parseNumber (formatDouble x) = some (.infinity x.negative) := by
  have nonzero : x.isZero = false := by
    have pos : 0 < fifteenLimit := by decide +kernel
    exact beq_eq_false_iff_ne.mpr (by omega)
  have rounded := rounded_eq_infinity finite nonzero above x.negative
  have infinite : (infinity x.negative).isInfinite := by cases x.negative <;> decide
  obtain ⟨number, ordinary⟩ := ordinary_of_isFinite finite
  have text : formatDouble x = if x.negative then "-inf" else "inf" := by
    rw [formatDouble, isMissing_of_isFinite finite, number, ordinary, nonzero]
    simp only [Bool.false_eq_true, if_false, rounded, infinite, if_true]
  refine ⟨text, ?_⟩
  rw [text]
  cases x.negative <;> decide

end Binary64

/-- A finite double below the limit is written as a numeral. -/
theorem readsBack_of_lt {x : Binary64} (finite : x.isFinite) (below : x.magnitude < fifteenLimit) :
    IsDecimalNumeral (formatDouble x) ∧ ∃ r, x.ReadsBackAs r := by
  cases null : x.isZero with
  | true =>
    obtain ⟨text, reads⟩ := readsBackAs_of_isZero null
    have digit : Decimal.IsNotation ⟨0, 0⟩ ['0'] := .positional
    exact ⟨⟨false, _, _, digit, text⟩, _, reads⟩
  | false =>
    obtain ⟨numeral, reads⟩ := readsBackAs_of_isFinite finite null below
    exact ⟨numeral, _, reads⟩

/-- A double that is not finite is written with its name. -/
theorem readsBack_of_not_isFinite {x : Binary64} (present : x.isMissing = false)
    (other : x.isFinite = false) :
    formatDouble x ∈ ["Inf", "-Inf", "NaN"] ∧ ∃ r, x.ReadsBackAs r := by
  cases number : x.isNaN with
  | true =>
    obtain ⟨text, reads⟩ := readsBackAs_of_isNaN number present
    exact ⟨by rw [text]; decide, _, reads⟩
  | false =>
    have infinite : x.isInfinite := by
      refine Bool.not_eq_false _ ▸ fun bounded => ?_
      rw [isFinite_of_number number bounded] at other
      cases other
    obtain ⟨text, reads⟩ := readsBackAs_of_isInfinite infinite
    exact ⟨List.mem_append_left ["NaN"] text, _, reads⟩

/-- For all doubles that are not missing: reading the text of one gives a double that is finite,
infinite or no number exactly as it is, has its sign unless it is zero or no number, and is written
in the same way. So the text of a finite double is a numeral, and the names of exceptional numbers
are those of infinite doubles and those that are no number. This fails only for finite doubles of
the value 1.797693134862315e308 or more: they are written with a name and read as an infinity, which
has another name. -/
theorem parseNumber_formatDouble (x : Binary64) (present : x.isMissing = false) :
    (x.isFinite = false ∨ x.magnitude < fifteenLimit → ∃ r, x.ReadsBackAs r) ∧
    (x.isFinite → x.magnitude < fifteenLimit → IsDecimalNumeral (formatDouble x)) ∧
    (formatDouble x ∈ ["Inf", "-Inf", "NaN"] ↔ x.isFinite = false) ∧
    (x.isFinite → fifteenLimit ≤ x.magnitude →
      formatDouble x = (if x.negative then "-inf" else "inf") ∧
        parseNumber (formatDouble x) = some (.infinity x.negative) ∧
        formatDouble (.infinity x.negative) ≠ formatDouble x) := by
  refine ⟨?_, fun finite below => (readsBack_of_lt finite below).1, ?_, fun finite above => ?_⟩
  · intro within
    cases finite : x.isFinite with
    | true => exact (readsBack_of_lt finite (within.resolve_left (by rw [finite]; nofun))).2
    | false => exact (readsBack_of_not_isFinite present finite).2
  -- A finite double below the limit is written as a numeral, and above it with a small letter.
  · refine ⟨fun named => ?_, fun other => (readsBack_of_not_isFinite present other).1⟩
    refine Bool.eq_false_iff.mpr fun finite => ?_
    rcases Nat.lt_or_ge x.magnitude fifteenLimit with below | above
    · exact (readsBack_of_lt finite below).1.ne_word (List.mem_append_left ["inf", "-inf"] named)
    · rw [(formatDouble_past_limit finite above).1] at named
      revert named
      cases x.negative <;> decide
  · obtain ⟨text, parsed⟩ := formatDouble_past_limit finite above
    refine ⟨text, parsed, ?_⟩
    rw [text]
    cases x.negative <;> decide

/-- One third is read back as another double, which is written in the same way; and the largest
finite double is read back as an infinity. -/
theorem parseNumber_formatDouble_third :
    let third : Binary64 := ⟨0x3FD5555555555555⟩
    formatDouble third = "0.333333333333333" ∧ IsDecimalNumeral (formatDouble third) ∧
      (∃ r, third.ReadsBackAs r ∧ r ≠ third) ∧
      parseNumber (formatDouble largest) = some (.infinity false) := by
  intro third
  have text : formatDouble third = "0.333333333333333" := by decide +kernel
  have below : third.magnitude < fifteenLimit := by decide +kernel
  have above : fifteenLimit ≤ largest.magnitude := by decide +kernel
  obtain ⟨reads, numeral, -, -⟩ := parseNumber_formatDouble third (by decide)
  obtain ⟨-, -, -, past⟩ := parseNumber_formatDouble largest (by decide)
  obtain ⟨r, reads⟩ := reads (.inr below)
  refine ⟨text, numeral (by decide) below, ⟨r, reads, ?_⟩, (past (by decide) above).2.1⟩
  have other : parseNumber "0.333333333333333" ≠ some third := by decide +kernel
  rintro rfl
  exact other (text ▸ reads.parsed)

/-- The largest finite double does not read back: its text is no numeral, and it is read as an
infinity, which is written with another name. -/
theorem not_readsBack_largest :
    largest.isMissing = false ∧ largest.isFinite ∧ formatDouble largest = "inf" ∧
      ¬ IsDecimalNumeral (formatDouble largest) ∧
      parseNumber (formatDouble largest) = some (.infinity false) ∧
      formatDouble (.infinity false) = "Inf" ∧ ¬ ∃ r, largest.ReadsBackAs r := by
  have above : fifteenLimit ≤ largest.magnitude := by decide +kernel
  have finite : largest.isFinite := by decide
  obtain ⟨text, parsed⟩ := formatDouble_past_limit finite above
  have positive : largest.negative = false := by decide
  rw [positive] at text parsed
  refine ⟨by decide, finite, text, ?_, parsed, by decide, ?_⟩
  · exact fun numeral => numeral.ne_word (by rw [text]; decide)
  · rintro ⟨r, reads⟩
    have same : r = .infinity false := Option.some.inj (reads.parsed.symm.trans parsed)
    have kept := reads.finite_eq
    rw [same, finite] at kept
    revert kept
    decide

end Vectorial
