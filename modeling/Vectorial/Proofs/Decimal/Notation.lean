import Vectorial.Proofs.Decimal.Value

/-!
# Reading what is written

Both notations of a decimal are numerals, and reading either of them gives the decimal back, or one
of the same value where positional notation has filled up the places before the point with zeros.
What is written begins with a digit, so that it is none of the words for exceptional numbers.

## Main definitions

* `Decimal.IsNotation`: a text is the decimal in one of the notations;
* `Decimal.IsExponent`: what follows the digits is an exponent, or nothing.

## Main results

* `Decimal.readUnsigned_pointed`, `Decimal.readUnsigned_bare`: the numerals that are written;
* `Decimal.IsNotation.readUnsigned`: what is written is read as a decimal of the same value;
* `Decimal.IsNotation.ofNumeral`: and with a sign as the double nearest to it.
-/

namespace Vectorial

namespace Decimal

/-! ### Digits -/

theorem digitsValue_zeros_append (count : Nat) (digits : List Char) :
    digitsValue (List.replicate count '0' ++ digits) = digitsValue digits := by
  induction count with
  | zero => rfl
  | succ count ih => exact ih

theorem digitsValue_append_zeros (digits : List Char) (count : Nat) :
    digitsValue (digits ++ List.replicate count '0') = digitsValue digits * 10 ^ count := by
  induction count with
  | zero => rw [List.replicate_zero, List.append_nil, Nat.pow_zero, Nat.mul_one]
  | succ count ih =>
    rw [List.replicate_succ', ← List.append_assoc, digitsValue, List.foldl_append, ← digitsValue,
      ih, Nat.pow_succ]
    simp only [List.foldl_cons, List.foldl_nil]
    rw [show '0'.toNat - 48 = 0 from rfl, Nat.add_zero, Nat.mul_comm 10, Nat.mul_assoc]

theorem isDigit_digits {d : Decimal} {c : Char} (member : c ∈ d.digits) : c.isDigit :=
  isDigit_toDigits member

theorem digits_ne_nil (d : Decimal) : d.digits ≠ [] :=
  Nat.toDigits_ne_nil

theorem digitsValue_digits (d : Decimal) : digitsValue d.digits = d.significand :=
  digitsValue_toDigits d.significand

/-! ### Numerals -/

/-- What follows the digits of a numeral is an exponent, or nothing. -/
inductive IsExponent : List Char → Int → Prop
  | absent : IsExponent [] 0
  | written {text : List Char} {e : Int} (read : readExponent text = some e) :
      IsExponent ('e' :: text) e

section Numerals

variable {whole part tail : List Char} {e : Int}

theorem takeWhile_digits (all : ∀ c ∈ whole, c.isDigit)
    (stops : ∀ c ∈ tail.head?, c.isDigit = false) :
    (whole ++ tail).takeWhile Char.isDigit = whole ∧
      (whole ++ tail).dropWhile Char.isDigit = tail := by
  have none_left : tail.takeWhile Char.isDigit = [] ∧ tail.dropWhile Char.isDigit = tail := by
    cases tail with
    | nil => exact ⟨rfl, rfl⟩
    | cons c rest =>
      have other : c.isDigit = false := stops c rfl
      rw [List.takeWhile_cons, List.dropWhile_cons, other]
      exact ⟨rfl, rfl⟩
  rw [List.takeWhile_append_of_pos all, List.dropWhile_append_of_pos all, none_left.1, none_left.2,
    List.append_nil]
  exact ⟨rfl, rfl⟩

theorem IsExponent.stops (exponent : IsExponent tail e) : ∀ c ∈ tail.head?, c.isDigit = false := by
  cases exponent with
  | absent => exact nofun
  | written read =>
    intro c first
    obtain rfl : 'e' = c := Option.some.inj first
    decide

/-- Digits without a point. -/
theorem readUnsigned_bare (nonempty : whole ≠ []) (all : ∀ c ∈ whole, c.isDigit)
    (exponent : IsExponent tail e) :
    readUnsigned (whole ++ tail) = some ⟨digitsValue whole, e⟩ := by
  obtain ⟨taken, dropped⟩ := takeWhile_digits all exponent.stops
  cases exponent with
  | absent => rw [List.append_nil, readUnsigned_digits nonempty all]
  | written read => simp [readUnsigned, taken, dropped, nonempty, read]

/-- Digits before and after a point, of which the first are not missing. -/
theorem readUnsigned_pointed (nonempty : whole ≠ []) (all : ∀ c ∈ whole, c.isDigit)
    (all' : ∀ c ∈ part, c.isDigit) (exponent : IsExponent tail e) :
    readUnsigned (whole ++ '.' :: (part ++ tail)) =
      some ⟨digitsValue (whole ++ part), e - part.length⟩ := by
  have point : ∀ c ∈ ('.' :: (part ++ tail)).head?, c.isDigit = false := by
    intro c first
    obtain rfl : '.' = c := Option.some.inj first
    decide
  obtain ⟨taken, dropped⟩ := takeWhile_digits all point
  obtain ⟨taken', dropped'⟩ := takeWhile_digits all' exponent.stops
  cases exponent with
  | absent =>
    rw [List.append_nil] at taken' dropped' taken dropped ⊢
    simp [readUnsigned, taken, dropped, taken', dropped', nonempty]
  | written read =>
    simp [readUnsigned, taken, dropped, taken', dropped', nonempty, read]

end Numerals

/-! ### Notations -/

/-- The text is the decimal in one of the two notations. -/
inductive IsNotation (d : Decimal) : List Char → Prop
  | positional : IsNotation d d.positional
  | scientific : IsNotation d d.scientific

variable {d : Decimal}

theorem mk_eq {significand : Nat} {place : Int} (digits : significand = d.significand)
    (last : place = d.place) : (⟨significand, place⟩ : Decimal) = d := by
  rw [digits, last]

theorem isDigit_zeros (count : Nat) : ∀ c ∈ List.replicate count '0', c.isDigit := by
  intro c member
  rw [(List.mem_replicate.mp member).2]
  rfl

/-- The zeros before the first digit stand for a place, and those after the last for a power. -/
theorem readUnsigned_positional (d : Decimal) :
    ∃ d', readUnsigned d.positional = some d' ∧ d'.value = d.value := by
  have digits := digitsValue_digits d
  rw [positional]
  split
  -- All digits are behind the point, with zeros before them.
  · next before =>
    have part (c : Char)
        (member : c ∈ List.replicate (-(d.digits.length + d.place)).toNat '0' ++ d.digits) :
        c.isDigit :=
      (List.mem_append.mp member).elim (isDigit_zeros _ c) isDigit_digits
    have read := readUnsigned_pointed (List.cons_ne_nil _ _) (isDigit_zeros 1) part .absent
    rw [List.append_nil] at read
    refine ⟨d, read.trans (congrArg some (mk_eq ?_ ?_)), rfl⟩
    · exact (digitsValue_zeros_append 1 _).trans ((digitsValue_zeros_append _ _).trans digits)
    · rw [List.length_append, List.length_replicate]
      omega
  split
  -- No digit is behind the point, and zeros may follow.
  · next up =>
    have whole (c : Char) (member : c ∈ d.digits ++ List.replicate d.place.toNat '0') :
        c.isDigit :=
      (List.mem_append.mp member).elim isDigit_digits (isDigit_zeros _ c)
    refine ⟨_, readUnsigned_digits (List.append_ne_nil_of_left_ne_nil d.digits_ne_nil _) whole, ?_⟩
    rw [digitsValue_append_zeros, digits, value, value, zpow_zero, mul_one]
    push_cast
    rw [← zpow_natCast, Int.toNat_of_nonneg up]
  -- The point is among the digits.
  · next before up =>
    have whole (c : Char) (member : c ∈ d.digits.take (d.digits.length + d.place).toNat) :
        c.isDigit :=
      isDigit_digits (List.mem_of_mem_take member)
    have part (c : Char) (member : c ∈ d.digits.drop (d.digits.length + d.place).toNat) :
        c.isDigit :=
      isDigit_digits (List.mem_of_mem_drop member)
    have nonempty : d.digits.take (d.digits.length + d.place).toNat ≠ [] := by
      rw [Ne, List.take_eq_nil_iff, not_or]
      exact ⟨by omega, d.digits_ne_nil⟩
    have read := readUnsigned_pointed nonempty whole part .absent
    rw [List.append_nil, List.take_append_drop, digits, List.length_drop] at read
    exact ⟨d, read.trans (congrArg some (mk_eq rfl (by omega))), rfl⟩

/-- An exponent is written with a sign and at least two digits. -/
theorem readExponent_written (e : Int) :
    readExponent ((if e < 0 then '-' else '+') ::
      if (Nat.toDigits 10 e.natAbs).length < 2 then '0' :: Nat.toDigits 10 e.natAbs
      else Nat.toDigits 10 e.natAbs) = some e := by
  -- With or without the zero in front, the digits have the same value.
  have padded : ∃ digits, (if (Nat.toDigits 10 e.natAbs).length < 2 then
      '0' :: Nat.toDigits 10 e.natAbs else Nat.toDigits 10 e.natAbs) = digits ∧ digits ≠ [] ∧
        digits.all Char.isDigit ∧ digitsValue digits = e.natAbs := by
    have all : (Nat.toDigits 10 e.natAbs).all Char.isDigit :=
      List.all_eq_true.mpr fun c member => isDigit_toDigits member
    split
    · exact ⟨_, rfl, List.cons_ne_nil _ _, all,
        (digitsValue_zeros_append 1 _).trans (digitsValue_toDigits _)⟩
    · exact ⟨_, rfl, Nat.toDigits_ne_nil, all, digitsValue_toDigits _⟩
  obtain ⟨digits, eq, nonempty, all, value_eq⟩ := padded
  rw [eq]
  split
  · next below => simp [readExponent, nonempty, all, value_eq, abs_of_neg below]
  · next above => simp [readExponent, nonempty, all, value_eq, abs_of_nonneg (Int.not_lt.mp above)]

theorem readUnsigned_scientific (d : Decimal) : readUnsigned d.scientific = some d := by
  have exponent : IsExponent _ (d.place + d.digits.length - 1) := .written (readExponent_written _)
  have digits := digitsValue_digits d
  have nonempty := d.digits_ne_nil
  have all (c : Char) (member : c ∈ d.digits) : c.isDigit := isDigit_digits member
  rw [scientific]
  generalize d.digits = text at *
  -- A single digit is written without a point.
  match text with
  | [] => exact absurd rfl nonempty
  | [digit] =>
    refine (readUnsigned_bare (List.cons_ne_nil _ _) all exponent).trans
      (congrArg some (mk_eq digits ?_))
    rw [List.length_singleton]
    omega
  | digit :: second :: rest =>
    have whole (c : Char) (member : c ∈ [digit]) : c.isDigit :=
      all c (List.mem_singleton.mp member ▸ List.mem_cons_self)
    have part (c : Char) (member : c ∈ second :: rest) : c.isDigit :=
      all c (List.mem_cons_of_mem _ member)
    refine (readUnsigned_pointed (List.cons_ne_nil _ _) whole part exponent).trans
      (congrArg some (mk_eq digits ?_))
    rw [List.length_cons, List.length_cons]
    omega

/-! ### Characters -/

theorem mem_positional {c : Char} (member : c ∈ d.positional) : c.isDigit ∨ c = '.' := by
  rw [positional] at member
  have digits (member : c ∈ d.digits) : c.isDigit ∨ c = '.' := .inl (isDigit_digits member)
  split at member
  · simp only [List.cons_append, List.mem_cons, List.mem_append] at member
    rcases member with rfl | rfl | zeros | rest
    · exact .inl rfl
    · exact .inr rfl
    · exact .inl (isDigit_zeros _ c zeros)
    · exact digits rest
  split at member
  · exact (List.mem_append.mp member).elim digits fun zeros => .inl (isDigit_zeros _ c zeros)
  · simp only [List.mem_append, List.mem_cons] at member
    rcases member with before | rfl | after
    · exact digits (List.mem_of_mem_take before)
    · exact .inr rfl
    · exact digits (List.mem_of_mem_drop after)

theorem mem_scientific {c : Char} (member : c ∈ d.scientific) :
    c.isDigit ∨ c ∈ ['.', 'e', '-', '+'] := by
  have exponent (member : c ∈ Nat.toDigits 10 (d.place + d.digits.length - 1).natAbs) :
      c.isDigit ∨ c ∈ ['.', 'e', '-', '+'] := .inl (isDigit_toDigits member)
  have digits (member : c ∈ d.digits) : c.isDigit ∨ c ∈ ['.', 'e', '-', '+'] :=
    .inl (isDigit_digits member)
  rw [scientific] at member
  rcases List.mem_append.mp member with mantissa | tail
  · generalize d.digits = text at *
    match text with
    | [] => cases mantissa
    | [digit] => exact digits mantissa
    | digit :: second :: rest =>
      rcases List.mem_cons.mp mantissa with rfl | pointed
      · exact digits List.mem_cons_self
      rcases List.mem_cons.mp pointed with rfl | more
      · exact .inr (by decide)
      · exact digits (List.mem_cons_of_mem _ more)
  · simp only [List.mem_cons] at tail
    rcases tail with rfl | sign | padded
    · exact .inr (by decide)
    · split at sign <;> subst sign <;> exact .inr (by decide)
    · split at padded
      · rcases List.mem_cons.mp padded with rfl | size
        · exact .inl rfl
        · exact exponent size
      · exact exponent padded

namespace IsNotation

variable {text : List Char}

theorem mem {c : Char} (written : d.IsNotation text) (member : c ∈ text) :
    c.isDigit ∨ c ∈ ['.', 'e', '-', '+'] := by
  cases written with
  | positional =>
    refine (mem_positional member).imp_right fun point => ?_
    rw [point]
    decide
  | scientific => exact mem_scientific member

/-- What is written begins with a digit. -/
theorem exists_first (written : d.IsNotation text) :
    ∃ first rest, text = first :: rest ∧ first.isDigit := by
  obtain ⟨first, rest, eq⟩ := List.exists_cons_of_ne_nil d.digits_ne_nil
  have digit : first.isDigit := isDigit_digits (eq ▸ List.mem_cons_self)
  cases written with
  | positional =>
    rw [Decimal.positional, eq]
    split
    · exact ⟨'0', _, rfl, rfl⟩
    split
    · exact ⟨first, _, rfl, digit⟩
    · next before up =>
      -- At least one digit stands before the point.
      obtain ⟨count, several⟩ := Nat.exists_eq_succ_of_ne_zero
        (show ((first :: rest).length + d.place).toNat ≠ 0 by omega)
      rw [several]
      exact ⟨first, _, rfl, digit⟩
  | scientific =>
    rw [Decimal.scientific, eq]
    cases rest with
    | nil => exact ⟨first, _, rfl, digit⟩
    | cons second rest => exact ⟨first, _, rfl, digit⟩

/-- What is written is read as a decimal of the same value. -/
theorem readUnsigned (written : d.IsNotation text) :
    ∃ d', Decimal.readUnsigned text = some d' ∧ d'.value = d.value := by
  cases written with
  | positional => exact readUnsigned_positional d
  | scientific => exact ⟨d, readUnsigned_scientific d, rfl⟩

/-- With a sign it is read as the double that is nearest the decimal. -/
theorem ofNumeral (written : d.IsNotation text) (negative : Bool) :
    Binary64.ofNumeral (if negative then '-' :: text else text) = some (d.toBinary64 negative) := by
  obtain ⟨first, rest, rfl, digit⟩ := written.exists_first
  obtain ⟨d', read, same⟩ := written.readUnsigned
  obtain ⟨above, below⟩ := Binary64.ofNumeral_cons digit rest
  rw [read, Option.map_some, toBinary64_congr _ same] at above below
  cases negative with
  | false => exact above
  | true => exact below

end IsNotation

end Decimal

end Vectorial
