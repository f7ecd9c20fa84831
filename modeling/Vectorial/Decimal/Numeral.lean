import Vectorial.Decimal.Basic

/-!
# Reading decimal numerals

A numeral is an optional sign, digits with at most one point among or around them, and an
optional exponent: `12`, `-1.5e+3`, `.5`, `5.`. In place of the digits the words `inf` and
`infinity` name an infinity, in any mixture of cases.

## Main definitions

* `Decimal.readUnsigned`: digits, point and exponent as a decimal;
* `Binary64.ofNumeral`: the double a numeral denotes, nothing for any other text.
-/

namespace Vectorial

namespace Decimal

/-- The value of a run of digits. -/
def digitsValue (digits : List Char) : Nat :=
  digits.foldl (fun value digit => 10 * value + (digit.toNat - 48)) 0

/-- The value of an exponent after its `e`: an optional sign and at least one digit, to
the end of the text. -/
def readExponent (text : List Char) : Option Int :=
  let (negative, digits) := match text with
    | '-' :: rest => (true, rest)
    | '+' :: rest => (false, rest)
    | rest => (false, rest)
  if digits.isEmpty || !digits.all Char.isDigit then none
  else
    let size : Int := digitsValue digits
    some (if negative then -size else size)

/-- Digits with an optional point and an optional exponent, to the end of the text. At
least one digit stands before the exponent. -/
def readUnsigned (text : List Char) : Option Decimal :=
  let whole := text.takeWhile Char.isDigit
  let afterWhole := text.dropWhile Char.isDigit
  let (part, rest) := match afterWhole with
    | '.' :: more => (more.takeWhile Char.isDigit, more.dropWhile Char.isDigit)
    | _ => ([], afterWhole)
  if whole.isEmpty && part.isEmpty then none
  else
    let exponent := match rest with
      | [] => some 0
      | 'e' :: more => readExponent more
      | 'E' :: more => readExponent more
      | _ => none
    exponent.map fun e => ⟨digitsValue (whole ++ part), e - part.length⟩

end Decimal

namespace Binary64

/-- The number a signed numeral or a name of infinity denotes. -/
def ofNumeral (text : List Char) : Option Binary64 :=
  let (negative, body) := match text with
    | '-' :: rest => (true, rest)
    | '+' :: rest => (false, rest)
    | rest => (false, rest)
  let word := body.map Char.toLower
  if word = "inf".toList || word = "infinity".toList then some (infinity negative)
  else (Decimal.readUnsigned body).map (Decimal.toBinary64 negative)

end Binary64

end Vectorial
