import Vectorial.Decimal.Rounded
import Vectorial.Decimal.Shortest
import Vectorial.Decimal.Notation
import Vectorial.Decimal.Numeral
import Vectorial.Text.Blank

/-!
# The text of a number

A number is written with at most fifteen significant digits, in positional notation
unless scientific notation is strictly shorter. Reading accepts any numeral between
blanks, and the names of the exceptional numbers.

## Main definitions

* `formatDouble`: the text of a double;
* `parseNumber`: the double a text denotes, if it denotes one that is present.
-/

namespace Vectorial

open Binary64

/-- The digits of a finite nonzero double, the shorter notation winning and positional
notation winning a draw. -/
def formatMagnitude (x : Binary64) : List Char :=
  let decimal := x.shortest
  let fixed := decimal.positional
  let scientific := decimal.scientific
  if fixed.length ≤ scientific.length then fixed else scientific

/-- The text of a double. It is first rounded to fifteen significant digits; near the top
of the range that can pass the largest finite double, and both zeros are written `0`. -/
def formatDouble (x : Binary64) : String :=
  if x.isMissing then "NA"
  else if x.isNaN then "NaN"
  else if x.isInfinite then (if x.negative then "-Inf" else "Inf")
  else if x.isZero then "0"
  else
    let rounded := (x.significant 15).toBinary64 x.negative
    if rounded.isInfinite then (if x.negative then "-inf" else "inf")
    else
      let digits := formatMagnitude rounded
      String.ofList (if x.negative then '-' :: digits else digits)

/-- The number a text denotes. `NA` and the empty text denote none; `NaN` is spelled so
and in no other way. -/
def parseNumber (text : String) : Option Binary64 :=
  let body := Text.trim text.toList
  if body = "NaN".toList then some nan else ofNumeral body

end Vectorial
