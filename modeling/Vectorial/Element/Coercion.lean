import Vectorial.Element.Basic
import Vectorial.NumberText

/-!
# Coercion of elements

One function per target kind says what an element of any kind becomes. A missing element
becomes the missing element of the target, and so does an element that the target cannot
express: a fraction is cut off, but a number out of range, a text that is no number and a
NaN that is to be an integer are missing.

## Main definitions

* `Atom.toLogical`, `Atom.toRaw`, `Atom.toInteger`, `Atom.toDouble`, `Atom.toComplex`,
  `Atom.toText`: the element as an element of one kind;
* `Atom.asKind`: the same for a kind that is not known beforehand;
* `Atom.coerce`: the element after coercion, with its new kind.
-/

namespace Vectorial

/-! ### Numbers between kinds -/

/-- The integer part of a double, if it is an integer that is not missing. -/
def Binary64.toInteger? (x : Binary64) : Option Int32 :=
  if x.isNaN then none
  else
    let whole := x.truncated
    if 2147483647 < whole ∨ whole ≤ -2147483648 then none else some (Int32.ofInt whole)

/-- The integer part of a double as an integer, missing if it is none. -/
def Binary64.toInteger (x : Binary64) : Int32 :=
  x.toInteger?.getD missingInteger

/-- The integer part of a double as a byte, zero if it is none. -/
def Binary64.toRaw (x : Binary64) : UInt8 :=
  if x.isNaN then 0
  else
    let whole := x.truncated
    if 0 ≤ whole ∧ whole ≤ 255 then UInt8.ofNat whole.toNat else 0

/-! ### Texts of elements -/

/-- The two hexadecimal digits of a byte. -/
def rawText (r : UInt8) : String :=
  String.ofList [Nat.digitChar (r.toNat / 16), Nat.digitChar (r.toNat % 16)]

/-- The text of a complex number: its parts, joined by the sign of the imaginary one. -/
def formatComplex (c : Complex) : String :=
  let sign := if c.im.lt (.zero false) then "-" else "+"
  formatDouble c.re ++ sign ++ formatDouble c.im.abs ++ "i"

/-- The truth value that a text spells. -/
def logicalOfText (text : String) : Logical :=
  if text ∈ ["TRUE", "true", "T", "True"] then .yes
  else if text ∈ ["FALSE", "false", "F", "False"] then .no
  else .missing

namespace Atom

/-! ### One function per target -/

/-- The element as a truth value: whether it differs from zero, or what its text spells.
Any NaN is missing. -/
def toLogical : Atom → Logical
  | ⟨.logical, l⟩ => l
  | ⟨.raw, r⟩ => .ofBool (r != 0)
  | ⟨.integer, i⟩ => if i = missingInteger then .missing else .ofBool (i != 0)
  | ⟨.double, d⟩ => if d.isNaN then .missing else .ofBool (!d.isZero)
  | ⟨.complex, c⟩ =>
    if c.re.isNaN || c.im.isNaN then .missing else .ofBool (!c.re.isZero || !c.im.isZero)
  | ⟨.character, s⟩ => (s.map logicalOfText).getD .missing

/-- The element as an integer. -/
def toInteger : Atom → Int32
  | ⟨.logical, .missing⟩ => missingInteger
  | ⟨.logical, .yes⟩ => 1
  | ⟨.logical, .no⟩ => 0
  | ⟨.raw, r⟩ => Int32.ofNat r.toNat
  | ⟨.integer, i⟩ => i
  | ⟨.double, d⟩ => d.toInteger
  | ⟨.complex, c⟩ => if c.isMissing then missingInteger else c.re.toInteger
  | ⟨.character, s⟩ => ((s.bind parseNumber).map Binary64.toInteger).getD missingInteger

/-- The element as a double. -/
def toDouble : Atom → Binary64
  | ⟨.logical, .missing⟩ => .missing
  | ⟨.logical, .yes⟩ => .ofInt 1
  | ⟨.logical, .no⟩ => .ofInt 0
  | ⟨.raw, r⟩ => .ofInt r.toNat
  | ⟨.integer, i⟩ => if i = missingInteger then .missing else .ofInt i.toInt
  | ⟨.double, d⟩ => d
  | ⟨.complex, c⟩ => if c.isMissing then .missing else c.re
  | ⟨.character, s⟩ => (s.bind parseNumber).getD .missing

/-- The element as a complex number, with imaginary part zero if it is not complex. -/
def toComplex : Atom → Complex
  | ⟨.complex, c⟩ => c
  | a =>
    if a.isMissing || a.toDouble.isMissing then .missing
    else ⟨a.toDouble, .zero false⟩

/-- The element as a byte, zero when it is no number from 0 to 255. -/
def toRaw : Atom → UInt8
  | ⟨.logical, l⟩ => if l = .yes then 1 else 0
  | ⟨.raw, r⟩ => r
  | ⟨.integer, i⟩ => if 0 ≤ i.toInt ∧ i.toInt ≤ 255 then UInt8.ofNat i.toInt.toNat else 0
  | ⟨.double, d⟩ => d.toRaw
  | ⟨.complex, c⟩ => if c.isMissing then 0 else c.re.toRaw
  | ⟨.character, s⟩ => ((s.bind parseNumber).map Binary64.toRaw).getD 0

/-- The element as a text. -/
def toText (a : Atom) : Option String :=
  if a.isMissing then none
  else match a with
    | ⟨.logical, l⟩ => some (if l = .yes then "TRUE" else "FALSE")
    | ⟨.raw, r⟩ => some (rawText r)
    | ⟨.integer, i⟩ => some (toString i.toInt)
    | ⟨.double, d⟩ => some (formatDouble d)
    | ⟨.complex, c⟩ => some (formatComplex c)
    | ⟨.character, s⟩ => s

/-! ### Any target -/

/-- The element as an element of `kind`. -/
def asKind (a : Atom) : (kind : ElementKind) → kind.Carrier
  | .logical => a.toLogical
  | .raw => a.toRaw
  | .integer => a.toInteger
  | .double => a.toDouble
  | .complex => a.toComplex
  | .character => a.toText

/-- An atom is itself in its own kind. -/
@[simp]
theorem asKind_self (kind : ElementKind) (x : kind.Carrier) : asKind ⟨kind, x⟩ kind = x := by
  cases kind with
  | logical => rfl
  | raw => rfl
  | integer => rfl
  | double => rfl
  | complex => rfl
  | character =>
    cases x with
    | none => rfl
    | some text => rfl

/-- The element after coercion to `kind`. -/
def coerce (a : Atom) (kind : ElementKind) : Atom :=
  ⟨kind, a.asKind kind⟩

end Atom

end Vectorial
