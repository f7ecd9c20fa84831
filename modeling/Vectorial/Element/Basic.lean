import Vectorial.Binary64.Basic
import Vectorial.Kind

/-!
# Elements of atomic vectors

Each atomic kind has its element type and, raw excepted, a marker for an absent element:
a third logical value, the least integer, one particular NaN, a complex number with a
missing part, the absence of a text. Raw bytes have no marker; what would be missing is
zero.

## Main definitions

* `Logical`, `Complex`: the elements that the core library does not have;
* `ElementKind.Carrier`: the element type of a kind;
* `ElementKind.missing`, `ElementKind.isMissing`: the marker of a kind;
* `ElementKind.zero`: the element of a vector that was only given a length;
* `Atom`: an element together with its kind.
-/

namespace Vectorial

/-- A truth value that may be missing. -/
inductive Logical where
  | no
  | yes
  | missing
  deriving DecidableEq, Inhabited

namespace Logical

/-- A definite truth value. -/
def ofBool (b : Bool) : Logical :=
  if b then yes else no

/-- The truth value, if it is definite. -/
def toBool? : Logical → Option Bool
  | no => some false
  | yes => some true
  | missing => none

end Logical

/-- A complex number. -/
structure Complex where
  re : Binary64
  im : Binary64
  deriving DecidableEq, Inhabited

namespace Complex

/-- Both parts missing. -/
def missing : Complex :=
  ⟨.missing, .missing⟩

/-- A complex number is missing as soon as one part is. -/
def isMissing (c : Complex) : Bool :=
  c.re.isMissing || c.im.isMissing

end Complex

/-- The missing integer: the least one, so that its opposite is out of range too. -/
def missingInteger : Int32 :=
  Int32.minValue

namespace ElementKind

/-- The element type of a kind. -/
abbrev Carrier : ElementKind → Type
  | logical => Logical
  | raw => UInt8
  | integer => Int32
  | double => Binary64
  | complex => Complex
  | character => Option String

/-- The missing element of a kind; for raw, the zero byte. -/
def missing : (kind : ElementKind) → kind.Carrier
  | logical => Logical.missing
  | raw => (0 : UInt8)
  | integer => missingInteger
  | double => Binary64.missing
  | complex => Complex.missing
  | character => (none : Option String)

/-- Whether an element is missing. No raw byte is. -/
def isMissing : (kind : ElementKind) → kind.Carrier → Bool
  | logical, l => l == Logical.missing
  | raw, _ => false
  | integer, i => i == missingInteger
  | double, d => d.isMissing
  | complex, c => c.isMissing
  | character, s => s.isNone

/-- The element that fills a vector of which only the length is known. -/
def zero : (kind : ElementKind) → kind.Carrier
  | logical => Logical.no
  | raw => (0 : UInt8)
  | integer => (0 : Int32)
  | double => Binary64.zero false
  | complex => (⟨.zero false, .zero false⟩ : Complex)
  | character => some ""

instance : (kind : ElementKind) → DecidableEq kind.Carrier
  | logical => inferInstanceAs (DecidableEq Logical)
  | raw => inferInstanceAs (DecidableEq UInt8)
  | integer => inferInstanceAs (DecidableEq Int32)
  | double => inferInstanceAs (DecidableEq Binary64)
  | complex => inferInstanceAs (DecidableEq Complex)
  | character => inferInstanceAs (DecidableEq (Option String))

instance (kind : ElementKind) : Inhabited kind.Carrier :=
  ⟨kind.missing⟩

end ElementKind

/-- An element of an atomic vector, with its kind. -/
structure Atom where
  kind : ElementKind
  value : kind.Carrier
  deriving DecidableEq

/-- Whether an atom is missing in its own kind. -/
def Atom.isMissing (a : Atom) : Bool :=
  a.kind.isMissing a.value

end Vectorial
