/-!
# Kinds and their common kind

The kinds of values, and the kind to which two operands are brought before they meet. The
atomic kinds widen from logical through integer, double and complex to character; raw
stands level with integer but meets itself as raw. A list meets anything but a list as
character, `NULL` gives way to the other side, and a function has nothing in common with
anything.

## Main definitions

* `ElementKind`: the kinds whose elements are atoms;
* `Kind`: the kinds of values;
* `ElementKind.width`, `Kind.width`: the bytes that an element takes;
* `Kind.common`: the common kind of two;
* `Kind.commonOf`: the common kind of any number;
* `Kind.membership`: the kind in which elements are compared for membership.
-/

namespace Vectorial

/-- The kinds whose elements are atoms. -/
inductive ElementKind where
  | logical
  | raw
  | integer
  | double
  | complex
  | character
  deriving DecidableEq, Inhabited

/-- The kinds of values. -/
inductive Kind where
  | null
  | atomic (kind : ElementKind)
  | list
  | closure
  deriving DecidableEq, Inhabited

namespace ElementKind

/-- The name of the kind, as programs see it. -/
def name : ElementKind → String
  | logical => "logical"
  | raw => "raw"
  | integer => "integer"
  | double => "double"
  | complex => "complex"
  | character => "character"

/-- The number of bytes that a stored element takes. -/
def width : ElementKind → Nat
  | logical => 1
  | raw => 1
  | integer => 4
  | double => 8
  | complex => 16
  | character => 4

/-- Whether elements of this kind can be used in arithmetic. -/
def isNumeric : ElementKind → Bool
  | character => false
  | _ => true

/-- The position in the widening order; raw and integer share one. -/
def rank : ElementKind → Nat
  | logical => 1
  | raw => 2
  | integer => 2
  | double => 3
  | complex => 4
  | character => 5

/-- The kind at a position of the widening order. -/
def ofRank : Nat → ElementKind
  | 1 => logical
  | 2 => integer
  | 3 => double
  | 4 => complex
  | _ => character

/-- The common kind of two atomic kinds: the wider, raw with raw staying raw. -/
def join : ElementKind → ElementKind → ElementKind
  | raw, raw => raw
  | a, b => ofRank (max a.rank b.rank)

end ElementKind

namespace Kind

/-- All kinds, in their usual order. -/
def all : List Kind :=
  [null, atomic .logical, atomic .raw, atomic .integer, atomic .double, atomic .complex,
   atomic .character, list, closure]

/-- The name of the kind, as programs see it. -/
def name : Kind → String
  | null => "NULL"
  | atomic kind => kind.name
  | list => "list"
  | closure => "closure"

/-- The number of bytes that a stored element takes, none for the kinds that have no
vectors. -/
def width : Kind → Nat
  | atomic kind => kind.width
  | list => 32
  | null => 0
  | closure => 0

/-- Whether elements of this kind can be used in arithmetic. -/
def isNumeric : Kind → Bool
  | atomic kind => kind.isNumeric
  | _ => false

/-- The common kind of two operands, nothing when either is a function. -/
def common : Kind → Kind → Option Kind
  | closure, _ => none
  | _, closure => none
  | null, other => some other
  | other, null => some other
  | list, list => some list
  | list, atomic _ => some (atomic .character)
  | atomic _, list => some (atomic .character)
  | atomic a, atomic b => some (atomic (a.join b))

/-- The common kind of any number of operands, from the left and starting with `NULL`. -/
def commonOf (kinds : List Kind) : Option Kind :=
  kinds.foldlM common null

/-- The kind in which elements are compared for membership: lists are compared by their
text. -/
def membership (a b : Kind) : Option Kind :=
  (common a b).map fun kind => if kind = list then atomic .character else kind

end Kind

end Vectorial
