/-!
# Interning texts

An interner hands out one small number per distinct text, in order of first arrival. A table
has the texts by their numbers, and a map beside it has the numbers by their texts. The
empty text and the varargs marker are there from the start, and one number past the
capacity is kept free as a handle that no text ever gets.

## Main definitions

* `Interner`: the texts seen so far, and the map that finds their handles;
* `Interner.handle?`, `Interner.add`: the handle that the map has, and one more text;
* `Interner.intern?`: the handle of a text, or an overflow that changes nothing;
* `Interner.lookup`: the text of a handle, empty for a foreign one.
-/

namespace Vectorial

/-- The texts interned so far. -/
structure Interner where
  /-- The handles by their texts; of several entries for a text the first one counts. -/
  handles : List (String × Nat) := []
  /-- The texts by their handles. -/
  texts : Array String := #[]

namespace Interner

/-- The handle that no text is given. -/
def invalid : Nat :=
  Nat.pow 2 32 - 1

/-- The handle that the map has for a text. -/
def handle? (interner : Interner) (text : String) : Option Nat :=
  interner.handles.lookup text

/-- One more text, with the next number as its handle. -/
def add (interner : Interner) (text : String) : Interner :=
  { handles := (text, interner.texts.size) :: interner.handles
    texts := interner.texts.push text }

/-- The interner that knows the two reserved texts only. -/
def fresh : Interner :=
  ["", "..."].foldl add {}

instance : Inhabited Interner :=
  ⟨fresh⟩

/-- A full interner: how many texts it holds. -/
structure Overflow where
  count : Nat
  deriving DecidableEq

/-- What is said about a full interner. -/
def Overflow.message (o : Overflow) : String :=
  s!"interner exceeded capacity: {o.count} strings, max is {invalid - 1}"

/-- The handle of `text` and the interner that knows it. A known text keeps its handle
even when there is no room for a new one. -/
def intern? (interner : Interner) (text : String) : Except Overflow (Nat × Interner) :=
  match interner.handle? text with
  | some handle => .ok (handle, interner)
  | none =>
    let handle := interner.texts.size
    if handle < invalid then .ok (handle, interner.add text) else .error ⟨handle⟩

/-- The text of a handle. A handle that was never given out has the empty text. -/
def lookup (interner : Interner) (handle : Nat) : String :=
  interner.texts.getD handle ""

/-- The number of texts, the reserved ones included. -/
def size (interner : Interner) : Nat :=
  interner.texts.size

end Interner

end Vectorial
