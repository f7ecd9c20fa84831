import Vectorial.Text.Blank

/-!
# Modes of evaluation

A mode limits how deep calls may nest, and may have all views that evaluation produces
counted.

## Main definitions

* `Mode`: the modes;
* `Mode.limit`, `Mode.tracesViews`: what a mode means;
* `Mode.fromSettings`: the mode that two textual settings describe.
-/

namespace Vectorial

/-- How a program is evaluated. -/
inductive Mode where
  /-- Calls nest as deep as they like. -/
  | interpret
  /-- Calls nest up to a limit. -/
  | bounded (limit : Nat)
  /-- Views are counted, and calls may be limited. -/
  | traced (limit : Option Nat)
  deriving DecidableEq, Inhabited

namespace Mode

/-- The limit on the depth of calls. -/
def limit : Mode → Option Nat
  | interpret => none
  | bounded limit => some limit
  | traced limit => limit

/-- Whether views are counted. -/
def tracesViews : Mode → Bool
  | traced _ => true
  | _ => false

/-- The number that decimal digits denote, unless there is something else among them or
nothing at all. -/
def digitsToNat (digits : List Char) : Option Nat :=
  if digits.isEmpty || !digits.all Char.isDigit then none
  else some (digits.foldl (fun n c => 10 * n + (c.toNat - '0'.toNat)) 0)

/-- The limit that a text describes: digits between blanks, which may have a plus sign.
Zero and numbers beyond a machine word describe none. -/
def limitOfText (text : String) : Option Nat :=
  let body := Text.trim text.toList
  let digits := match body with
    | '+' :: digits => digits
    | digits => digits
  (digitsToNat digits).filter fun n => 0 < n && n < Nat.pow 2 64

/-- Whether a text asks for counting. Case does not matter. -/
def asksForTracing (text : String) : Bool :=
  String.ofList ((Text.trim text.toList).map Char.toLower) ∈ ["1", "true", "yes"]

/-- The mode that the settings for the limit and for counting describe. -/
def fromSettings (limit tracing : Option String) : Mode :=
  let limit := limit.bind limitOfText
  if tracing.any asksForTracing then traced limit
  else limit.elim interpret bounded

end Mode

end Vectorial
