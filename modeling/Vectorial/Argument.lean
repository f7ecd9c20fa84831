import Vectorial.Attempt
import Vectorial.Value.Coercion

/-!
# Reading an argument

What a function makes of an argument that must be a single choice, truth value or number.

## Main definitions

* `Choice`: an argument that must name one of several options;
* `Choice.find`: the option that a text names, in full or by a beginning of it;
* `Choice.parse`: the option that a value names;
* `truthOf`: the definite truth value of a condition;
* `scalarInteger`, `scalarDouble`: a single number.
-/

namespace Vectorial

/-- An argument that must name one of several options. -/
structure Choice where
  arg : Symbol
  options : List String

namespace Choice

variable (choice : Choice)

/-- The positions of the options that begin with a text. -/
def completions (text : String) : List Nat :=
  (List.range choice.options.length).filter fun index =>
    (choice.options[index]?).any fun option => Symbol.abbreviates text option

/-- The option that is the text itself, or else the only one that begins with it. -/
def find (text : String) : Option Nat :=
  match choice.options.idxOf? text with
  | some exact => some exact
  | none =>
    match choice.completions text with
    | [only] => some only
    | _ => none

/-- What is wrong with a text that names no option. -/
def refusal : Cause :=
  .notOneOf choice.arg choice.options

/-- The option that a value names. `NULL` names the first one; anything else must be a
single text. -/
def parse (v : Value) : Attempt Nat :=
  if v.isNull then pure 0
  else if v.kind ≠ .atomic .character then
    Attempt.refuse (.typeMismatch "character" v.typeName)
  else if v.size ≠ 1 then Attempt.refuse (.notScalar choice.arg)
  else do
    let text ← v.atomWithin 0 .character
    match text.bind choice.find with
    | some index => pure index
    | none => Attempt.refuse choice.refusal

end Choice

/-- The first element as a definite truth value. Further elements are ignored. -/
def truthOf (v : Value) : Attempt Bool :=
  if v.size = 0 then Attempt.refuse .missingValue
  else do
    let truth ← Attempt.ofCause (v.coerceTo (.atomic .logical))
    let first ← truth.atomWithin 0 .logical
    match Logical.toBool? first with
    | some b => pure b
    | none => Attempt.refuse .missingValue

/-- Refuses what is not a single number that is present. -/
def checkScalar (arg : Symbol) (v : Value) : Attempt Unit :=
  if v.size ≠ 1 || !v.kind.isNumeric then Attempt.refuse (.notScalar arg)
  else do
    let reading ← Attempt.ofDefect (v.get 0)
    let element ← reading
    if element.isMissing then Attempt.refuse .missingValue

/-- A single number as an integer, its fraction cut off. A number out of range is
missing. -/
def scalarInteger (arg : Symbol) (v : Value) : Attempt Int32 := do
  checkScalar arg v
  let i ← v.atomWithin 0 .integer
  if i = missingInteger then Attempt.refuse .missingValue
  pure i

/-- A single number as a double. -/
def scalarDouble (arg : Symbol) (v : Value) : Attempt Binary64 := do
  checkScalar arg v
  v.atomWithin 0 .double

end Vectorial
