import Vectorial.Span

/-!
# Diagnostics

A diagnostic is a record of something to report: a stable code, a severity, a message, a
place and notes.

## Main definitions

* `Code`: the codes, grouped by what goes wrong;
* `Code.isBinding`: whether a code says that a call was never entered;
* `Severity`: how grave a record is;
* `Diagnostic`, `Diagnostic.text`: a record and its rendering.
-/

namespace Vectorial

/-- What goes wrong, as a stable code. -/
inductive Code where
  /-- An abbreviated argument name that could mean several things. -/
  | ambiguousMatch
  /-- A required parameter without an actual. -/
  | missingArgument
  /-- A named actual that no parameter takes. -/
  | unmatchedName
  /-- Too few actuals. -/
  | tooFew
  /-- Too many actuals. -/
  | tooMany
  /-- An argument that is none of its choices. -/
  | notOneOf
  /-- An operator without a meaning for its operands. -/
  | unsupportedOperand
  /-- An argument that must have one element. -/
  | notScalar
  /-- A missing value where a definite one is needed. -/
  | missingValue
  /-- A value of the wrong type. -/
  | typeMismatch
  /-- A variable bound nowhere. -/
  | undefinedVariable
  /-- A call of something else than a function. -/
  | notCallable
  /-- Calls nested past the limit. -/
  | stackOverflow
  /-- Any other error. -/
  | other
  deriving DecidableEq, Inhabited

namespace Code

/-- All codes, in order. -/
def all : List Code :=
  [ambiguousMatch, missingArgument, unmatchedName, tooFew, tooMany, notOneOf,
   unsupportedOperand, notScalar, missingValue, typeMismatch, undefinedVariable, notCallable,
   stackOverflow, other]

/-- The code as text: binding failures begin `E60`, operand failures `E61`, scoping and
call failures `E62`. -/
def text : Code → String
  | ambiguousMatch => "E6001"
  | missingArgument => "E6002"
  | unmatchedName => "E6003"
  | tooFew => "E6004"
  | tooMany => "E6005"
  | notOneOf => "E6006"
  | unsupportedOperand => "E6101"
  | notScalar => "E6102"
  | missingValue => "E6103"
  | typeMismatch => "E6104"
  | undefinedVariable => "E6201"
  | notCallable => "E6202"
  | stackOverflow => "E6203"
  | other => "E9001"

/-- Whether the code says that the actuals of a call did not fit, so that the call was
never entered. -/
def isBinding : Code → Bool
  | ambiguousMatch | missingArgument | unmatchedName | tooFew | tooMany => true
  | _ => false

end Code

/-- How grave a record is. -/
inductive Severity where
  | error
  | warning
  | note
  deriving DecidableEq, Inhabited

/-- The severity as text. -/
def Severity.text : Severity → String
  | error => "error"
  | warning => "warning"
  | note => "note"

/-- A record of something to report. -/
structure Diagnostic where
  code : Code
  severity : Severity
  message : String
  span : Option Span := none
  notes : List String := []
  deriving DecidableEq, Inhabited

namespace Diagnostic

/-- Whether the record is an error, and neither warning nor note. -/
def isError (d : Diagnostic) : Bool :=
  d.severity == .error

/-- The record as a line, with its place, and one further line for each note. -/
def text (d : Diagnostic) : String :=
  let place := match d.span with
    | some span => " at " ++ span.text
    | none => ""
  let notes := d.notes.map fun note => "\n  = note: " ++ note
  d.severity.text ++ "[" ++ d.code.text ++ "]: " ++ d.message ++ place ++ String.join notes

end Diagnostic

end Vectorial
