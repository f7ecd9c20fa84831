import Vectorial.Diagnostic.Basic
import Vectorial.EvalError

/-!
# Reporting an error

## Main definitions

* `Cause.code`: the code of a cause;
* `EvalError.report`: the record of an error, whose notes come before one note for every
  live call.
-/

namespace Vectorial

/-- The code of a cause. -/
def Cause.code : Cause → Code
  | ambiguousMatch .. => .ambiguousMatch
  | missingArgument .. => .missingArgument
  | unmatchedName .. => .unmatchedName
  | tooFew .. => .tooFew
  | tooMany .. => .tooMany
  | notOneOf .. => .notOneOf
  | unsupportedOperand .. => .unsupportedOperand
  | notScalar .. => .notScalar
  | missingValue => .missingValue
  | typeMismatch .. => .typeMismatch
  | undefinedVariable .. => .undefinedVariable
  | notCallable .. => .notCallable
  | stackOverflow .. => .stackOverflow
  | custom .. => .other

/-- A text with its place, if it has one. -/
def placed (text : String) : Option Span → String
  | some span => text ++ " at " ++ span.text
  | none => text

/-- The record of an error. -/
def EvalError.report (e : EvalError) : Diagnostic :=
  { code := e.cause.code
    severity := .error
    message := e.message
    span := e.span
    notes :=
      e.notes.map (fun note => placed note.message note.span) ++
      (e.backtrace.getD []).map fun frame => placed ("in call to " ++ frame.name) frame.site }

end Vectorial
