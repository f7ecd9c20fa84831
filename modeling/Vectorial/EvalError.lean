import Vectorial.Span
import Vectorial.Symbol

/-!
# Evaluation errors

An error has a cause, from which its message follows, and picks up a place, a backtrace
and notes while it travels outward. The first place and the first backtrace are the most
precise ones and are kept.

## Main definitions

* `Cause`: why evaluation failed;
* `Cause.message`: what is said about it;
* `CallFrame`, `Backtrace.text`: the calls that were live, innermost first;
* `EvalError`: a cause with place, backtrace and notes;
* `EvalError.withSpan`, `EvalError.withBacktrace`, `EvalError.withNote`: what is added on
  the way out.
-/

namespace Vectorial

/-- Why evaluation failed. -/
inductive Cause where
  /-- Several actuals abbreviate one parameter, or one actual abbreviates several
  parameters of which this is the first. -/
  | ambiguousMatch (formal : Symbol) (actuals : List Symbol)
  /-- A required parameter without an actual. -/
  | missingArgument (function name : Symbol)
  /-- A named actual that no parameter has a use for. -/
  | unmatchedName (function name : Symbol)
  /-- Fewer actuals than the function needs. -/
  | tooFew (function : Symbol) (least : Nat) (most : Option Nat) (got : Nat)
  /-- More actuals than the function takes. -/
  | tooMany (function : Symbol) (least : Nat) (most : Option Nat) (got : Nat)
  /-- A choice that is none of those allowed. -/
  | notOneOf (arg : Symbol) (allowed : List String)
  /-- An operator applied to operands it has no meaning for. -/
  | unsupportedOperand (op description : String)
  /-- An argument that must have one element and has not. -/
  | notScalar (arg : Symbol)
  /-- A missing value where a definite one is needed. -/
  | missingValue
  /-- A value of the wrong type. -/
  | typeMismatch (expected got : String)
  /-- A variable that is bound nowhere. -/
  | undefinedVariable (name : Symbol)
  /-- A call of a value that is no function. -/
  | notCallable (typeName : String)
  /-- Calls nested past the limit. -/
  | stackOverflow (limit : Nat)
  /-- Any other failure, in words. -/
  | custom (message : String)
  deriving DecidableEq, Inhabited

namespace Cause

/-- How many actuals a function takes, in words. -/
def arityText (least : Nat) (most : Option Nat) : String :=
  let noun (n : Nat) := if n = 1 then "argument" else "arguments"
  match most with
  | none => s!"at least {least} " ++ noun least
  | some most =>
    if most = least then s!"{most} " ++ noun most else s!"{least} to {most} " ++ noun most

/-- Texts between double quotes, separated by commas. -/
def quotedList (texts : List String) : String :=
  ", ".intercalate (texts.map fun text => "\"" ++ text ++ "\"")

/-- What is said about a cause. -/
def message : Cause → String
  | ambiguousMatch formal [actual] =>
    "argument \"" ++ actual ++ "\" matches multiple formal arguments, including \"" ++ formal
      ++ "\""
  | ambiguousMatch formal actuals =>
    "formal argument \"" ++ formal ++ "\" matched by multiple actual arguments: "
      ++ quotedList actuals
  | missingArgument function name =>
    "argument \"" ++ name ++ "\" is missing, with no default (in call to " ++ function ++ ")"
  | unmatchedName function name => s!"unused argument ({name} = ...) in call to {function}"
  | tooFew function least most got =>
    function ++ " expects " ++ arityText least most ++ s!", got {got}"
  | tooMany function least most got =>
    function ++ " expects " ++ arityText least most ++ s!", got {got}"
  | notOneOf arg allowed => s!"'{arg}' should be one of " ++ quotedList allowed
  | unsupportedOperand op description =>
    "operator \x60" ++ op ++ "\x60 cannot be applied to " ++ description
  | notScalar arg => s!"'{arg}' must be of length 1"
  | missingValue => "missing value where a value is needed"
  | typeMismatch expected got => s!"type mismatch: expected {expected}, got {got}"
  | undefinedVariable name => s!"object '{name}' not found"
  | notCallable typeName => s!"attempt to apply non-function ({typeName})"
  | stackOverflow limit => s!"maximum recursion depth exceeded (limit: {limit})"
  | custom message => message

end Cause

/-- One live call: the function's name, and the span of the call site if there is one. -/
structure CallFrame where
  name : Symbol
  site : Option Span
  deriving DecidableEq, Inhabited

/-- The calls that were live when an error arose, innermost first. -/
abbrev Backtrace := List CallFrame

/-- The backtrace as numbered lines under a heading; nothing when no call was live. -/
def Backtrace.text (backtrace : Backtrace) : String :=
  if backtrace.isEmpty then ""
  else
    let line (entry : CallFrame × Nat) : String :=
      let place := match entry.1.site with
        | some span => " at " ++ span.text
        | none => ""
      s!"  {entry.2}: " ++ entry.1.name ++ place ++ "\n"
    "stack backtrace:\n" ++ String.join (backtrace.zipIdx.map line)

/-- A remark attached to an error. -/
structure Note where
  message : String
  span : Option Span
  deriving DecidableEq, Inhabited

/-- An evaluation error on its way out. -/
structure EvalError where
  cause : Cause
  span : Option Span := none
  backtrace : Option Backtrace := none
  notes : List Note := []
  deriving DecidableEq, Inhabited

namespace EvalError

/-- What is said about an error. -/
def message (e : EvalError) : String :=
  e.cause.message

/-- The error with a place, unless it has one. -/
def withSpan (e : EvalError) (span : Span) : EvalError :=
  { e with span := some (e.span.getD span) }

/-- The error with a backtrace, unless it has one. -/
def withBacktrace (e : EvalError) (backtrace : Backtrace) : EvalError :=
  { e with backtrace := some (e.backtrace.getD backtrace) }

/-- The error with one more note. -/
def withNote (e : EvalError) (note : Note) : EvalError :=
  { e with notes := e.notes ++ [note] }

end EvalError

end Vectorial
