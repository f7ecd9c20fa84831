import Vectorial.Symbol

/-!
# Defects

A defect is a violated precondition: the caller, not the program being evaluated, is
wrong. It is kept apart from evaluation errors, which programs can cause.

## Main definitions

* `Defect`: the preconditions that operations check;
* `Defect.message`: the text of a violation, if the check has one of its own.
-/

namespace Vectorial

/-- A list of numbers between brackets. -/
def bracketed (numbers : List Nat) : String :=
  "[" ++ ", ".intercalate (numbers.map toString) ++ "]"

/-- A violated precondition. -/
inductive Defect where
  /-- An element index at or past the length of a vector. -/
  | indexPastLength (index length : Nat)
  /-- Any element index into `NULL`. -/
  | indexIntoNull (index : Nat)
  /-- An element index other than zero into a function. -/
  | indexIntoFunction (index : Nat)
  /-- A term so far out that its computation leaves the machine words. -/
  | termOverflow (index : Nat)
  /-- A sequence whose step is zero. -/
  | zeroStep
  /-- A sequence whose step points away from its end. -/
  | stepAway (start stop step : Int)
  /-- A range that ends before one. -/
  | rangeEnd (stop : Int)
  /-- A dimension of zero. -/
  | dimensionNotPositive (dims : List Nat)
  /-- Dimensions whose product is not the length. -/
  | dimensionsMismatch (dims : List Nat) (length : Nat)
  /-- Dimensions whose product is no machine word. -/
  | dimensionsOverflow (dims : List Nat)
  /-- As many names as there are not elements. -/
  | namesMismatch
  /-- A parameter name that occurs twice. -/
  | duplicateFormal (name function : Symbol)
  /-- A name required that is no parameter. -/
  | requiredNotFormal (name function : Symbol)
  /-- The varargs marker among the required parameters. -/
  | dotsRequired
  /-- A slot layout that does not begin with the parameters. -/
  | parametersNotLeading (function : Symbol)
  /-- A pop of an empty call stack. -/
  | emptyCallStack
  /-- A frame slot at or past the size of the frame. -/
  | slotPastFrame (slot size : Nat)
  /-- A position past the parameters of a function. -/
  | parameterPastFormals (index : Nat)
  /-- A range of nodes with an end that is no number of a node. -/
  | rangePastNodes (start length : Nat)
  /-- A request for more memory than an address can reach. -/
  | capacityOverflow
  deriving DecidableEq

/-- What is said about a violation. Terms, slots, positions, products, node numbers and
memory are guarded by bounds checks that have no text of their own. -/
def Defect.message : Defect → Option String
  | .indexPastLength index length => some s!"index {index} out of range for length {length}"
  | .indexIntoNull index => some s!"index {index} out of range for NULL"
  | .indexIntoFunction index => some s!"index {index} out of range for a function"
  | .termOverflow _ => none
  | .zeroStep => some "sequence step must be non-zero"
  | .stepAway start stop step =>
    some s!"sequence step {step} does not lead from {start} to {stop}"
  | .rangeEnd stop => some s!"simple range must end at 1 or above, got {stop}"
  | .dimensionNotPositive dims => some s!"dimensions must be positive: {bracketed dims}"
  | .dimensionsMismatch dims length =>
    some s!"dimensions {bracketed dims} do not match length {length}"
  | .dimensionsOverflow _ => none
  | .namesMismatch => some "names length does not match vector length"
  | .duplicateFormal name function =>
    some ("duplicate formal parameter \x60" ++ name ++ "\x60 in " ++ function)
  | .requiredNotFormal name function =>
    some ("required parameter \x60" ++ name ++ "\x60 is not a formal of " ++ function)
  | .dotsRequired => some "varargs marker cannot be required"
  | .parametersNotLeading function => some s!"parameters must lead the write set of {function}"
  | .emptyCallStack => some "CallStack::pop() called on empty stack"
  | .slotPastFrame .. => none
  | .parameterPastFormals .. => none
  | .rangePastNodes .. => none
  | .capacityOverflow => none

end Vectorial
