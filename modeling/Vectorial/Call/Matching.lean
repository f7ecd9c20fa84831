import Vectorial.Call.Binding
import Vectorial.EvalError

/-!
# Matching actuals with parameters

Actuals find their parameters in three passes. First by exact name, the first of several
actuals with one name winning. Then by abbreviation: a named actual left over takes a
parameter left over whose name it begins, unless one of the two has another choice. Last
by position: what remains fills the open parameters in order, and from the varargs marker
on everything is absorbed by it.

The outcome depends on the parameters and on the names and number of the actuals only,
never on their values.

## Main definitions

* `Matching.labels`: the names of a given number of actuals;
* `Matching.exact`, `Matching.abbreviated`, `Matching.positional`: the three passes;
* `Matching.bind`: all three;
* `Matching.check`: whether a binding supplies what is required and uses what is given;
* `Matching.matchCall`: both.
-/

namespace Vectorial.Matching

/-- The parameters' actuals found so far, by position. -/
abbrev Taken := List (Option Nat)

/-- The names of `count` actuals; actuals past the end of the list of names have none. -/
def labels (names : List (Option Symbol)) (count : Nat) : List (Option Symbol) :=
  (List.range count).map fun actual => names[actual]?.join

/-- The name of an actual. -/
def label (labels : List (Option Symbol)) (actual : Nat) : Option Symbol :=
  labels[actual]?.join

/-- Whether a parameter is ordinary and still has no actual. -/
def isOpen (formals : Formals) (taken : Taken) (formal : Nat) : Bool :=
  formals.dotsIndex != some formal && (taken[formal]?.join).isNone

/-- The actuals that no parameter has taken, in call order. -/
def remaining (labels : List (Option Symbol)) (taken : Taken) : List Nat :=
  (List.range labels.length).filter fun actual => !taken.contains (some actual)

/-! ### Exact names -/

/-- Each ordinary parameter takes the first actual of its name. -/
def exact (formals : Formals) (labels : List (Option Symbol)) : Taken :=
  formals.params.map fun p => if p.name.isDots then none else labels.idxOf? (some p.name)

/-! ### Abbreviations -/

/-- The remaining actuals whose names begin the given one. -/
def candidates (labels : List (Option Symbol)) (taken : Taken) (name : Symbol) : List Nat :=
  (remaining labels taken).filter fun actual =>
    (label labels actual).any fun short => short.abbreviates name

/-- Whether an abbreviation could mean an open parameter other than `formal`. -/
def meansAnother (formals : Formals) (taken : Taken) (formal : Nat) (short : Symbol) : Bool :=
  (List.range formals.length).any fun other =>
    other != formal && isOpen formals taken other &&
      (formals.names[other]?).any fun name => short.abbreviates name

/-- One open parameter takes the only actual that abbreviates its name. Several such
actuals, or one that could mean another open parameter too, are ambiguous. -/
def abbreviate (formals : Formals) (labels : List (Option Symbol)) (taken : Taken)
    (formal : Nat) : Except Cause Taken :=
  if !isOpen formals taken formal then .ok taken
  else
    let name := formals.names.getD formal ""
    match candidates labels taken name with
    | [] => .ok taken
    | [actual] =>
      let short := (label labels actual).getD ""
      if meansAnother formals taken formal short then .error (.ambiguousMatch name [short])
      else .ok (taken.set formal (some actual))
    | several => .error (.ambiguousMatch name (several.filterMap (label labels)))

/-- The parameters in declaration order take the actuals that abbreviate them. -/
def abbreviated (formals : Formals) (labels : List (Option Symbol)) (taken : Taken) :
    Except Cause Taken :=
  (List.range formals.length).foldlM (abbreviate formals labels) taken

/-! ### Positions -/

/-- The open parameters before the varargs marker. -/
def openPositions (formals : Formals) (taken : Taken) : List Nat :=
  ((List.range formals.length).takeWhile fun formal => formals.dotsIndex != some formal).filter
    (isOpen formals taken)

/-- Distributes the given actuals over the given open parameters, in order. A named actual
may not fill a parameter by position. Once no parameter is open the actuals go to the
varargs marker, or nowhere. -/
def positional (formals : Formals) (labels : List (Option Symbol)) :
    List Nat → List Nat → Binding → Except Cause Binding
  | [], _, binding => .ok binding
  | actual :: rest, [], binding =>
    positional formals labels rest [] <|
      if formals.dotsIndex.isSome then { binding with dots := binding.dots ++ [actual] }
      else { binding with unused := binding.unused ++ [actual] }
  | actual :: rest, formal :: others, binding =>
    match label labels actual with
    | some name => .error (.unmatchedName formals.function name)
    | none =>
      positional formals labels rest others
        { binding with actuals := binding.actuals.set formal (some actual) }

/-! ### Binding and checking -/

/-- Matches actuals of the given names with the parameters. -/
def bind (formals : Formals) (labels : List (Option Symbol)) : Except Cause Binding := do
  let taken ← abbreviated formals labels (exact formals labels)
  positional formals labels (remaining labels taken) (openPositions formals taken)
    ⟨taken, [], []⟩

/-- Refuses a binding that leaves a required parameter unbound, a call with fewer actuals
than the least number, and one with an unused actual, in this order. -/
def check (formals : Formals) (binding : Binding) (count : Nat) : Except Cause Unit :=
  let unbound := (List.range formals.length).find? fun formal =>
    formals.isRequired formal && !binding.isBound formals formal
  match unbound with
  | some formal => .error (.missingArgument formals.function (formals.names.getD formal ""))
  | none =>
    if count < formals.minArity then
      .error (.tooFew formals.function formals.minArity formals.maxArity count)
    else if !binding.unused.isEmpty then
      .error (.tooMany formals.function formals.minArity formals.maxArity count)
    else .ok ()

/-- Matches and checks a call. -/
def matchCall (formals : Formals) (labels : List (Option Symbol)) : Except Cause Binding := do
  let binding ← bind formals labels
  check formals binding labels.length
  pure binding

end Vectorial.Matching
