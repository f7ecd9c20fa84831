import Vectorial.Defect

/-!
# Formal parameters

The parameters of a function in the order of their declaration. At most one of them is
the varargs marker, since no name occurs twice, and the marker is never required.

## Main definitions

* `Formals`: the parameters of one function;
* `Formals.of`: parameters from names, refused when they are malformed;
* `Formals.dotsIndex`, `Formals.position`: where the marker and a name stand;
* `Formals.minArity`, `Formals.maxArity`: how many actuals are accepted.
-/

namespace Vectorial

/-- A parameter: its name, and whether a call must supply it. -/
structure Formal where
  name : Symbol
  required : Bool
  deriving DecidableEq, Inhabited

/-- The parameters of a function, in declaration order. -/
structure Formals where
  function : Symbol
  params : List Formal
  nodup : (params.map Formal.name).Nodup
  dots_optional : ∀ p ∈ params, p.required = true → p.name ≠ Symbol.dots
  deriving DecidableEq

namespace Formals

/-- The first name that repeats an earlier one. -/
def firstRepeated (seen : List Symbol) : List Symbol → Option Symbol
  | [] => none
  | name :: rest => if name ∈ seen then some name else firstRepeated (seen ++ [name]) rest

theorem nodup_of_firstRepeated_eq_none {seen names : List Symbol} (distinct : seen.Nodup)
    (h : firstRepeated seen names = none) : (seen ++ names).Nodup := by
  induction names generalizing seen with
  | nil => simpa using distinct
  | cons name rest ih =>
    simp only [firstRepeated] at h
    split at h
    · simp at h
    · next absent =>
      have extended : (seen ++ [name]).Nodup := by
        rw [List.nodup_append]
        refine ⟨distinct, by simp, ?_⟩
        intro a ha b hb same
        simp only [List.mem_singleton] at hb
        exact absent (hb ▸ same ▸ ha)
      simpa using ih extended h

/-- The first required name that is no parameter or is the marker. -/
def checkRequired (function : Symbol) (names : List Symbol) : List Symbol → Except Defect Unit
  | [] => .ok ()
  | name :: rest =>
    if name ∉ names then .error (.requiredNotFormal name function)
    else if name = Symbol.dots then .error .dotsRequired
    else checkRequired function names rest

theorem dots_notMem_of_checkRequired {function : Symbol} {names required : List Symbol}
    (h : checkRequired function names required = .ok ()) : Symbol.dots ∉ required := by
  induction required with
  | nil => simp
  | cons name rest ih =>
    simp only [checkRequired] at h
    split at h
    · simp at h
    · split at h
      · simp at h
      · next other => simpa [Ne.symm other] using ih h

/-- The parameters `names`, those in `required` without a default. A repeated name, a
required name that is no parameter and a required marker are refused, in this order. -/
def of (function : Symbol) (names required : List Symbol) : Except Defect Formals :=
  match distinct : firstRepeated [] names with
  | some name => .error (.duplicateFormal name function)
  | none =>
    match known : checkRequired function names required with
    | .error defect => .error defect
    | .ok () => .ok
      { function
        params := names.map fun name => ⟨name, decide (name ∈ required)⟩
        nodup := by
          simpa [Function.comp_def] using nodup_of_firstRepeated_eq_none .nil distinct
        dots_optional := by
          intro p member needed
          simp only [List.mem_map] at member
          obtain ⟨name, -, rfl⟩ := member
          rintro rfl
          exact dots_notMem_of_checkRequired known (by simpa using needed) }

variable (formals : Formals)

/-- The number of parameters. -/
def length : Nat :=
  formals.params.length

/-- The names, in declaration order. -/
def names : List Symbol :=
  formals.params.map Formal.name

/-- The position of a name. -/
def position (name : Symbol) : Option Nat :=
  formals.names.idxOf? name

/-- The position of the varargs marker. -/
def dotsIndex : Option Nat :=
  formals.position Symbol.dots

/-- Whether the parameter at a position must be supplied. -/
def isRequired (index : Nat) : Bool :=
  (formals.params[index]?.map Formal.required).getD false

/-- The least number of actuals: the required parameters before the marker, or all of
them when there is none. -/
def minArity : Nat :=
  ((formals.params.takeWhile fun p => !p.name.isDots).filter Formal.required).length

/-- The greatest number of actuals, unbounded with a marker. -/
def maxArity : Option Nat :=
  if formals.dotsIndex.isSome then none else some formals.length

end Formals

end Vectorial
