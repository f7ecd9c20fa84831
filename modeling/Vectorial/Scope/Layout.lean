import Vectorial.Call.Formals
import Vectorial.Syntax

/-!
# Layouts of functions

A layout says once and for all, for one function literal, which slot of a frame each
local name has and where each name that is read is found: in a slot of the frame itself,
at a fixed address further out, or nowhere in the text, in which case it is looked up by
name.

## Main definitions

* `Address`: a slot some number of frames further out;
* `Resolution`: where a name is found;
* `Layout`: the layout of one function literal;
* `Layout.of`: a layout from its parts, refused when they do not fit;
* `Layout.slotOf`, `Layout.resolveRead`, `Layout.resolveSuper`: the three look-ups.
-/

namespace Vectorial

/-- A slot `hops` frames further out. -/
structure Address where
  name : Symbol
  hops : Nat
  slot : Nat
  deriving DecidableEq, Inhabited

/-- Where a name is found. -/
inductive Resolution where
  /-- A slot of the frame itself; `outer` is where the name is found while that slot is
  unbound. -/
  | here (slot : Nat) (outer : Option Address)
  /-- A slot of an enclosing frame. -/
  | enclosing (address : Address)
  /-- Nowhere in the enclosing functions. -/
  | nowhere
  deriving DecidableEq, Inhabited

namespace Resolution

/-- Whether the name has a slot in the frame itself. -/
def isHere : Resolution → Bool
  | here .. => true
  | _ => false

/-- The address further out, if that is where the name is found. -/
def address? : Resolution → Option Address
  | enclosing address => some address
  | _ => none

end Resolution

/-- The entry of a name in a list of entries; of several the last counts. -/
def lastEntry {α : Type} (entries : List (Symbol × α)) (name : Symbol) : Option α :=
  (entries.reverse.find? fun entry => entry.1 == name).map Prod.snd

/-- A function literal whose parts are not yet known to fit together. -/
structure Layout.Parts where
  name : Symbol
  site : Site
  params : List (Symbol × Option Expr)
  body : Expr
  locals : List Symbol
  reads : List (Symbol × Resolution)
  supers : List (Symbol × Resolution)

/-- The layout of a function literal. The slots begin with the parameters, and `edition`
tells layouts of one literal apart that come from different resolutions of a program. -/
structure Layout where
  name : Symbol
  site : Site
  edition : Nat
  params : List (Symbol × Option Expr)
  formals : Formals
  body : Expr
  locals : List Symbol
  reads : List (Symbol × Resolution)
  supers : List (Symbol × Resolution)
  formals_names : formals.names = params.map Prod.fst
  params_leading : params.map Prod.fst <+: locals

namespace Layout

/-- The parameters that a call must supply: those without a default, the varargs marker
excepted. -/
def requiredNames (params : List (Symbol × Option Expr)) : List Symbol :=
  (params.filter fun p => p.2.isNone && !p.1.isDots).map Prod.fst

theorem names_of_eq_ok {function : Symbol} {names required : List Symbol} {formals : Formals}
    (h : Formals.of function names required = .ok formals) : formals.names = names := by
  unfold Formals.of at h
  split at h
  · simp at h
  · split at h
    · simp at h
    · simp only [Except.ok.injEq] at h
      subst h
      simp [Formals.names, Function.comp_def]

/-- The layout of a literal, refused if the slots do not begin with the parameters or the
parameters are malformed. -/
def of (edition : Nat) (parts : Parts) : Except Defect Layout :=
  if leading : parts.params.map Prod.fst <+: parts.locals then
    match known : Formals.of parts.name (parts.params.map Prod.fst)
        (requiredNames parts.params) with
    | .error defect => .error defect
    | .ok formals => .ok
      { name := parts.name, site := parts.site, edition, params := parts.params, formals
        body := parts.body, locals := parts.locals, reads := parts.reads
        supers := parts.supers
        formals_names := names_of_eq_ok known
        params_leading := leading }
  else .error (.parametersNotLeading parts.name)

variable (layout : Layout)

/-- The number of the function literal. -/
def literal : NodeId :=
  layout.site.id

/-- The number of slots of a frame. -/
def frameSize : Nat :=
  layout.locals.length

/-- The first slots are those of the parameters. -/
theorem length_params_le : layout.params.length ≤ layout.frameSize := by
  simpa [frameSize] using layout.params_leading.length_le

/-- The default of the parameter at a position. -/
def defaultFor (index : Nat) : Option Expr :=
  (layout.params[index]?.map Prod.snd).join

/-- The slot of a local name; of several the last counts. -/
def slotOf (name : Symbol) : Option Nat :=
  lastEntry layout.locals.zipIdx name

/-- Where a name that is read is found. -/
def resolveRead (name : Symbol) : Option Resolution :=
  lastEntry layout.reads name

/-- Where the target of a non-local assignment is found. -/
def resolveSuper (name : Symbol) : Option Resolution :=
  lastEntry layout.supers name

/-- The names that are read and are not local, in order of first occurrence. -/
def freeReads : List Symbol :=
  (layout.reads.filter fun read => !read.2.isHere).map Prod.fst

/-- The addresses of the names that are found further out. -/
def enclosingReads : List Address :=
  layout.reads.filterMap fun read => read.2.address?

end Layout

end Vectorial
