import Vectorial.Scope.Layout

/-!
# Resolving a program

Before anything is evaluated, every function literal gets its layout. The local names of
a function are its parameters and the targets of the assignments in its defaults and its
body, nested literals left out. A name is found in the nearest enclosing function that
has it as a local; the target of a non-local assignment is sought from the function
around the current one outward.

## Main definitions

* `Expr.targets`, `Expr.reads`, `Expr.superTargets`: what an expression assigns, reads
  and assigns non-locally outside nested literals;
* `Scopes.find`: the nearest enclosing scope that has a name;
* `Program`: the layouts of a program;
* `Program.resolve`: resolution.
-/

namespace Vectorial

/-- The list without repetitions, first occurrences staying. -/
def firstOccurrences (names : List Symbol) : List Symbol :=
  names.foldl (fun seen name => if name ∈ seen then seen else seen ++ [name]) []

/-! ### Names in an expression

Nested function literals are not entered: what they assign and read is their own. -/

mutual

/-- The targets of local assignments, in the order in which a walk from left to right
leaves the assignments. -/
def Expr.targets : Expr → List Symbol
  | .literal .. => []
  | .ident .. => []
  | .assign _ target value => value.targets ++ [target]
  | .superAssign _ _ value => value.targets
  | .function .. => []
  | .call _ callee actuals => callee.targets ++ targetsOfActuals actuals
  | .binary _ _ left right => left.targets ++ right.targets
  | .branch _ condition thenBranch elseBranch =>
    condition.targets ++ thenBranch.targets ++ targetsOfElse elseBranch
  | .block _ body => targetsOfBlock body

/-- The targets in the actuals of a call. -/
def targetsOfActuals : List (Option Symbol × Expr) → List Symbol
  | [] => []
  | (_, value) :: rest => value.targets ++ targetsOfActuals rest

/-- The targets in a branch that may be absent. -/
def targetsOfElse : Option Expr → List Symbol
  | none => []
  | some e => e.targets

/-- The targets in a block. -/
def targetsOfBlock : List Expr → List Symbol
  | [] => []
  | e :: rest => e.targets ++ targetsOfBlock rest

end

mutual

/-- The names read, in the order of a walk from left to right. -/
def Expr.reads : Expr → List Symbol
  | .literal .. => []
  | .ident _ name => [name]
  | .assign _ _ value => value.reads
  | .superAssign _ _ value => value.reads
  | .function .. => []
  | .call _ callee actuals => callee.reads ++ readsOfActuals actuals
  | .binary _ _ left right => left.reads ++ right.reads
  | .branch _ condition thenBranch elseBranch =>
    condition.reads ++ thenBranch.reads ++ readsOfElse elseBranch
  | .block _ body => readsOfBlock body

/-- The names read in the actuals of a call. -/
def readsOfActuals : List (Option Symbol × Expr) → List Symbol
  | [] => []
  | (_, value) :: rest => value.reads ++ readsOfActuals rest

/-- The names read in a branch that may be absent. -/
def readsOfElse : Option Expr → List Symbol
  | none => []
  | some e => e.reads

/-- The names read in a block. -/
def readsOfBlock : List Expr → List Symbol
  | [] => []
  | e :: rest => e.reads ++ readsOfBlock rest

end

mutual

/-- The targets of non-local assignments, in the order of a walk from left to right. -/
def Expr.superTargets : Expr → List Symbol
  | .literal .. => []
  | .ident .. => []
  | .assign _ _ value => value.superTargets
  | .superAssign _ target value => value.superTargets ++ [target]
  | .function .. => []
  | .call _ callee actuals => callee.superTargets ++ superTargetsOfActuals actuals
  | .binary _ _ left right => left.superTargets ++ right.superTargets
  | .branch _ condition thenBranch elseBranch =>
    condition.superTargets ++ thenBranch.superTargets ++ superTargetsOfElse elseBranch
  | .block _ body => superTargetsOfBlock body

/-- The non-local targets in the actuals of a call. -/
def superTargetsOfActuals : List (Option Symbol × Expr) → List Symbol
  | [] => []
  | (_, value) :: rest => value.superTargets ++ superTargetsOfActuals rest

/-- The non-local targets in a branch that may be absent. -/
def superTargetsOfElse : Option Expr → List Symbol
  | none => []
  | some e => e.superTargets

/-- The non-local targets in a block. -/
def superTargetsOfBlock : List Expr → List Symbol
  | [] => []
  | e :: rest => e.superTargets ++ superTargetsOfBlock rest

end

/-! ### Scopes -/

/-- The local names of the functions around a place, innermost first. -/
abbrev Scopes := List (List Symbol)

namespace Scopes

/-- The nearest scope that has the name, the innermost being `hops` away. -/
def findFrom (name : Symbol) : Scopes → Nat → Option Address
  | [], _ => none
  | scope :: outer, hops =>
    match scope.idxOf? name with
    | some slot => some ⟨name, hops, slot⟩
    | none => findFrom name outer (hops + 1)

/-- The nearest scope around the innermost one that has the name. -/
def findOuter (scopes : Scopes) (name : Symbol) : Option Address :=
  findFrom name scopes.tail 1

/-- Where a name read in the innermost scope is found. -/
def resolveRead (scopes : Scopes) (name : Symbol) : Resolution :=
  match (scopes.headD []).idxOf? name with
  | some slot => .here slot (scopes.findOuter name)
  | none => (scopes.findOuter name).elim .nowhere .enclosing

/-- Where the target of a non-local assignment is found. -/
def resolveSuper (scopes : Scopes) (name : Symbol) : Resolution :=
  (scopes.findOuter name).elim .nowhere .enclosing

end Scopes

/-! ### Layouts -/

/-- The name of the outermost layout. -/
def toplevelName : Symbol :=
  "<toplevel>"

/-- The name of a function literal that is not assigned to a variable. -/
def anonymousName : Symbol :=
  "<anonymous>"

/-- The expressions that a function's own text consists of: its defaults and its body. -/
def ownText (params : List (Symbol × Option Expr)) (body : Expr) : List Expr :=
  params.filterMap Prod.snd ++ [body]

/-- The local names of a function: its parameters as declared, then the targets of its
assignments. -/
def localNames (params : List (Symbol × Option Expr)) (body : Expr) : List Symbol :=
  ((ownText params body).flatMap Expr.targets).foldl
    (fun seen name => if name ∈ seen then seen else seen ++ [name]) (params.map Prod.fst)

/-- The layout of a function whose local names head `scopes`. -/
def layoutIn (edition : Nat) (scopes : Scopes) (name : Symbol) (site : Site)
    (params : List (Symbol × Option Expr)) (body : Expr) : Except Defect Layout :=
  let text := ownText params body
  let reads := firstOccurrences (text.flatMap Expr.reads)
  let supers := firstOccurrences (text.flatMap Expr.superTargets)
  Layout.of edition
    { name, site, params, body
      locals := scopes.headD []
      reads := reads.map fun read => (read, scopes.resolveRead read)
      supers := supers.map fun target => (target, scopes.resolveSuper target) }

mutual

/-- The layouts of the function literals in an expression, inner ones before outer ones.
A literal that is assigned has the name of the variable, so `name` is that variable when
the expression is the value of an assignment. -/
def Expr.layouts (edition : Nat) (scopes : Scopes) (name : Symbol) :
    Expr → Except Defect (List Layout)
  | .literal .. => .ok []
  | .ident .. => .ok []
  | .assign _ target value => value.layouts edition scopes target
  | .superAssign _ target value => value.layouts edition scopes target
  | .function site params body => do
    let inside := localNames params body :: scopes
    let inDefaults ← layoutsOfDefaults edition inside params
    let inBody ← body.layouts edition inside anonymousName
    let layout ← layoutIn edition inside name site params body
    pure (inDefaults ++ inBody ++ [layout])
  | .call _ callee actuals => do
    let first ← callee.layouts edition scopes anonymousName
    let rest ← layoutsOfActuals edition scopes actuals
    pure (first ++ rest)
  | .binary _ _ left right => do
    let first ← left.layouts edition scopes anonymousName
    let rest ← right.layouts edition scopes anonymousName
    pure (first ++ rest)
  | .branch _ condition thenBranch elseBranch => do
    let first ← condition.layouts edition scopes anonymousName
    let second ← thenBranch.layouts edition scopes anonymousName
    let third ← layoutsOfElse edition scopes elseBranch
    pure (first ++ second ++ third)
  | .block _ body => layoutsOfBlock edition scopes body

/-- The layouts in the defaults of parameters. -/
def layoutsOfDefaults (edition : Nat) (scopes : Scopes) :
    List (Symbol × Option Expr) → Except Defect (List Layout)
  | [] => .ok []
  | (_, default) :: rest => do
    let first ← layoutsOfElse edition scopes default
    let others ← layoutsOfDefaults edition scopes rest
    pure (first ++ others)

/-- The layouts in the actuals of a call. -/
def layoutsOfActuals (edition : Nat) (scopes : Scopes) :
    List (Option Symbol × Expr) → Except Defect (List Layout)
  | [] => .ok []
  | (_, value) :: rest => do
    let first ← value.layouts edition scopes anonymousName
    let others ← layoutsOfActuals edition scopes rest
    pure (first ++ others)

/-- The layouts in an expression that may be absent. -/
def layoutsOfElse (edition : Nat) (scopes : Scopes) : Option Expr → Except Defect (List Layout)
  | none => .ok []
  | some e => e.layouts edition scopes anonymousName

/-- The layouts in a block. -/
def layoutsOfBlock (edition : Nat) (scopes : Scopes) : List Expr → Except Defect (List Layout)
  | [] => .ok []
  | e :: rest => do
    let first ← e.layouts edition scopes anonymousName
    let others ← layoutsOfBlock edition scopes rest
    pure (first ++ others)

end

/-! ### Programs -/

/-- The layouts of a program: the outermost one, and one for each function literal that
occurs in it. A literal that occurs at several places keeps the layout of the last. -/
structure Program where
  toplevel : Layout
  layouts : List Layout

namespace Program

/-- Lays out every function of the program whose outermost expression is given. -/
def resolve (edition : Nat) (top : Expr) : Except Defect Program := do
  let scopes : Scopes := [localNames [] top]
  let layouts ← top.layouts edition scopes anonymousName
  let toplevel ← layoutIn edition scopes toplevelName top.site [] top
  pure ⟨toplevel, layouts⟩

variable (program : Program)

/-- The layout of a function literal. -/
def layout? (literal : NodeId) : Option Layout :=
  program.layouts.reverse.find? fun layout => layout.literal == literal

/-- The function literals that occur in the program, each once. -/
def literals : List NodeId :=
  (program.layouts.map Layout.literal).foldl
    (fun seen id => if id ∈ seen then seen else seen ++ [id]) []

end Program

end Vectorial
