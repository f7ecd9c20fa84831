import Vectorial.Proofs.Value.Disregard
import Vectorial.Scope.Program

/-!
# Editions of a program

Layouts of one literal that come from different resolutions are told apart by their edition.
Resolution itself never looks at the edition: resolving a program again gives the same layouts
with the new edition.

## Main definitions

* `Layout.inEdition`, `Program.inEdition`: the layouts with another edition;
* `Disregard.resolutions`: it is disregarded which resolution a layout comes from.

## Main results

* `Program.resolve_edition`: a program that is resolved again;
* `Program.layout?_of_resolve`: it lays out its literals as before.
-/

namespace Vectorial

/-- It is disregarded which resolution of a program a layout comes from. -/
def Disregard.resolutions : Disregard :=
  { editions := true }

/-- The layout as it is in another edition. -/
def Layout.inEdition (edition : Nat) (layout : Layout) : Layout :=
  { layout with edition }

/-- The program as it is in another edition. -/
def Program.inEdition (edition : Nat) (program : Program) : Program :=
  ⟨program.toplevel.inEdition edition, program.layouts.map (Layout.inEdition edition)⟩

theorem Layout.without_inEdition (edition : Nat) (layout : Layout) :
    (layout.inEdition edition).without .resolutions = layout.without .resolutions :=
  rfl

variable {edition other : Nat}

/-! ### Resolving again -/

theorem Layout.of_edition (parts : Layout.Parts) :
    Layout.of other parts = (Layout.of edition parts).map (inEdition other) := by
  unfold Layout.of
  split
  · split <;> rfl
  · rfl

/-- Layouts that are found one after the other are found again one after the other. -/
theorem map_append_inEdition (first rest : Except Defect (List Layout)) :
    (do
      let ls ← first.map (List.map (Layout.inEdition other))
      let ls' ← rest.map (List.map (Layout.inEdition other))
      pure (ls ++ ls')) =
    (do
      let ls ← first
      let ls' ← rest
      pure (ls ++ ls') : Except Defect (List Layout)).map (List.map (Layout.inEdition other)) := by
  cases first with
  | error defect => rfl
  | ok ls =>
    cases rest with
    | error defect => rfl
    | ok ls' => exact congrArg Except.ok List.map_append.symm

mutual

/-- The layouts in an expression are the same in every edition. -/
theorem Expr.layouts_edition (scopes : Scopes) (name : Symbol) : ∀ e : Expr,
    e.layouts other scopes name =
      (e.layouts edition scopes name).map (List.map (Layout.inEdition other))
  | .literal .. => rfl
  | .ident .. => rfl
  | .assign _ target value => value.layouts_edition scopes target
  | .superAssign _ target value => value.layouts_edition scopes target
  | .function site params body => by
    rw [Expr.layouts, Expr.layouts, layoutsOfDefaults_edition _ params,
      body.layouts_edition _ anonymousName, layoutIn, layoutIn, Layout.of_edition]
    -- Defaults, body and the layout itself are resolved in this order, and fail in it.
    generalize layoutsOfDefaults edition _ params = inDefaults
    generalize body.layouts edition _ anonymousName = inBody
    generalize Layout.of edition _ = layout
    cases inDefaults with
    | error defect => rfl
    | ok ls =>
      cases inBody with
      | error defect => rfl
      | ok ls' =>
        cases layout with
        | error defect => rfl
        | ok layout =>
          refine congrArg Except.ok ?_
          rw [List.map_append, List.map_append]
          rfl
  | .call _ callee actuals => by
    rw [Expr.layouts, Expr.layouts, callee.layouts_edition, layoutsOfActuals_edition]
    exact map_append_inEdition _ _
  | .binary _ _ left right => by
    rw [Expr.layouts, Expr.layouts, left.layouts_edition, right.layouts_edition]
    exact map_append_inEdition _ _
  | .branch _ condition thenBranch elseBranch => by
    rw [Expr.layouts, Expr.layouts, condition.layouts_edition, thenBranch.layouts_edition,
      layoutsOfElse_edition]
    generalize condition.layouts edition scopes anonymousName = first
    generalize thenBranch.layouts edition scopes anonymousName = second
    generalize layoutsOfElse edition scopes elseBranch = third
    cases first with
    | error defect => rfl
    | ok ls =>
      cases second with
      | error defect => rfl
      | ok ls' =>
        cases third with
        | error defect => rfl
        | ok ls'' =>
          refine congrArg Except.ok ?_
          rw [List.map_append, List.map_append]
  | .block _ body => layoutsOfBlock_edition scopes body

theorem layoutsOfDefaults_edition (scopes : Scopes) : ∀ params : List (Symbol × Option Expr),
    layoutsOfDefaults other scopes params =
      (layoutsOfDefaults edition scopes params).map (List.map (Layout.inEdition other))
  | [] => rfl
  | (_, default) :: rest => by
    rw [layoutsOfDefaults, layoutsOfDefaults, layoutsOfElse_edition, layoutsOfDefaults_edition]
    exact map_append_inEdition _ _

theorem layoutsOfActuals_edition (scopes : Scopes) : ∀ actuals : List (Option Symbol × Expr),
    layoutsOfActuals other scopes actuals =
      (layoutsOfActuals edition scopes actuals).map (List.map (Layout.inEdition other))
  | [] => rfl
  | (_, value) :: rest => by
    rw [layoutsOfActuals, layoutsOfActuals, value.layouts_edition, layoutsOfActuals_edition]
    exact map_append_inEdition _ _

theorem layoutsOfElse_edition (scopes : Scopes) : ∀ e : Option Expr,
    layoutsOfElse other scopes e =
      (layoutsOfElse edition scopes e).map (List.map (Layout.inEdition other))
  | none => rfl
  | some e => e.layouts_edition scopes anonymousName

theorem layoutsOfBlock_edition (scopes : Scopes) : ∀ body : List Expr,
    layoutsOfBlock other scopes body =
      (layoutsOfBlock edition scopes body).map (List.map (Layout.inEdition other))
  | [] => rfl
  | e :: rest => by
    rw [layoutsOfBlock, layoutsOfBlock, e.layouts_edition, layoutsOfBlock_edition]
    exact map_append_inEdition _ _

end

namespace Program

/-- A program that is resolved again is the same in the new edition. -/
theorem resolve_edition (top : Expr) :
    resolve other top = (resolve edition top).map (inEdition other) := by
  have laid (scopes : Scopes) (name : Symbol) : top.layouts other scopes name =
      (top.layouts edition scopes name).map (List.map (Layout.inEdition other)) :=
    top.layouts_edition scopes name
  have made (parts : Layout.Parts) :
      Layout.of other parts = (Layout.of edition parts).map (Layout.inEdition other) :=
    Layout.of_edition parts
  rw [resolve, resolve, laid, layoutIn, layoutIn, made]
  generalize top.layouts edition _ anonymousName = layouts
  generalize Layout.of edition _ = toplevel
  cases layouts with
  | error defect => rfl
  | ok ls => cases toplevel <;> rfl

theorem layout?_inEdition (program : Program) (id : NodeId) :
    (program.inEdition edition).layout? id =
      (program.layout? id).map (Layout.inEdition edition) := by
  unfold layout? inEdition
  rw [← List.map_reverse, List.find?_map]
  rfl

/-- Two resolutions of a program lay out each literal alike. -/
theorem layout?_of_resolve {top : Expr} {program again : Program}
    (resolved : resolve edition top = .ok program) (resolved' : resolve other top = .ok again)
    (id : NodeId) :
    Option.Rel (fun layout layout' : Layout =>
      layout'.without .resolutions = layout.without .resolutions)
      (program.layout? id) (again.layout? id) := by
  have later : resolve other top = (resolve edition top).map (inEdition other) :=
    resolve_edition top
  rw [later, resolved] at resolved'
  cases resolved'
  rw [layout?_inEdition]
  cases program.layout? id with
  | none => exact .none
  | some layout => exact .some (layout.without_inEdition other)

end Program

end Vectorial
