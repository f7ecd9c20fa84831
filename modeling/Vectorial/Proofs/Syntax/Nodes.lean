import Vectorial.Proofs.Evaluation.Parts
import Vectorial.Scope.Program

/-!
# The nodes of a program

Every expression inside an expression, the defaults and bodies of function literals
included, in the order in which a walk from left to right leaves them.

## Main definitions

* `Expr.children`: the expressions immediately inside an expression;
* `Expr.nodes`: all expressions inside an expression, itself included;
* `Expr.literals`: the numbers of the function literals among them;
* `Expr.Within`: the expressions inside an expression, function literals not entered.

## Main results

* `Expr.nodes_eq`: the nodes are those of the children, and the expression itself;
* `Expr.childInduction`: induction along children.
-/

namespace Vectorial

/-- The expressions immediately inside an expression. -/
def Expr.children : Expr → List Expr
  | .function _ params body => ownText params body
  | e => e.parts

mutual

/-- All expressions inside an expression, the expression itself last. -/
def Expr.nodes : Expr → List Expr
  | e@(.literal ..) => [e]
  | e@(.ident ..) => [e]
  | e@(.assign _ _ value) => value.nodes ++ [e]
  | e@(.superAssign _ _ value) => value.nodes ++ [e]
  | e@(.function _ params body) => nodesOfDefaults params ++ body.nodes ++ [e]
  | e@(.call _ callee actuals) => callee.nodes ++ nodesOfActuals actuals ++ [e]
  | e@(.binary _ _ left right) => left.nodes ++ right.nodes ++ [e]
  | e@(.branch _ condition thenBranch elseBranch) =>
    condition.nodes ++ thenBranch.nodes ++ nodesOfElse elseBranch ++ [e]
  | e@(.block _ body) => nodesOfBlock body ++ [e]

/-- The nodes of the defaults of parameters. -/
def nodesOfDefaults : List (Symbol × Option Expr) → List Expr
  | [] => []
  | (_, default) :: rest => nodesOfElse default ++ nodesOfDefaults rest

/-- The nodes of the actuals of a call. -/
def nodesOfActuals : List (Option Symbol × Expr) → List Expr
  | [] => []
  | (_, value) :: rest => value.nodes ++ nodesOfActuals rest

/-- The nodes of an expression that may be absent. -/
def nodesOfElse : Option Expr → List Expr
  | none => []
  | some e => e.nodes

/-- The nodes of a block. -/
def nodesOfBlock : List Expr → List Expr
  | [] => []
  | e :: rest => e.nodes ++ nodesOfBlock rest

end

/-- The number of an expression that is a function literal. -/
def Expr.literal? : Expr → Option NodeId
  | .function site _ _ => some site.id
  | _ => none

/-- The numbers of the function literals in an expression, one for each place. -/
def Expr.literals (e : Expr) : List NodeId :=
  e.nodes.filterMap Expr.literal?

/-! ### Children -/

theorem nodesOfElse_eq (e : Option Expr) : nodesOfElse e = e.toList.flatMap Expr.nodes := by
  cases e <;> simp [nodesOfElse]

theorem nodesOfDefaults_eq (params : List (Symbol × Option Expr)) :
    nodesOfDefaults params = (params.filterMap Prod.snd).flatMap Expr.nodes := by
  induction params with
  | nil => rfl
  | cons param rest ih =>
    obtain ⟨name, _ | default⟩ := param <;>
      simp [nodesOfDefaults, nodesOfElse_eq, ih]

theorem nodesOfActuals_eq (actuals : List (Option Symbol × Expr)) :
    nodesOfActuals actuals = (actuals.map Prod.snd).flatMap Expr.nodes := by
  induction actuals with
  | nil => rfl
  | cons actual rest ih => simp [nodesOfActuals, ih]

theorem nodesOfBlock_eq (body : List Expr) : nodesOfBlock body = body.flatMap Expr.nodes := by
  induction body with
  | nil => rfl
  | cons e rest ih => simp [nodesOfBlock, ih]

/-- The nodes of an expression are those of its children, and the expression itself. -/
theorem Expr.nodes_eq (e : Expr) : e.nodes = e.children.flatMap Expr.nodes ++ [e] := by
  cases e <;>
    simp [Expr.nodes, Expr.children, Expr.parts, Expr.strict, Expr.branches, ownText,
      nodesOfDefaults_eq, nodesOfActuals_eq, nodesOfElse_eq, nodesOfBlock_eq]

theorem Expr.literals_eq (e : Expr) :
    e.literals = e.children.flatMap Expr.literals ++ e.literal?.toList := by
  rw [Expr.literals]
  rw [Expr.nodes_eq, List.filterMap_append, List.filterMap_flatMap]
  congr 1

theorem Expr.mem_nodes_self (e : Expr) : e ∈ e.nodes := by
  rw [Expr.nodes_eq]
  exact List.mem_append_right _ (List.mem_singleton_self e)

theorem Expr.nodes_subset_of_mem_children {e child : Expr} (inside : child ∈ e.children) :
    child.nodes ⊆ e.nodes := by
  intro node member
  rw [Expr.nodes_eq e]
  exact List.mem_append_left _ (List.mem_flatMap.mpr ⟨child, inside, member⟩)

theorem Expr.mem_children_of_mem_parts {e part : Expr} (inside : part ∈ e.parts) :
    part ∈ e.children := by
  cases e <;> first | exact inside | cases inside

/-- Only a function literal has children that are not parts: its defaults and its body. -/
theorem Expr.children_eq_parts {e : Expr} (not_function : e.literal? = none) :
    e.children = e.parts := by
  cases e <;> first | rfl | cases not_function

theorem Expr.sizeOf_lt_of_mem_children {e child : Expr} (inside : child ∈ e.children) :
    sizeOf child < sizeOf e := by
  have of_actuals {actuals : List (Option Symbol × Expr)} (member : child ∈ actuals.map Prod.snd) :
      sizeOf child < sizeOf actuals := by
    obtain ⟨⟨name, value⟩, listed, rfl⟩ := List.mem_map.mp member
    -- The pair is smaller than the list, and the expression smaller than the pair.
    have := List.sizeOf_lt_of_mem listed
    simp only [Prod.mk.sizeOf_spec] at this
    dsimp only
    omega
  have of_defaults {params : List (Symbol × Option Expr)}
      (member : child ∈ params.filterMap Prod.snd) : sizeOf child < sizeOf params := by
    obtain ⟨⟨name, default⟩, listed, rfl⟩ := List.mem_filterMap.mp member
    have := List.sizeOf_lt_of_mem listed
    simp only [Prod.mk.sizeOf_spec, Option.some.sizeOf_spec] at this
    omega
  cases e with
  | literal site value => cases inside
  | ident site name => cases inside
  | assign site target value =>
    obtain rfl := List.mem_singleton.mp inside
    simp only [Expr.assign.sizeOf_spec]
    omega
  | superAssign site target value =>
    obtain rfl := List.mem_singleton.mp inside
    simp only [Expr.superAssign.sizeOf_spec]
    omega
  | function site params body =>
    simp only [Expr.function.sizeOf_spec]
    rcases List.mem_append.mp inside with default | own
    · have := of_defaults default
      omega
    · obtain rfl := List.mem_singleton.mp own
      omega
  | call site callee actuals =>
    simp only [Expr.call.sizeOf_spec]
    simp only [Expr.children, Expr.parts, Expr.strict, Expr.branches, List.append_nil,
      List.mem_cons] at inside
    rcases inside with rfl | actual
    · omega
    · have := of_actuals actual
      omega
  | binary site op left right =>
    simp only [Expr.children, Expr.parts, Expr.strict, Expr.branches, List.append_nil,
      List.mem_cons, List.not_mem_nil, or_false] at inside
    simp only [Expr.binary.sizeOf_spec]
    rcases inside with rfl | rfl <;> omega
  | branch site condition thenBranch elseBranch =>
    simp only [Expr.children, Expr.parts, Expr.strict, Expr.branches, List.cons_append,
      List.nil_append, List.mem_cons, Option.mem_toList] at inside
    simp only [Expr.branch.sizeOf_spec]
    rcases inside with rfl | rfl | rfl
    · omega
    · omega
    · simp only [Option.some.sizeOf_spec]
      omega
  | block site body =>
    simp only [Expr.children, Expr.parts, Expr.strict, Expr.branches, List.append_nil] at inside
    have := List.sizeOf_lt_of_mem inside
    simp only [Expr.block.sizeOf_spec]
    omega

/-- Induction along children. -/
theorem Expr.childInduction {P : Expr → Prop}
    (step : ∀ e, (∀ child ∈ e.children, P child) → P e) (e : Expr) : P e :=
  step e fun child inside =>
    have := Expr.sizeOf_lt_of_mem_children inside
    Expr.childInduction step child
termination_by sizeOf e

/-- The nodes of a node are nodes. -/
theorem Expr.nodes_subset_of_mem_nodes (e : Expr) :
    ∀ {node : Expr}, node ∈ e.nodes → node.nodes ⊆ e.nodes := by
  -- A node is the expression itself, or inside a child.
  induction e using Expr.childInduction with
  | step e ih =>
    intro node member
    rw [Expr.nodes_eq] at member
    rcases List.mem_append.mp member with inner | own
    · obtain ⟨child, inside, member⟩ := List.mem_flatMap.mp inner
      exact List.Subset.trans (ih child inside member)
        (Expr.nodes_subset_of_mem_children inside)
    · rw [List.mem_singleton.mp own]
      exact List.Subset.refl _

/-- If no function literal occurs twice, the number of a literal identifies it. -/
theorem Expr.eq_of_literal_eq {top e other : Expr} (once : top.literals.Nodup)
    (inside : e ∈ top.nodes) (other_inside : other ∈ top.nodes) {id : NodeId}
    (known : e.literal? = some id) (other_known : other.literal? = some id) : e = other := by
  rw [Expr.literals] at once
  generalize top.nodes = nodes at once inside other_inside
  -- Along the nodes: no number of a node comes again.
  induction nodes with
  | nil => cases inside
  | cons first rest ih =>
    have listed {node : Expr} (later : node ∈ rest) (same : node.literal? = some id) :
        id ∈ rest.filterMap Expr.literal? :=
      List.mem_filterMap.mpr ⟨node, later, same⟩
    rcases List.mem_cons.mp inside with rfl | later <;>
      rcases List.mem_cons.mp other_inside with rfl | other_later
    · rfl
    · rw [List.filterMap_cons, known] at once
      exact absurd (listed other_later other_known) (List.nodup_cons.mp once).1
    · rw [List.filterMap_cons, other_known] at once
      exact absurd (listed later known) (List.nodup_cons.mp once).1
    · refine ih ?_ later other_later
      rw [List.filterMap_cons] at once
      split at once
      · exact once
      · exact (List.nodup_cons.mp once).2

/-! ### Own text -/

/-- The expressions inside an expression, those in function literals left out. -/
inductive Expr.Within (root : Expr) : Expr → Prop where
  | self : Expr.Within root root
  | part {e part : Expr} : Expr.Within root e → part ∈ e.parts → Expr.Within root part

theorem Expr.Within.trans {root e inner : Expr} (first : root.Within e) (second : e.Within inner) :
    root.Within inner := by
  induction second with
  | self => exact first
  | part _ inside ih => exact ih.part inside

theorem Expr.Within.mem_nodes {root e : Expr} (within : root.Within e) : e ∈ root.nodes := by
  induction within with
  | self => exact root.mem_nodes_self
  | @part e part _ inside ih =>
    have child := Expr.nodes_subset_of_mem_children (Expr.mem_children_of_mem_parts inside)
    exact root.nodes_subset_of_mem_nodes ih (child part.mem_nodes_self)

end Vectorial
