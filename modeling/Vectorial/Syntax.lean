import Vectorial.Binary64.Basic
import Vectorial.Defect
import Vectorial.Span

/-!
# Expressions

The expressions that are evaluated. Every node carries the number under which it was
allocated and its place in the source; the number is the identity of a function literal
and of a call site, so one node may occur at several places of a program.

## Main definitions

* `NodeId`, `NodeRange`: the numbers of nodes;
* `Literal`, `BinaryOp`: constants and operators;
* `Site`: the number and the span of a node;
* `Expr`: expressions;
* `Expr.site`: the number and span of an expression.
-/

namespace Vectorial

/-- The number of a node. -/
abbrev NodeId := Nat

/-- The number that no node is given. -/
def noNode : NodeId :=
  Nat.pow 2 32 - 1

/-- Nodes with consecutive numbers. -/
structure NodeRange where
  start : NodeId
  length : Nat
  deriving DecidableEq, Inhabited

/-- One past the number of the last node, which must still be a number of four bytes. -/
def NodeRange.stop (range : NodeRange) : Except Defect NodeId :=
  if range.start + range.length < Nat.pow 2 32 then .ok (range.start + range.length)
  else .error (.rangePastNodes range.start range.length)

/-- A constant. -/
inductive Literal where
  | null
  | missing
  | logical (value : Bool)
  | integer (value : Int32)
  | double (value : Binary64)
  | text (value : String)
  deriving DecidableEq, Inhabited

/-- A binary operator. -/
inductive BinaryOp where
  | add
  | sub
  | mul
  | div
  | colon
  | member
  deriving DecidableEq, Inhabited

/-- The operator as it is written. -/
def BinaryOp.sign : BinaryOp → String
  | add => "+"
  | sub => "-"
  | mul => "*"
  | div => "/"
  | colon => ":"
  | member => "%in%"

/-- The number and the span of a node. -/
structure Site where
  id : NodeId
  span : Span
  deriving DecidableEq, Inhabited

/-- An expression. A parameter may have a default, an actual may have a name, and a
condition may lack its other branch. -/
inductive Expr where
  | literal (site : Site) (value : Literal)
  | ident (site : Site) (name : Symbol)
  | assign (site : Site) (target : Symbol) (value : Expr)
  | superAssign (site : Site) (target : Symbol) (value : Expr)
  | function (site : Site) (params : List (Symbol × Option Expr)) (body : Expr)
  | call (site : Site) (callee : Expr) (actuals : List (Option Symbol × Expr))
  | binary (site : Site) (op : BinaryOp) (left right : Expr)
  | branch (site : Site) (condition thenBranch : Expr) (elseBranch : Option Expr)
  | block (site : Site) (body : List Expr)
  deriving Inhabited

namespace Expr

/-- The number and span of an expression. -/
def site : Expr → Site
  | literal site _ => site
  | ident site _ => site
  | assign site _ _ => site
  | superAssign site _ _ => site
  | function site _ _ => site
  | call site _ _ => site
  | binary site _ _ _ => site
  | branch site _ _ _ => site
  | block site _ => site

/-- The number of an expression. -/
def id (e : Expr) : NodeId :=
  e.site.id

/-- The span of an expression. -/
def span (e : Expr) : Span :=
  e.site.span

end Expr

end Vectorial
