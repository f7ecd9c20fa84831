import Vectorial.Argument
import Vectorial.Evaluation.Call
import Vectorial.Operator.Binary

/-!
# Evaluation

One step says what an expression means in terms of what its parts mean; evaluation to a
bounded depth is the step iterated. A bound that is not reached makes no difference, so
that the meaning of an expression is what some bound delivers.

## Main definitions

* `EvalM.step`: the meaning of an expression from that of its parts;
* `EvalM.eval`: the meaning of an expression, to a bounded depth.
-/

namespace Vectorial.EvalM

/-- The value of a constant. -/
def literalValue : Literal → Value
  | .null => .null
  | .missing => .ofAtoms .logical [Logical.missing]
  | .logical b => .ofBool b
  | .integer i => .ofInteger i
  | .double d => .ofAtoms .double [d]
  | .text text => .ofText text

/-- The value of a name in a frame. -/
def readVariable (name : Symbol) (frame : FrameId) : EvalM Value := do
  let m ← get
  Run.ofCause (m.read name frame)

/-- Binds a name by one of the two assignments; the value assigned is the result. -/
def bindVariable (assign : Machine → Except Defect Machine) (value : Value) : EvalM Value := do
  let m ← get
  let m ← Run.ofDefect (assign m)
  set m
  pure value

/-- The values of the actuals of a call, from left to right, with their names. -/
def evalActuals (evaluate : Evaluator) (frame : FrameId) :
    List (Option Symbol × Expr) → EvalM Parts
  | [] => pure []
  | (name, value) :: rest => do
    let first ← evaluate value frame
    let others ← evalActuals evaluate frame rest
    pure ((name, first) :: others)

/-- The value of the last of some expressions, `NULL` if there are none. -/
def evalBlock (evaluate : Evaluator) (frame : FrameId) (last : Value) : List Expr → EvalM Value
  | [] => pure last
  | e :: rest => do
    let value ← evaluate e frame
    evalBlock evaluate frame value rest

/-- The meaning of an expression in a frame, from the meaning of its parts. -/
def step (context : Context) (evaluate : Evaluator) : Evaluator
  | .literal _ value, _ => pure (literalValue value)
  | .ident site name, frame => Run.located (some site.span) (readVariable name frame)
  | .assign _ target value, frame => do
    let value ← evaluate value frame
    bindVariable (fun m => m.assign target value frame) value
  | .superAssign _ target value, frame => do
    let value ← evaluate value frame
    bindVariable (fun m => m.assignOuter target value frame) value
  | .function site _ _, frame =>
    match context.program.layout? site.id with
    | some layout => pure (.closure layout frame)
    | none => Run.located (some site.span) (Run.fail (.custom "function literal was not resolved"))
  | .call site callee actuals, frame => do
    let callee ← evaluate callee frame
    let actuals ← evalActuals evaluate frame actuals
    call context evaluate callee actuals (some site)
  | .binary site op left right, frame => do
    let left ← evaluate left frame
    let right ← evaluate right frame
    let value ← Run.located (some site.span) (onHeap (HeapM.attempt (Value.binary op left right)))
    counted context.mode value
  | .branch site condition thenBranch elseBranch, frame => do
    let condition ← evaluate condition frame
    let holds ← Run.located (some site.span) (onHeap (HeapM.attempt (truthOf condition)))
    if holds then evaluate thenBranch frame
    else match elseBranch with
      | some elseBranch => evaluate elseBranch frame
      | none => pure .null
  | .block _ body, frame => evalBlock evaluate frame .null body

/-- The meaning of an expression in a frame. Evaluation stops when expressions are nested,
calls included, deeper than `depth`. -/
def eval (context : Context) : Nat → Evaluator
  | 0 => fun _ _ => throw .exhausted
  | depth + 1 => step context (eval context depth)

end Vectorial.EvalM
