import Vectorial.Call.Matching
import Vectorial.Evaluation.Variable

/-!
# Calls

A call first matches its actuals with the parameters of the callee. Only then is it
entered: it is on the call stack while a frame is made, defaults are filled in and the
body is evaluated. Leaving it gives an error the backtrace of the calls in progress.

Matching depends on the call site and the callee only, so that its outcome may be kept.

## Main definitions

* `EvalM.matchKnown`: matching, with outcomes kept;
* `EvalM.inCall`: a step inside a call;
* `EvalM.callClosure`, `EvalM.callBuiltin`, `EvalM.call`: calls.
-/

namespace Vectorial.EvalM

/-- How an expression is evaluated in a frame. -/
abbrev Evaluator := Expr → FrameId → EvalM Value

/-! ### Matching -/

/-- The binding known for a call. -/
def knownBinding (cache : BindingCache) (key : NodeId × Callee) : Option Binding :=
  (cache.find? fun entry => entry.1 == key).map Prod.snd

/-- Matches a call. Where bindings are kept, that of an earlier call from the same site to
the same callee is used, and a new one is kept. A call without a site is not known
later. -/
def matchKnown (site : Option Site) (callee : Callee) (formals : Formals)
    (labels : List (Option Symbol)) : EvalM Binding := do
  let m ← get
  match m.cache, site with
  | some cache, some site =>
    let key := (site.id, callee)
    match knownBinding cache key with
    | some binding => pure binding
    | none => do
      let binding ← Run.ofCause (Matching.matchCall formals labels)
      modify fun m => { m with cache := some ((key, binding) :: cache) }
      pure binding
  | _, _ => Run.ofCause (Matching.matchCall formals labels)

/-! ### Entering and leaving -/

/-- Puts a call on the stack. -/
def enter (name : Symbol) (site : Option Site) : EvalM Unit := do
  let m ← get
  let stack ← backtraced (Run.ofCause (m.stack.push ⟨name, site.map Site.span⟩))
  modify fun m => { m with stack }

/-- Takes the innermost call from the stack. -/
def leave : EvalM Unit := do
  let m ← get
  let stack ← Run.ofDefect m.stack.pop
  modify fun m => { m with stack }

/-- A step inside a call: the call is on the stack while it runs, and is taken off after
an error too. -/
def inCall {α : Type} (name : Symbol) (site : Option Site) (step : EvalM α) : EvalM α := do
  enter name site
  fun m =>
    match backtraced step m with
    | .ok a m => (do leave; pure a : EvalM α) m
    | .error (.error e) m => (do leave; throw (.error e) : EvalM α) m
    | .error stop m => .error stop m

/-! ### Closures -/

/-- The frame of a call, entered among the activations. -/
def newFrame (layout : Layout) (binding : Binding) (actuals : Parts) (env : FrameId) :
    EvalM FrameId :=
  modifyGet fun m =>
    let (storage, heap) := m.heap.newStorage
    let (id, heap) := heap.allocate (.ofCall layout binding actuals storage env)
    (id, { m with heap, activations := id :: m.activations })

/-- Evaluates the default of one parameter in the frame, unless the parameter is bound or
has none. -/
def fillDefault (evaluate : Evaluator) (layout : Layout) (frame : FrameId) (index : Nat) :
    EvalM Unit := do
  let m ← get
  if (m.heap.get frame index).isNone then
    match layout.defaultFor index with
    | none => pure ()
    | some default => do
      let value ← evaluate default frame
      let m ← get
      let m ← Run.ofDefect (m.setSlot frame index value)
      set m

/-- Evaluates defaults in the order of the parameters. -/
def fillDefaults (evaluate : Evaluator) (layout : Layout) (frame : FrameId) : EvalM Unit :=
  (List.range layout.params.length).forM (fillDefault evaluate layout frame)

/-- Calls a closure. -/
def callClosure (evaluate : Evaluator) (layout : Layout) (env : FrameId) (actuals : Parts)
    (site : Option Site) : EvalM Value := do
  let binding ← backtraced <|
    matchKnown site (.literal layout.literal) layout.formals (actuals.map Prod.fst)
  inCall layout.name site do
    let frame ← newFrame layout binding actuals env
    fillDefaults evaluate layout frame
    evaluate layout.body frame

/-! ### Builtins -/

/-- Calls the builtin of a handle under the name of the handle. -/
def callBuiltin (context : Context) (name : Symbol) (handle : Nat) (actuals : Parts)
    (site : Option Site) : EvalM Value := do
  match context.builtins.get handle with
  | none => Run.fail (.notCallable "builtin")
  | some builtin => do
    let binding ← backtraced <|
      matchKnown site (.builtin handle) builtin.formals (actuals.map Prod.fst)
    inCall name site do
      let value ← onHeap (HeapM.operate (builtin.run ⟨builtin.formals, binding, actuals⟩))
      counted context.mode value

/-! ### Any callee -/

/-- Calls a value. An error of a call from a site gets the place of the site, unless it has
one. -/
def call (context : Context) (evaluate : Evaluator) (callee : Value) (actuals : Parts)
    (site : Option Site) : EvalM Value :=
  Run.located (site.map Site.span) <|
    match callee with
    | .closure layout env => callClosure evaluate layout env actuals site
    | .builtin name handle => callBuiltin context name handle actuals site
    | other => backtraced (Run.fail (.notCallable other.typeName))

end Vectorial.EvalM
