import Vectorial.Evaluation.Eval

/-!
# The moments of an evaluation

While an expression is evaluated, other expressions are: its parts, and the defaults and
the body of a function that it calls. A moment is an expression that is about to be
evaluated, with its frame and the machine as it is then. What holds at every moment holds
throughout, also when the evaluation as a whole fails or never ends.

The moments are defined beside evaluation. That none is missing is a statement of its own,
`EvalM.step_congr`: evaluators that are equal at the parts of a moment are equal at the
moment.

## Main definitions

* `Moment`: an expression about to be evaluated;
* `EvalM.Part`: the moments immediately inside a moment;
* `EvalM.Visits`: all moments inside a moment, to a bounded depth.
-/

namespace Vectorial

/-- An expression that is about to be evaluated in a frame. -/
structure Moment where
  expr : Expr
  frame : FrameId
  machine : Machine

/-- The parts of an expression that are evaluated in any case, in order. -/
def Expr.strict : Expr → List Expr
  | .literal .. => []
  | .ident .. => []
  | .assign _ _ value => [value]
  | .superAssign _ _ value => [value]
  | .function .. => []
  | .call _ callee actuals => callee :: actuals.map Prod.snd
  | .binary _ _ left right => [left, right]
  | .branch _ condition _ _ => [condition]
  | .block _ body => body

/-- The parts of an expression of which at most one is evaluated. -/
def Expr.branches : Expr → List Expr
  | .branch _ _ thenBranch elseBranch => thenBranch :: elseBranch.toList
  | _ => []

/-- The parts of an expression; those of a function literal are not its own. -/
def Expr.parts (e : Expr) : List Expr :=
  e.strict ++ e.branches

namespace EvalM

/-! ### Parts -/

/-- The moments at which the expressions of a list are evaluated one after the other. -/
inductive InOrder (evaluate : Evaluator) (frame : FrameId) :
    List Expr → Machine → Moment → Prop where
  | first {e : Expr} {rest : List Expr} {m : Machine} :
      InOrder evaluate frame (e :: rest) m ⟨e, frame, m⟩
  | later {e : Expr} {rest : List Expr} {m m' : Machine} {v : Value} {moment : Moment} :
      evaluate e frame m = .ok v m' → InOrder evaluate frame rest m' moment →
      InOrder evaluate frame (e :: rest) m moment

/-- Matches the actuals of a call, puts it on the stack and makes its frame. -/
def entered (layout : Layout) (env : FrameId) (actuals : Parts) (site : Option Site) :
    EvalM FrameId := do
  let binding ← backtraced <|
    matchKnown site (.literal layout.literal) layout.formals (actuals.map Prod.fst)
  enter layout.name site
  newFrame layout binding actuals env

/-- The moments at which a call of a closure evaluates something itself: the default of a
parameter that is still unbound, once the parameters before it are filled, and the body. -/
inductive CallPart (evaluate : Evaluator) (layout : Layout) (env : FrameId) (actuals : Parts)
    (site : Option Site) (m : Machine) : Moment → Prop where
  | default {frame : FrameId} {m₁ m₂ : Machine} {index : Nat} {e : Expr} :
      entered layout env actuals site m = .ok frame m₁ →
      (List.range index).forM (fillDefault evaluate layout frame) m₁ = .ok () m₂ →
      m₂.heap.get frame index = none → layout.defaultFor index = some e →
      CallPart evaluate layout env actuals site m ⟨e, frame, m₂⟩
  | body {frame : FrameId} {m₁ m₂ : Machine} :
      entered layout env actuals site m = .ok frame m₁ →
      fillDefaults evaluate layout frame m₁ = .ok () m₂ →
      CallPart evaluate layout env actuals site m ⟨layout.body, frame, m₂⟩

/-- The test of a condition that has the value `v`. -/
def test (site : Site) (v : Value) : EvalM Bool :=
  Run.located (some site.span) (onHeap (HeapM.attempt (truthOf v)))

/-- The moments immediately inside a moment. -/
inductive Part (evaluate : Evaluator) : Moment → Moment → Prop where
  | strict {e : Expr} {frame : FrameId} {m : Machine} {moment : Moment} :
      InOrder evaluate frame e.strict m moment → Part evaluate ⟨e, frame, m⟩ moment
  | thenBranch {site : Site} {condition thenBranch : Expr} {elseBranch : Option Expr}
      {frame : FrameId} {m m₁ m₂ : Machine} {v : Value} :
      evaluate condition frame m = .ok v m₁ → test site v m₁ = .ok true m₂ →
      Part evaluate ⟨.branch site condition thenBranch elseBranch, frame, m⟩
        ⟨thenBranch, frame, m₂⟩
  | elseBranch {site : Site} {condition thenBranch elseBranch : Expr}
      {frame : FrameId} {m m₁ m₂ : Machine} {v : Value} :
      evaluate condition frame m = .ok v m₁ → test site v m₁ = .ok false m₂ →
      Part evaluate ⟨.branch site condition thenBranch (some elseBranch), frame, m⟩
        ⟨elseBranch, frame, m₂⟩
  | call {site : Site} {callee : Expr} {actuals : List (Option Symbol × Expr)}
      {frame env : FrameId} {layout : Layout} {parts : Parts} {m m₁ m₂ : Machine}
      {moment : Moment} :
      evaluate callee frame m = .ok (.closure layout env) m₁ →
      evalActuals evaluate frame actuals m₁ = .ok parts m₂ →
      CallPart evaluate layout env parts (some site) m₂ moment →
      Part evaluate ⟨.call site callee actuals, frame, m⟩ moment

/-- The moments inside a moment, itself included, when evaluation is bounded by a depth. -/
inductive Visits (context : Context) : Nat → Moment → Moment → Prop where
  | here {depth : Nat} {moment : Moment} : Visits context (depth + 1) moment moment
  | inside {depth : Nat} {outer part moment : Moment} :
      Part (eval context depth) outer part → Visits context depth part moment →
      Visits context (depth + 1) outer moment

/-! ### Steps in sequence -/

/-- Two steps in sequence have a result only if both have. -/
theorem ok_of_bind {α β : Type} {step : EvalM α} {next : α → EvalM β} {m later : Machine} {b : β}
    (done : (step >>= next) m = .ok b later) :
    ∃ a between, step m = .ok a between ∧ next a between = .ok b later := by
  simp only [bind, EStateM.bind] at done
  cases outcome : step m with
  | ok a between =>
    rw [outcome] at done
    exact ⟨a, between, rfl, done⟩
  | error stop between =>
    rw [outcome] at done
    cases done

/-! ### Function literals -/

theorem step_function_of_some {context : Context} (evaluate : Evaluator) {site : Site}
    {layout : Layout} (params : List (Symbol × Option Expr)) (body : Expr) (frame : FrameId)
    (known : context.program.layout? site.id = some layout) :
    step context evaluate (.function site params body) frame = pure (.closure layout frame) := by
  simp only [step, known]

theorem step_function_of_none {context : Context} (evaluate : Evaluator) {site : Site}
    (params : List (Symbol × Option Expr)) (body : Expr) (frame : FrameId)
    (unknown : context.program.layout? site.id = none) :
    step context evaluate (.function site params body) frame =
      Run.located (some site.span) (Run.fail (.custom "function literal was not resolved")) := by
  simp only [step, unknown]

end EvalM

end Vectorial
