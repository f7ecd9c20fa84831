import Vectorial.Proofs.Session

/-!
# Calls are taken off the stack again

A call is put on the stack before its frame is made and is taken off when its body has
ended, whether with a value or with an error. So every evaluation that ends leaves the
stack as it found it, and the call on top of the stack is always the one being left: a pop
gives back the stack from before the call, and never meets an empty stack.

A step that is broken off, by a defect or because evaluation went too deep, may leave calls
on the stack, but no more than the limit of the mode allows.

## Main definitions

* `CallStack.Within`: stacks within their limit;
* `EvalM.Balanced`: steps that leave the stack as they found it;
* `EvalM.CallBody`, `EvalM.Leaves`: what is done inside a call, and the machines in which a
  call is left.

## Main results

* `EvalM.balanced_inCall`: a step inside a call is balanced if the step is;
* `EvalM.balanced_eval`, `EvalM.balanced_call`: evaluation and calls are balanced;
* `EvalM.within_of_visits`: every moment of an evaluation is within the limit;
* `Interpreter.calls_are_balanced`: so it is throughout every session.
-/

namespace Vectorial

namespace CallStack

variable {stack pushed : CallStack} {frame : CallFrame}

/-- Whether no more calls are in progress than the limit allows. -/
def Within (stack : CallStack) : Prop :=
  ∀ limit, stack.limit = some limit → stack.depth ≤ limit

theorem eq_of_push (done : stack.push frame = .ok pushed) :
    pushed = { stack with frames := frame :: stack.frames } ∧ stack.isFull = false := by
  rw [push] at done
  by_cases full : stack.isFull
  · rw [if_pos full] at done
    cases done
  · rw [if_neg full] at done
    cases done
    exact ⟨rfl, by simpa using full⟩

/-- There is room for a call that is pushed. -/
theorem within_of_push (done : stack.push frame = .ok pushed) : pushed.Within := by
  obtain ⟨rfl, room⟩ := eq_of_push done
  intro limit limited
  replace limited : stack.limit = some limit := limited
  have free : ¬limit ≤ stack.depth := by simpa [isFull, limited] using room
  simp only [depth, List.length_cons] at free ⊢
  omega

theorem limit_of_push (done : stack.push frame = .ok pushed) : pushed.limit = stack.limit := by
  rw [(eq_of_push done).1]

/-- A pop undoes a push. -/
theorem pop_of_push (done : stack.push frame = .ok pushed) : pushed.pop = .ok stack := by
  rw [(eq_of_push done).1]
  rfl

end CallStack

namespace EvalM

variable {α β : Type} {step : EvalM α} {m later : Machine}

/-! ### Balanced steps -/

/-- How a step leaves the stack that it finds. After a result or an error the stack is the same
again; when the step is broken off it is still within its limit. -/
def Settles (before : CallStack) : EStateM.Result Stop Machine α → Prop
  | .ok _ later => later.stack = before
  | .error (.error _) later => later.stack = before
  | .error _ later => later.stack.limit = before.limit ∧ (before.Within → later.stack.Within)

/-- A step that leaves every stack as it finds it. -/
def Balanced (step : EvalM α) : Prop :=
  ∀ m, Settles m.stack (step m)

namespace Balanced

theorem ok (balanced : Balanced step) {a : α} (done : step m = .ok a later) :
    later.stack = m.stack := by
  have settles := balanced m
  rw [done] at settles
  exact settles

theorem error (balanced : Balanced step) {e : EvalError}
    (done : step m = .error (.error e) later) : later.stack = m.stack := by
  have settles := balanced m
  rw [done] at settles
  exact settles

theorem pure (a : α) : Balanced (Pure.pure a) :=
  fun _ => rfl

theorem stop (stop : Stop) : Balanced (throw stop : EvalM α) := by
  intro m
  cases stop with
  | error e => exact rfl
  | defect defect => exact ⟨rfl, id⟩
  | exhausted => exact ⟨rfl, id⟩

theorem bind {next : α → EvalM β} (first : Balanced step) (second : ∀ a, Balanced (next a)) :
    Balanced (step >>= next) := by
  intro m
  have settles := first m
  change Settles m.stack (EStateM.bind step next m)
  rw [EStateM.bind]
  cases outcome : step m with
  | ok a later =>
    rw [outcome] at settles
    replace settles : later.stack = m.stack := settles
    rw [← settles]
    exact second a later
  | error stop later =>
    rw [outcome] at settles
    cases stop <;> exact settles

/-- A step may look at the machine first. -/
theorem get {next : Machine → EvalM α} (balanced : ∀ m, Balanced (next m)) :
    Balanced (MonadState.get >>= next) :=
  fun m => balanced m m

theorem modifying {change : Machine → Machine} (same : ∀ m, (change m).stack = m.stack) :
    Balanced (modify change : EvalM Unit) :=
  same

theorem ofExcept {ε : Type} (stops : ε → Stop) (result : Except ε α) :
    Balanced (Run.ofExcept stops result) := by
  cases result with
  | ok a => exact .pure a
  | error e => exact .stop _

theorem amend {change : Machine → EvalError → EvalError} (balanced : Balanced step) :
    Balanced (Run.amend change step) := by
  intro m
  have settles := balanced m
  rw [Run.amend]
  cases outcome : step m with
  | ok a later =>
    rw [outcome] at settles
    exact settles
  | error stop later =>
    rw [outcome] at settles
    cases stop <;> exact settles

theorem located (balanced : Balanced step) (span : Option Span) :
    Balanced (Run.located span step) := by
  cases span with
  | none => exact balanced
  | some span => exact balanced.amend

theorem onHeap (work : HeapM α) : Balanced (EvalM.onHeap work) := by
  intro m
  rw [EvalM.onHeap, Run.within]
  cases work m.heap with
  | ok a heap => exact rfl
  | error stop heap =>
    cases stop with
    | error e => exact rfl
    | defect defect => exact ⟨rfl, id⟩
    | exhausted => exact ⟨rfl, id⟩

theorem counted (mode : Mode) (v : Value) : Balanced (EvalM.counted mode v) := by
  rw [EvalM.counted]
  split
  · exact .onHeap _
  · exact .pure v

/-- A change of the machine that leaves the stack alone, before a balanced step. -/
theorem changing {change : Machine → Except Defect Machine} {next : EvalM α}
    (same : ∀ m later, change m = .ok later → later.stack = m.stack) (balanced : Balanced next) :
    Balanced (do
      let m ← MonadState.get
      let m ← Run.ofDefect (change m)
      MonadState.set m
      next) := by
  intro m
  change Settles m.stack
    ((Run.ofDefect (change m) >>= fun m => do MonadState.set m; next : EvalM α) m)
  cases changed : change m with
  | error defect => exact ⟨rfl, id⟩
  | ok later =>
    rw [← same m later changed]
    exact balanced later

end Balanced

/-! ### Calls -/

theorem stack_of_setSlot {frame : FrameId} {slot : Nat} {v : Value}
    (bound : m.setSlot frame slot v = .ok later) : later.stack = m.stack := by
  obtain ⟨heap, -, rfl⟩ := Machine.exists_of_setSlot bound
  rfl

/-- A variable is bound in a frame or among the global ones, away from the stack. -/
theorem stack_of_bindAt {place : Option (FrameId × Nat)} {name : Symbol} {v : Value}
    (done : m.bindAt place name v = .ok later) : later.stack = m.stack := by
  cases place with
  | some place => exact stack_of_setSlot done
  | none =>
    cases done
    rfl

theorem balanced_bindVariable {assign : Machine → Except Defect Machine} (v : Value)
    (same : ∀ m later, assign m = .ok later → later.stack = m.stack) :
    Balanced (bindVariable assign v) :=
  .changing same (.pure v)

theorem balanced_matchKnown (site : Option Site) (callee : Callee) (formals : Formals)
    (labels : List (Option Symbol)) : Balanced (matchKnown site callee formals labels) := by
  refine .get fun m => ?_
  split
  · dsimp only
    split
    · exact .pure _
    · exact .bind (.ofExcept _ _) fun binding =>
        .bind (.modifying fun _ => rfl) fun _ => .pure binding
  · exact .ofExcept _ _

/-- Entering a call pushes it, unless there is no room. -/
theorem enter_eq (name : Symbol) (site : Option Site) (m : Machine) :
    enter name site m =
      match m.stack.push ⟨name, site.map Site.span⟩ with
      | .ok stack => .ok () { m with stack }
      | .error cause => .error (.error (m.stack.attach { cause })) m := by
  rw [enter]
  change (backtraced (Run.ofCause (m.stack.push ⟨name, site.map Site.span⟩)) >>= fun stack =>
    modify fun m => { m with stack } : EvalM Unit) m = _
  cases m.stack.push ⟨name, site.map Site.span⟩ <;> rfl

theorem leave_eq_of_pop {stack : CallStack} (popped : m.stack.pop = .ok stack) :
    leave m = .ok () { m with stack } := by
  change (Run.ofDefect m.stack.pop >>= fun stack =>
    modify fun m => { m with stack } : EvalM Unit) m = _
  rw [popped]
  rfl

/-- A call is left after a result and after an error. -/
theorem inCall_eq (name : Symbol) (site : Option Site) (step : EvalM α) (m : Machine) :
    inCall name site step m =
      match enter name site m with
      | .error stop m₁ => .error stop m₁
      | .ok () m₁ =>
        match step m₁ with
        | .ok a m₂ => (do leave; pure a : EvalM α) m₂
        | .error (.error e) m₂ => (do leave; throw (.error (m₂.stack.attach e)) : EvalM α) m₂
        | .error stop m₂ => .error stop m₂ := by
  simp only [inCall, bind, EStateM.bind]
  cases enter name site m with
  | error stop m₁ => rfl
  | ok _ m₁ =>
    simp only [backtraced, Run.amend]
    cases step m₁ with
    | ok a m₂ => rfl
    | error stop m₂ => cases stop <;> rfl

/-- The machines in which a call is left: the step inside it has ended, with a result or with an
error. -/
inductive Leaves (name : Symbol) (site : Option Site) (step : EvalM α) (m : Machine) :
    Machine → Prop where
  | result {m₁ m₂ : Machine} {a : α} :
      enter name site m = .ok () m₁ → step m₁ = .ok a m₂ → Leaves name site step m m₂
  | error {m₁ m₂ : Machine} {e : EvalError} :
      enter name site m = .ok () m₁ → step m₁ = .error (.error e) m₂ →
      Leaves name site step m m₂

theorem push_of_enter {name : Symbol} {site : Option Site}
    (entered : enter name site m = .ok () later) :
    m.stack.push ⟨name, site.map Site.span⟩ = .ok later.stack := by
  rw [enter_eq] at entered
  cases pushed : m.stack.push ⟨name, site.map Site.span⟩ with
  | error cause => rw [pushed] at entered; cases entered
  | ok stack =>
    rw [pushed] at entered
    cases entered
    rfl

/-- The call that is left is the one on top of the stack. -/
theorem Leaves.push (balanced : Balanced step) {name : Symbol} {site : Option Site}
    (leaves : Leaves name site step m later) :
    m.stack.push ⟨name, site.map Site.span⟩ = .ok later.stack := by
  cases leaves with
  | result entered done =>
    rw [balanced.ok done]
    exact push_of_enter entered
  | error entered done =>
    rw [balanced.error done]
    exact push_of_enter entered

/-- A step inside a call is balanced. -/
theorem balanced_inCall {name : Symbol} {site : Option Site} (balanced : Balanced step) :
    Balanced (inCall name site step) := by
  intro m
  rw [inCall_eq]
  cases entered : enter name site m with
  | error stop m₁ =>
    rw [enter_eq] at entered
    split at entered
    · cases entered
    · cases entered
      exact rfl
  | ok _ m₁ =>
    have pushed := push_of_enter entered
    have popped {later : Machine} (same : later.stack = m₁.stack) :
        later.stack.pop = .ok m.stack := by
      rw [same]
      exact CallStack.pop_of_push pushed
    have settles := balanced m₁
    dsimp only
    cases outcome : step m₁ with
    | ok a m₂ =>
      rw [outcome] at settles
      simp only [bind, EStateM.bind, leave_eq_of_pop (popped settles)]
      exact rfl
    | error stop m₂ =>
      rw [outcome] at settles
      cases stop with
      | error e =>
        simp only [bind, EStateM.bind, leave_eq_of_pop (popped settles)]
        exact rfl
      -- The call stays on the stack, which had room for it.
      | defect defect =>
        exact ⟨settles.1.trans (CallStack.limit_of_push pushed),
          fun _ => settles.2 (CallStack.within_of_push pushed)⟩
      | exhausted =>
        exact ⟨settles.1.trans (CallStack.limit_of_push pushed),
          fun _ => settles.2 (CallStack.within_of_push pushed)⟩

/-! ### What is done inside a call -/

/-- What is done inside the call of a closure, once its actuals are matched. -/
def insideClosure (evaluate : Evaluator) (layout : Layout) (binding : Binding) (actuals : Parts)
    (env : FrameId) : EvalM Value := do
  let frame ← newFrame layout binding actuals env
  fillDefaults evaluate layout frame
  evaluate layout.body frame

/-- What is done inside the call of a builtin, once its actuals are matched. -/
def insideBuiltin (context : Context) (builtin : Builtin) (binding : Binding) (actuals : Parts) :
    EvalM Value := do
  let value ← onHeap (HeapM.operate (builtin.run ⟨builtin.formals, binding, actuals⟩))
  counted context.mode value

/-- The steps that are done inside a call of the given name. -/
inductive CallBody (context : Context) (evaluate : Evaluator) : Symbol → EvalM Value → Prop where
  | closure (layout : Layout) (binding : Binding) (actuals : Parts) (env : FrameId) :
      CallBody context evaluate layout.name (insideClosure evaluate layout binding actuals env)
  | builtin (name : Symbol) (builtin : Builtin) (binding : Binding) (actuals : Parts) :
      CallBody context evaluate name (insideBuiltin context builtin binding actuals)

theorem callClosure_eq (evaluate : Evaluator) (layout : Layout) (env : FrameId) (actuals : Parts)
    (site : Option Site) :
    callClosure evaluate layout env actuals site = (do
      let binding ← backtraced <|
        matchKnown site (.literal layout.literal) layout.formals (actuals.map Prod.fst)
      inCall layout.name site (insideClosure evaluate layout binding actuals env)) :=
  rfl

theorem callBuiltin_eq {context : Context} {handle : Nat} {builtin : Builtin}
    (known : context.builtins.get handle = some builtin) (name : Symbol) (actuals : Parts)
    (site : Option Site) :
    callBuiltin context name handle actuals site = (do
      let binding ← backtraced <|
        matchKnown site (.builtin handle) builtin.formals (actuals.map Prod.fst)
      inCall name site (insideBuiltin context builtin binding actuals)) := by
  simp only [callBuiltin, known]
  rfl

variable {context : Context} {evaluate : Evaluator}

theorem balanced_newFrame (layout : Layout) (binding : Binding) (actuals : Parts)
    (env : FrameId) : Balanced (newFrame layout binding actuals env) :=
  fun _ => rfl

theorem balanced_fillDefault (balanced : ∀ e frame, Balanced (evaluate e frame)) (layout : Layout)
    (frame : FrameId) (index : Nat) : Balanced (fillDefault evaluate layout frame index) := by
  rw [fillDefault]
  refine .get fun m => ?_
  split
  · split
    · exact .pure ()
    · next default _ =>
      refine (balanced default frame).bind fun v => ?_
      exact .changing (fun _ _ => stack_of_setSlot) (.pure ())
  · exact .pure ()

theorem balanced_forM_fillDefault (balanced : ∀ e frame, Balanced (evaluate e frame))
    (layout : Layout) (frame : FrameId) (indices : List Nat) :
    Balanced (indices.forM (fillDefault evaluate layout frame)) := by
  induction indices with
  | nil => exact .pure ()
  | cons index rest ih => exact (balanced_fillDefault balanced layout frame index).bind fun _ => ih

theorem balanced_insideClosure (balanced : ∀ e frame, Balanced (evaluate e frame))
    (layout : Layout) (binding : Binding) (actuals : Parts) (env : FrameId) :
    Balanced (insideClosure evaluate layout binding actuals env) := by
  refine (balanced_newFrame layout binding actuals env).bind fun frame => ?_
  refine (balanced_forM_fillDefault balanced layout frame _).bind fun _ => ?_
  exact balanced layout.body frame

theorem balanced_insideBuiltin (builtin : Builtin) (binding : Binding) (actuals : Parts) :
    Balanced (insideBuiltin context builtin binding actuals) :=
  (Balanced.onHeap _).bind fun v => .counted context.mode v

theorem CallBody.balanced (evaluation : ∀ e frame, Balanced (evaluate e frame)) {name : Symbol}
    {inside : EvalM Value} (body : CallBody context evaluate name inside) : Balanced inside := by
  cases body with
  | closure layout binding actuals env =>
    exact balanced_insideClosure evaluation layout binding actuals env
  | builtin _ builtin binding actuals => exact balanced_insideBuiltin builtin binding actuals

/-! ### Evaluation -/

/-- A call is balanced: it is on the stack only after its actuals are matched, and until its body
has ended. -/
theorem balanced_call_of (balanced : ∀ e frame, Balanced (evaluate e frame)) (callee : Value)
    (actuals : Parts) (site : Option Site) :
    Balanced (call context evaluate callee actuals site) := by
  refine Balanced.located ?_ _
  split
  · next layout env =>
    rw [callClosure_eq]
    refine (balanced_matchKnown _ _ _ _).amend.bind fun binding => ?_
    exact balanced_inCall (balanced_insideClosure balanced layout binding actuals env)
  · next name handle =>
    cases known : context.builtins.get handle with
    | none =>
      simp only [callBuiltin, known]
      exact .stop _
    | some builtin =>
      rw [callBuiltin_eq known]
      refine (balanced_matchKnown _ _ _ _).amend.bind fun binding => ?_
      exact balanced_inCall (balanced_insideBuiltin builtin binding actuals)
  · exact (Balanced.stop _).amend

theorem balanced_evalActuals (balanced : ∀ e frame, Balanced (evaluate e frame))
    (frame : FrameId) (actuals : List (Option Symbol × Expr)) :
    Balanced (evalActuals evaluate frame actuals) := by
  induction actuals with
  | nil => exact .pure []
  | cons actual rest ih =>
    exact (balanced actual.2 frame).bind fun first => ih.bind fun others => .pure _

theorem balanced_evalBlock (balanced : ∀ e frame, Balanced (evaluate e frame)) (frame : FrameId)
    (body : List Expr) (last : Value) : Balanced (evalBlock evaluate frame last body) := by
  induction body generalizing last with
  | nil => exact .pure last
  | cons e rest ih => exact (balanced e frame).bind ih

theorem balanced_test (site : Site) (v : Value) : Balanced (test site v) :=
  (Balanced.onHeap _).located _

/-- If the evaluation of parts is balanced, evaluation is. -/
theorem balanced_step (balanced : ∀ e frame, Balanced (evaluate e frame)) (e : Expr)
    (frame : FrameId) : Balanced (EvalM.step context evaluate e frame) := by
  -- One case for each form of expression; only a call touches the stack itself.
  cases e with
  | literal site value => exact .pure _
  | ident site name =>
    exact (Balanced.get fun m => .ofExcept _ (m.read name frame)).located (some site.span)
  | assign site target value =>
    exact (balanced value frame).bind fun v =>
      balanced_bindVariable v fun _ _ => stack_of_bindAt
  | superAssign site target value =>
    exact (balanced value frame).bind fun v =>
      balanced_bindVariable v fun _ _ => stack_of_bindAt
  | function site params body =>
    cases known : context.program.layout? site.id with
    | some layout =>
      rw [step_function_of_some evaluate params body frame known]
      exact .pure _
    | none =>
      rw [step_function_of_none evaluate params body frame known]
      exact (Balanced.stop _).located _
  | call site callee actuals =>
    refine (balanced callee frame).bind fun v => ?_
    refine (balanced_evalActuals balanced frame actuals).bind fun parts => ?_
    exact balanced_call_of balanced v parts (some site)
  | binary site op left right =>
    refine (balanced left frame).bind fun l => ?_
    refine (balanced right frame).bind fun r => ?_
    refine ((Balanced.onHeap _).located _).bind fun v => ?_
    exact .counted context.mode v
  | branch site condition thenBranch elseBranch =>
    refine (balanced condition frame).bind fun v => ?_
    refine (balanced_test site v).bind fun holds => ?_
    split
    · exact balanced thenBranch frame
    · split
      · next elseBranch => exact balanced elseBranch frame
      · exact .pure _
  | block site body => exact balanced_evalBlock balanced frame body .null

/-- Evaluation to any depth is balanced. -/
theorem balanced_eval (context : Context) (depth : Nat) (e : Expr) (frame : FrameId) :
    Balanced (eval context depth e frame) := by
  induction depth generalizing e frame with
  | zero => exact .stop _
  | succ depth ih => exact balanced_step ih e frame

theorem balanced_call (context : Context) (depth : Nat) (callee : Value) (actuals : Parts)
    (site : Option Site) : Balanced (call context (eval context depth) callee actuals site) :=
  balanced_call_of (balanced_eval context depth) callee actuals site

/-! ### Moments -/

/-- Stacks that came about inside another: they have the same limit, and keep within it. -/
structure Nests (before after : CallStack) : Prop where
  limit_eq : after.limit = before.limit
  within : before.Within → after.Within

namespace Nests

theorem of_eq {before after : CallStack} (same : after = before) : Nests before after := by
  rw [same]
  exact ⟨rfl, id⟩

theorem trans {before between after : CallStack} (first : Nests before between)
    (second : Nests between after) : Nests before after :=
  ⟨second.limit_eq.trans first.limit_eq, fun within => second.within (first.within within)⟩

theorem of_push {before after : CallStack} {frame : CallFrame}
    (pushed : before.push frame = .ok after) : Nests before after :=
  ⟨CallStack.limit_of_push pushed, fun _ => CallStack.within_of_push pushed⟩

end Nests

theorem nests_of_inOrder (balanced : ∀ e frame, Balanced (evaluate e frame)) {frame : FrameId}
    {es : List Expr} {moment : Moment} (visited : InOrder evaluate frame es m moment) :
    Nests m.stack moment.machine.stack := by
  induction visited with
  | first => exact .of_eq rfl
  | later done _ ih => exact (Nests.of_eq ((balanced _ frame).ok done)).trans ih

theorem nests_of_entered {layout : Layout} {env frame : FrameId} {actuals : Parts}
    {site : Option Site} (opened : entered layout env actuals site m = .ok frame later) :
    Nests m.stack later.stack := by
  rw [entered] at opened
  obtain ⟨binding, m₁, matched, opened⟩ := ok_of_bind opened
  obtain ⟨_, m₂, pushed, made⟩ := ok_of_bind opened
  -- Matching and making the frame leave the stack alone; in between the call is pushed.
  have same₁ : m₁.stack = m.stack := (balanced_matchKnown _ _ _ _).amend.ok matched
  have same₂ : later.stack = m₂.stack := (balanced_newFrame _ _ _ _).ok made
  exact ((Nests.of_eq same₁).trans (.of_push (push_of_enter pushed))).trans (.of_eq same₂)

theorem nests_of_callPart (balanced : ∀ e frame, Balanced (evaluate e frame)) {layout : Layout}
    {env : FrameId} {actuals : Parts} {site : Option Site} {moment : Moment}
    (visited : CallPart evaluate layout env actuals site m moment) :
    Nests m.stack moment.machine.stack := by
  cases visited with
  | default opened filled =>
    have same := (balanced_forM_fillDefault balanced _ _ _).ok filled
    exact (nests_of_entered opened).trans (.of_eq same)
  | body opened filled =>
    have same := (balanced_forM_fillDefault balanced _ _ _).ok filled
    exact (nests_of_entered opened).trans (.of_eq same)

theorem nests_of_part (balanced : ∀ e frame, Balanced (evaluate e frame)) {outer moment : Moment}
    (visited : Part evaluate outer moment) : Nests outer.machine.stack moment.machine.stack := by
  cases visited with
  | strict inOrder => exact nests_of_inOrder balanced inOrder
  | thenBranch done holds =>
    exact (Nests.of_eq ((balanced _ _).ok done)).trans (.of_eq ((balanced_test _ _).ok holds))
  | elseBranch done fails =>
    exact (Nests.of_eq ((balanced _ _).ok done)).trans (.of_eq ((balanced_test _ _).ok fails))
  | call done given visited =>
    have same₁ := (balanced _ _).ok done
    have same₂ := (balanced_evalActuals balanced _ _).ok given
    exact ((Nests.of_eq same₁).trans (.of_eq same₂)).trans (nests_of_callPart balanced visited)

/-- The stack of a moment has come about inside that of the moments around it. -/
theorem nests_of_visits {depth : Nat} {outer moment : Moment}
    (visits : Visits context depth outer moment) :
    Nests outer.machine.stack moment.machine.stack := by
  induction visits with
  | here => exact .of_eq rfl
  | inside part _ ih => exact (nests_of_part (balanced_eval context _) part).trans ih

end EvalM

namespace Interpreter

open EvalM

/-! ### Sessions -/

/-- An answer is final unless evaluation was broken off. -/
def Final : Except Stop Value → Prop
  | .ok _ => True
  | .error (.error _) => True
  | .error _ => False

variable {interpreter : Interpreter}

/-- A request leaves the stack of the interpreter as it finds it, unless it is broken off, and then
the stack is still within its limit. -/
structure KeepsStack (interpreter : Interpreter)
    (outcome : Except Stop Value × Interpreter) : Prop where
  same : Final outcome.1 → outcome.2.machine.stack = interpreter.machine.stack
  nests : Nests interpreter.machine.stack outcome.2.machine.stack

theorem keepsStack_perform {step : EvalM Value} (balanced : Balanced step) :
    interpreter.KeepsStack (interpreter.perform step) := by
  have settles := balanced interpreter.machine
  rw [perform]
  cases outcome : step interpreter.machine with
  | ok v machine =>
    rw [outcome] at settles
    exact ⟨fun _ => settles, .of_eq settles⟩
  | error stop machine =>
    rw [outcome] at settles
    cases stop with
    | error e =>
      have kept : ({ interpreter with machine }.report e.report).machine.stack =
          interpreter.machine.stack := by
        rw [machine_report]
        exact settles
      exact ⟨fun _ => kept, .of_eq kept⟩
    | defect defect => exact ⟨False.elim, ⟨settles.1, settles.2⟩⟩
    | exhausted => exact ⟨False.elim, ⟨settles.1, settles.2⟩⟩

theorem keepsStack_serve (interpreter : Interpreter) (request : Request) :
    interpreter.KeepsStack (interpreter.serve request) := by
  cases request with
  | run depth => exact keepsStack_perform (balanced_eval _ depth _ _)
  | call depth callee actuals => exact keepsStack_perform (balanced_call _ depth _ _ _)
  | setGlobal name value =>
    unfold serve
    dsimp only
    split
    · next after done =>
      have same : after.machine.stack = interpreter.machine.stack := by
        obtain ⟨machine, bound, rfl⟩ := bindAt_of_setGlobal done
        exact stack_of_bindAt bound
      exact ⟨fun _ => same, .of_eq same⟩
    · exact ⟨False.elim, .of_eq rfl⟩

theorem stack_after {requests : List Request}
    (final : ∀ answer ∈ interpreter.answers requests, Final answer) :
    (interpreter.after requests).machine.stack = interpreter.machine.stack := by
  induction requests generalizing interpreter with
  | nil => rfl
  | cons request rest ih =>
    have later := ih fun answer member => final answer (List.mem_cons_of_mem _ member)
    exact later.trans ((interpreter.keepsStack_serve request).same (final _ List.mem_cons_self))

theorem nests_of_serves {request : Request} {moment : Moment}
    (serves : interpreter.Serves request moment) :
    Nests interpreter.machine.stack moment.machine.stack := by
  cases serves with
  | run visits => exact nests_of_visits visits
  | call part visits =>
    exact (nests_of_callPart (balanced_eval _ _) part).trans (nests_of_visits visits)

theorem nests_of_evaluates {requests : List Request} {moment : Moment}
    (evaluates : interpreter.Evaluates requests moment) :
    Nests interpreter.machine.stack moment.machine.stack := by
  induction requests generalizing interpreter with
  | nil => exact evaluates.elim
  | cons request rest ih =>
    rcases evaluates with serves | later
    · exact nests_of_serves serves
    · exact (interpreter.keepsStack_serve request).nests.trans (ih later)

/-- Calls are balanced. A request that is answered, with a value or with an error, leaves the stack
as it finds it, so that between requests the stack is empty. At no moment of a session are there
more calls on it than the mode allows, a call that has just been entered included. Every evaluation
and every call inside leaves the stack as it finds it. And the call that is left is there to be
taken off: what remains is the stack from before the call. -/
theorem calls_are_balanced {settings : Settings} {heap : Heap} {interpreter : Interpreter}
    {requests : List Request} (built : build settings heap = .ok interpreter) :
    (∀ request, Final ((interpreter.after requests).serve request).1 →
      ((interpreter.after requests).serve request).2.machine.stack =
        (interpreter.after requests).machine.stack) ∧
    ((∀ answer ∈ interpreter.answers requests, Final answer) →
      (interpreter.after requests).machine.stack = ⟨[], settings.mode.limit⟩) ∧
    (∀ moment, interpreter.Evaluates requests moment →
      moment.machine.stack.limit = settings.mode.limit ∧ moment.machine.stack.Within) ∧
    (∀ name site m later, enter name site m = .ok () later → later.stack.Within) ∧
    (∀ depth e frame, Balanced (eval interpreter.context depth e frame)) ∧
    (∀ depth callee actuals site,
      Balanced (call interpreter.context (eval interpreter.context depth) callee actuals site)) ∧
    ∀ depth name site inside m later,
      CallBody interpreter.context (eval interpreter.context depth) name inside →
      Leaves name site inside m later → later.stack.pop = .ok m.stack := by
  have empty : interpreter.machine.stack = ⟨[], settings.mode.limit⟩ := by
    obtain ⟨program, -, rfl⟩ := build_eq_ok built
    rfl
  refine ⟨?_, ?_, ?_, ?_, ?_, ?_, ?_⟩
  · exact fun request => ((interpreter.after requests).keepsStack_serve request).same
  · exact fun final => (stack_after final).trans empty
  · intro moment evaluates
    -- Every moment is inside some calls that have been entered from an empty stack.
    have nests := nests_of_evaluates evaluates
    rw [empty] at nests
    exact ⟨nests.limit_eq, nests.within fun limit _ => Nat.zero_le limit⟩
  · exact fun name site m later entered => CallStack.within_of_push (push_of_enter entered)
  · exact balanced_eval interpreter.context
  · exact balanced_call interpreter.context
  · intro depth name site inside m later body leaves
    have balanced := body.balanced (balanced_eval interpreter.context depth)
    exact CallStack.pop_of_push (leaves.push balanced)

/-- The program `(function(x = y) 1L)()`. -/
def failingDefault : Expr :=
  .call ⟨4, default⟩
    (.function ⟨3, default⟩ [("x", some (.ident ⟨2, default⟩ "y"))]
      (.literal ⟨1, default⟩ (.integer 1))) []

/-- Where one call may be in progress the call is while its default is evaluated. That fails, and
afterwards no call is in progress. -/
theorem calls_are_balanced_failingDefault :
    ∃ interpreter e m,
      build { top := failingDefault, mode := .bounded 1 } .empty = .ok interpreter ∧
      interpreter.answers [.run 2] = [.error (.error e)] ∧
      (interpreter.after [.run 2]).machine.stack = ⟨[], some 1⟩ ∧
      interpreter.Evaluates [.run 2] ⟨.ident ⟨2, default⟩ "y", 1, m⟩ ∧
      m.stack.depth = 1 ∧ m.stack.limit = some 1 ∧ m.stack.Within := by
  obtain ⟨interpreter, e, m, built, answered, evaluates, deep⟩ :
      ∃ interpreter e m,
        build { top := failingDefault, mode := .bounded 1 } .empty = .ok interpreter ∧
        interpreter.answers [.run 2] = [.error (.error e)] ∧
        interpreter.Evaluates [.run 2] ⟨.ident ⟨2, default⟩ "y", 1, m⟩ ∧ m.stack.depth = 1 :=
    ⟨_, _, _, rfl, rfl, .inl (.run (.inside (.call rfl rfl
      (@CallPart.default _ _ _ _ _ _ _ _ _ 0 _ rfl rfl rfl rfl)) .here)), by rfl⟩
  obtain ⟨-, empty, within, -⟩ := calls_are_balanced built
  have final (answer : Except Stop Value) (member : answer ∈ interpreter.answers [.run 2]) :
      Final answer := by
    rw [answered] at member
    rw [List.mem_singleton.mp member]
    trivial
  exact ⟨interpreter, e, m, built, answered, empty final, evaluates, deep, within _ evaluates⟩

end Interpreter

end Vectorial
