import Vectorial.Proofs.Evaluation.Calls

/-!
# Where errors come from

An error arises when the step of one node fails although its parts have values: a name
that is bound nowhere, operands that an operator refuses, a condition that is no truth
value, or a call that gets no binding, finds no room, is of no function or is of a builtin
that refuses. From there it travels outward through the parts that contain the node and
through the calls in progress. It gets the place of that node and the calls in progress at
that point, and nothing further out changes either of them.

## Main definitions

* `Origin`: where an error arose;
* `EvalM.Fails`: a node whose own step fails;
* `EvalM.Raises`: a moment inside of which an error arises.

## Main results

* `EvalM.raises_of_error`: every error arises somewhere;
* `EvalM.error_of_raises`: what arises is the error of the evaluation;
* `Interpreter.errors_have_their_origin`: the errors that a host is given.
-/

namespace Vectorial

/-- Where an error arose: why, at which node, and in which calls, innermost first. -/
structure Origin where
  cause : Cause
  place : Span
  live : Backtrace
  deriving DecidableEq

namespace Origin

/-- The error as it reaches the host. There is no backtrace if no call was in progress. -/
def error (origin : Origin) : EvalError :=
  { cause := origin.cause
    span := some origin.place
    backtrace := if origin.live.isEmpty then none else some origin.live }

/-- The error that arises inside other calls. -/
def errorWithin (origin : Origin) (outer : Backtrace) : EvalError :=
  ({ origin with live := origin.live ++ outer } : Origin).error

/-- The origin as it is seen from outside one more call. -/
def inCall (origin : Origin) (frame : CallFrame) : Origin :=
  { origin with live := origin.live ++ [frame] }

variable {origin : Origin}

@[simp]
theorem withSpan_errorWithin (outer : Backtrace) (span : Span) :
    (origin.errorWithin outer).withSpan span = origin.errorWithin outer :=
  rfl

/-- An error that arose inside a call has a backtrace, which is kept. -/
theorem attach_errorWithin (stack : CallStack) (frame : CallFrame) :
    stack.attach (origin.errorWithin (frame :: stack.frames)) =
      (origin.inCall frame).errorWithin stack.frames := by
  obtain ⟨cause, place, live⟩ := origin
  have shifted : live ++ [frame] ++ stack.frames = live ++ frame :: stack.frames := by simp
  have nonempty : (live ++ frame :: stack.frames).isEmpty = false := by simp
  have unfolded : (Origin.mk cause place live).errorWithin (frame :: stack.frames) =
      { cause, span := some place, backtrace := some (live ++ frame :: stack.frames) } := by
    simp [errorWithin, error, nonempty]
  have outside : ((Origin.mk cause place live).inCall frame).errorWithin stack.frames =
      { cause, span := some place, backtrace := some (live ++ frame :: stack.frames) } := by
    simp [errorWithin, error, inCall, shifted, nonempty]
  rw [unfolded, outside, CallStack.attach]
  split <;> rfl

end Origin

namespace CallStack

variable (stack : CallStack)

theorem attach_attach (e : EvalError) : stack.attach (stack.attach e) = stack.attach e := by
  unfold attach
  split
  · rfl
  · simp [EvalError.withBacktrace]

theorem attach_withSpan (e : EvalError) (span : Span) :
    stack.attach (e.withSpan span) = (stack.attach e).withSpan span := by
  unfold attach
  split <;> rfl

/-- The backtrace of an error that has none is the calls in progress. -/
theorem attach_withSpan_eq (cause : Cause) (span : Span) :
    (stack.attach { cause }).withSpan span =
      (Origin.mk cause span []).errorWithin stack.frames := by
  unfold attach Origin.errorWithin Origin.error
  dsimp only
  rw [List.nil_append]
  split <;> rfl

end CallStack

/-- Whether an attempt ends in an evaluation error. -/
def Attempt.Refuses {α : Type} (attempt : Attempt α) (cause : Cause) : Prop :=
  Metered.value attempt = .error (.error cause)

namespace EvalM

variable {context : Context} {evaluate : Evaluator} {depth : Nat} {m later : Machine}
  {stop : Stop} {err : EvalError} {origin : Origin}

/-! ### Own failures -/

/-- Why the call of a value fails by itself, and the calls in progress then. Only a builtin that
refuses is in progress itself. -/
inductive CallFails (context : Context) (actuals : Parts) (site : Site) (m : Machine) :
    Value → Cause → Backtrace → Prop where
  | notCallable {callee : Value} :
      context.callable? callee = none →
      CallFails context actuals site m callee (.notCallable callee.typeName) []
  | unbound {callee : Value} {f : Callable} {cause : Cause} :
      context.callable? callee = some f →
      m.bindings (some site) f (actuals.map Prod.fst) = .error cause →
      CallFails context actuals site m callee cause []
  | full {callee : Value} {f : Callable} {binding : Binding} {bound : Machine} :
      context.callable? callee = some f →
      m.bindings (some site) f (actuals.map Prod.fst) = .ok (binding, bound) →
      m.stack.isFull → CallFails context actuals site m callee
        (.stackOverflow (m.stack.limit.getD 0)) []
  | refused {name : Symbol} {handle : Nat} {builtin : Builtin} {binding : Binding}
      {bound : Machine} {cause : Cause} :
      context.builtins.get handle = some builtin →
      m.bindings (some site) ⟨.builtin handle, name, builtin.formals⟩ (actuals.map Prod.fst) =
        .ok (binding, bound) →
      m.stack.isFull = false →
      Attempt.Refuses (builtin.run ⟨builtin.formals, binding, actuals⟩ m.heap.nextStorage) cause →
      CallFails context actuals site m (.builtin name handle) cause [⟨name, some site.span⟩]

/-- A node whose own step fails, when its parts have values. -/
inductive Fails (context : Context) (evaluate : Evaluator) : Moment → Origin → Prop where
  | ident {site : Site} {name : Symbol} {frame : FrameId} {m : Machine} {cause : Cause} :
      m.read name frame = .error cause →
      Fails context evaluate ⟨.ident site name, frame, m⟩ ⟨cause, site.span, []⟩
  | function {site : Site} {params : List (Symbol × Option Expr)} {body : Expr}
      {frame : FrameId} {m : Machine} :
      context.program.layout? site.id = none →
      Fails context evaluate ⟨.function site params body, frame, m⟩
        ⟨.custom "function literal was not resolved", site.span, []⟩
  | call {site : Site} {callee : Expr} {actuals : List (Option Symbol × Expr)}
      {frame : FrameId} {m m₁ m₂ : Machine} {v : Value} {parts : Parts} {cause : Cause}
      {live : Backtrace} :
      evaluate callee frame m = .ok v m₁ → evalActuals evaluate frame actuals m₁ = .ok parts m₂ →
      CallFails context parts site m₂ v cause live →
      Fails context evaluate ⟨.call site callee actuals, frame, m⟩ ⟨cause, site.span, live⟩
  | binary {site : Site} {op : BinaryOp} {left right : Expr} {frame : FrameId}
      {m m₁ m₂ : Machine} {l r : Value} {cause : Cause} :
      evaluate left frame m = .ok l m₁ → evaluate right frame m₁ = .ok r m₂ →
      (Value.binary op l r).Refuses cause →
      Fails context evaluate ⟨.binary site op left right, frame, m⟩ ⟨cause, site.span, []⟩
  | branch {site : Site} {condition thenBranch : Expr} {elseBranch : Option Expr}
      {frame : FrameId} {m m₁ : Machine} {v : Value} {cause : Cause} :
      evaluate condition frame m = .ok v m₁ → (truthOf v).Refuses cause →
      Fails context evaluate ⟨.branch site condition thenBranch elseBranch, frame, m⟩
        ⟨cause, site.span, []⟩

/-- An error has the place of the node whose step fails. -/
theorem Fails.place_eq {moment : Moment} (fails : Fails context evaluate moment origin) :
    origin.place = moment.expr.site.span := by
  cases fails <;> rfl

/-- An error arises at a moment or inside it: at its own node, at one of its parts, or in the
call that it makes, which is then in progress. -/
inductive Raises (context : Context) : Nat → Moment → Origin → Prop where
  | own {depth : Nat} {moment : Moment} {origin : Origin} :
      Fails context (eval context depth) moment origin →
      Raises context (depth + 1) moment origin
  | strict {depth : Nat} {e : Expr} {frame : FrameId} {m : Machine} {part : Moment}
      {origin : Origin} :
      InOrder (eval context depth) frame e.strict m part → Raises context depth part origin →
      Raises context (depth + 1) ⟨e, frame, m⟩ origin
  | thenBranch {depth : Nat} {site : Site} {condition thenBranch : Expr}
      {elseBranch : Option Expr} {frame : FrameId} {m m₁ m₂ : Machine} {v : Value}
      {origin : Origin} :
      eval context depth condition frame m = .ok v m₁ → test site v m₁ = .ok true m₂ →
      Raises context depth ⟨thenBranch, frame, m₂⟩ origin →
      Raises context (depth + 1) ⟨.branch site condition thenBranch elseBranch, frame, m⟩ origin
  | elseBranch {depth : Nat} {site : Site} {condition thenBranch elseBranch : Expr}
      {frame : FrameId} {m m₁ m₂ : Machine} {v : Value} {origin : Origin} :
      eval context depth condition frame m = .ok v m₁ → test site v m₁ = .ok false m₂ →
      Raises context depth ⟨elseBranch, frame, m₂⟩ origin →
      Raises context (depth + 1)
        ⟨.branch site condition thenBranch (some elseBranch), frame, m⟩ origin
  | inCall {depth : Nat} {site : Site} {callee : Expr} {actuals : List (Option Symbol × Expr)}
      {frame env : FrameId} {layout : Layout} {parts : Parts} {m m₁ m₂ : Machine}
      {part : Moment} {origin : Origin} :
      eval context depth callee frame m = .ok (.closure layout env) m₁ →
      evalActuals (eval context depth) frame actuals m₁ = .ok parts m₂ →
      CallPart (eval context depth) layout env parts (some site) m₂ part →
      Raises context depth part origin →
      Raises context (depth + 1) ⟨.call site callee actuals, frame, m⟩
        (origin.inCall ⟨layout.name, some site.span⟩)

/-! ### Attempts that fail -/

theorem error_attempt_iff {α : Type} {attempt : Attempt α} {later : Machine} :
    onHeap (HeapM.attempt attempt) m = .error (.error err) later ↔
      ∃ cause, attempt.Refuses cause ∧ err = { cause } ∧
        later = { m with heap := m.heap.record (Metered.ticks attempt) } := by
  simp only [onHeap, Run.within, Discipline.attempt_eq, Attempt.Refuses]
  rcases Metered.value attempt with (cause | defect) | a
  · constructor
    · rintro ⟨⟩
      exact ⟨cause, rfl, rfl, rfl⟩
    · rintro ⟨_, ⟨⟩, rfl, rfl⟩
      rfl
  all_goals
    constructor
    · rintro ⟨⟩
    · rintro ⟨_, ⟨⟩, -⟩

theorem error_operate_iff {α : Type} {operation : Operation α} :
    onHeap (HeapM.operate operation) m = .error (.error err) later ↔
      ∃ cause, Attempt.Refuses (operation m.heap.nextStorage) cause ∧ err = { cause } ∧
        later = { m with
          heap := m.heap.record (Metered.ticks (operation m.heap.nextStorage)) } := by
  -- An operation is an attempt whose success takes identities, so it fails as the attempt does.
  have fails_alike : onHeap (HeapM.operate operation) m = .error (.error err) later ↔
      onHeap (HeapM.attempt (operation m.heap.nextStorage)) m = .error (.error err) later := by
    simp only [onHeap, Run.within, Discipline.operate_eq]
    rcases HeapM.attempt (operation m.heap.nextStorage) m.heap with ⟨a, next⟩ | stop
    · constructor <;> rintro ⟨⟩
    · constructor <;>
      · rintro ⟨⟩
        rfl
  exact fails_alike.trans error_attempt_iff

/-- A value is put behind counters without failing. -/
theorem counted_ne_error (mode : Mode) (v : Value) : counted mode v m ≠ .error stop later := by
  rw [counted]
  split <;> rintro ⟨⟩

/-- An assignment does not fail with an error. -/
theorem bindVariable_ne_error {assign : Machine → Except Defect Machine} {v : Value} :
    bindVariable assign v m ≠ .error (.error err) later := by
  change (Run.ofDefect (assign m) >>= fun m => do set m; pure v : EvalM Value) m ≠ _
  cases assign m <;> rintro ⟨⟩

/-! ### What becomes of an error -/

/-- Whether an error leaves a machine as the error of its origin, when the calls in progress are
its backtrace unless it has one. -/
def Attributed (m : Machine) (origin : Origin) (err : EvalError) : Prop :=
  m.stack.attach err = origin.errorWithin m.stack.frames

theorem attributed_located (cause : Cause) (span : Span) :
    Attributed m ⟨cause, span, []⟩ (EvalError.withSpan { cause } span) := by
  rw [Attributed, CallStack.attach_withSpan, CallStack.attach_withSpan_eq]

theorem attributed_attached (cause : Cause) (span : Span) :
    Attributed m ⟨cause, span, []⟩ ((m.stack.attach { cause }).withSpan span) := by
  rw [Attributed, CallStack.attach_withSpan, CallStack.attach_attach, CallStack.attach_withSpan_eq]

theorem Attributed.of_stack_eq {between : Machine} (attributed : Attributed between origin err)
    (same : between.stack = m.stack) : Attributed m origin err := by
  rwa [Attributed, same] at attributed

/-- An error that leaves a call has the calls in progress inside as its backtrace. -/
theorem Attributed.inCall {between : Machine} {frame : CallFrame}
    (attributed : Attributed between origin err)
    (inside : between.stack = (m.within frame).stack) (span : Span) :
    Attributed m (origin.inCall frame) ((between.stack.attach err).withSpan span) := by
  have frames_eq : between.stack.frames = frame :: m.stack.frames := by rw [inside]; rfl
  rw [Attributed] at attributed ⊢
  rw [attributed, frames_eq, Origin.withSpan_errorWithin, Origin.attach_errorWithin]

/-- A builtin that refuses is in progress itself. -/
theorem attributed_inBuiltin {between : Machine} {frame : CallFrame} (cause : Cause)
    (inside : between.stack = (m.within frame).stack) (span : Span) :
    Attributed m ⟨cause, span, [frame]⟩ ((between.stack.attach { cause }).withSpan span) := by
  have frames_eq : between.stack.frames = frame :: m.stack.frames := by rw [inside]; rfl
  rw [Attributed, CallStack.attach_withSpan_eq, frames_eq, Origin.attach_errorWithin]
  rfl

theorem stack_of_inOrder (balanced : ∀ e frame, Balanced (evaluate e frame)) {frame : FrameId}
    {es : List Expr} {part : Moment} (visited : InOrder evaluate frame es m part) :
    part.machine.stack = m.stack := by
  induction visited with
  | first => rfl
  | later done _ ih => exact ih.trans ((balanced _ _).ok done)

theorem stack_of_tested (balanced : ∀ e frame, Balanced (evaluate e frame)) {condition : Expr}
    {frame : FrameId} {between : Machine} {v : Value} {site : Site} {holds : Bool}
    (done : evaluate condition frame m = .ok v between)
    (tested : test site v between = .ok holds later) : later.stack = m.stack :=
  ((balanced_test site v).ok tested).trans ((balanced _ _).ok done)

theorem stack_of_given (balanced : ∀ e frame, Balanced (evaluate e frame)) {callee : Expr}
    {frame : FrameId} {between : Machine} {v : Value} {actuals : List (Option Symbol × Expr)}
    {parts : Parts} (called : evaluate callee frame m = .ok v between)
    (given : evalActuals evaluate frame actuals between = .ok parts later) :
    later.stack = m.stack :=
  ((balanced_evalActuals balanced frame actuals).ok given).trans ((balanced _ _).ok called)

theorem stack_of_entered {layout : Layout} {env frame : FrameId} {actuals : Parts}
    {site : Option Site} (opened : entered layout env actuals site m = .ok frame later) :
    later.stack = (m.within ⟨layout.name, site.map Site.span⟩).stack := by
  obtain ⟨binding, bound, matched, -, made⟩ := entered_iff.mp opened
  obtain ⟨cache, rfl⟩ := Machine.eq_of_bindings matched
  have same := (balanced_newFrame layout binding actuals env).ok made
  exact same

theorem stack_of_callPart (balanced : ∀ e frame, Balanced (evaluate e frame)) {layout : Layout}
    {env : FrameId} {actuals : Parts} {site : Option Site} {part : Moment}
    (visited : CallPart evaluate layout env actuals site m part) :
    part.machine.stack = (m.within ⟨layout.name, site.map Site.span⟩).stack := by
  cases visited with
  | default opened filled =>
    exact ((balanced_forM_fillDefault balanced _ _ _).ok filled).trans (stack_of_entered opened)
  | body opened filled =>
    exact ((balanced_forM_fillDefault balanced _ _ _).ok filled).trans (stack_of_entered opened)

/-! ### Every error arises somewhere -/

/-- A call that ends in an error fails by itself, or one of its parts does. -/
theorem fails_of_error_call (balanced : ∀ e frame, Balanced (evaluate e frame)) {v : Value}
    {parts : Parts} {site : Site}
    (failed : call context evaluate v parts (some site) m = .error (.error err) later) :
    (∃ cause live, CallFails context parts site m v cause live ∧
      Attributed m ⟨cause, site.span, live⟩ err) ∨
    ∃ layout env part inner between, v = .closure layout env ∧
      CallPart evaluate layout env parts (some site) m part ∧
      evaluate part.expr part.frame part.machine = .error (.error inner) between ∧
      err = (between.stack.attach inner).withSpan site.span := by
  -- In the order of the checks: what is called, its binding, the room, and then what is inside.
  cases callable : context.callable? v with
  | none =>
    obtain ⟨e, bare, outcome⟩ := call_of_not_callable callable parts site m
    cases outcome.symm.trans failed
    refine .inl ⟨_, _, .notCallable callable, ?_⟩
    rcases bare with rfl | rfl
    · exact attributed_located _ _
    · exact attributed_attached _ _
  | some f =>
    rw [call_of_callable balanced callable] at failed
    cases matched : m.bindings (some site) f (parts.map Prod.fst) with
    | error cause =>
      rw [matched] at failed
      cases failed
      exact .inl ⟨_, _, .unbound callable matched, attributed_attached _ _⟩
    | ok result =>
      obtain ⟨binding, bound⟩ := result
      rw [matched] at failed
      dsimp only at failed
      cases room : m.stack.isFull with
      | true =>
        rw [room] at failed
        cases failed
        exact .inl ⟨_, _, .full callable matched room, attributed_attached _ _⟩
      | false =>
        rw [room, if_neg Bool.false_ne_true] at failed
        cases outcome : inside context evaluate v binding parts
            (bound.within ⟨f.name, some site.span⟩) with
        | ok w between => rw [outcome] at failed; cases failed
        | error stopped between =>
          rw [outcome] at failed
          cases stopped with
          | defect defect => cases failed
          | exhausted => cases failed
          | error inner =>
            cases failed
            cases v with
            | closure layout env =>
              cases callable
              obtain ⟨part, visited, failed⟩ :=
                (error_insideClosure_iff matched room).mp outcome
              exact .inr ⟨layout, env, part, inner, between, rfl, visited, failed, rfl⟩
            | builtin name handle =>
              obtain ⟨builtin, known, rfl⟩ := Option.map_eq_some_iff.mp callable
              obtain ⟨cache, rfl⟩ := Machine.eq_of_bindings matched
              simp only [inside, known, insideBuiltin] at outcome
              rcases error_bind_iff.mp outcome with refused | ⟨_, _, -, failed⟩
              -- The builtin refused; what is counted afterwards does not fail.
              · obtain ⟨cause, refuses, rfl, rfl⟩ := error_operate_iff.mp refused
                refine .inl ⟨_, _, .refused known matched room refuses, ?_⟩
                exact attributed_inBuiltin cause rfl site.span
              · exact absurd failed (counted_ne_error _ _)
            | null => cases callable
            | vector => cases callable

/-- An error of an evaluation arose at the moment or inside it. -/
theorem raises_of_error {e : Expr} {frame : FrameId}
    (failed : eval context depth e frame m = .error (.error err) later) :
    ∃ origin, Raises context depth ⟨e, frame, m⟩ origin ∧ Attributed m origin err := by
  induction depth generalizing e frame m err later with
  | zero => cases failed
  | succ depth ih =>
    have balanced := balanced_eval context depth
    have of_strict {part : Moment}
        (visited : InOrder (eval context depth) frame e.strict m part)
        (failed : eval context depth part.expr part.frame part.machine =
          .error (.error err) later) :
        ∃ origin, Raises context (depth + 1) ⟨e, frame, m⟩ origin ∧ Attributed m origin err := by
      obtain ⟨origin, raises, attributed⟩ := ih failed
      exact ⟨origin, .strict visited raises,
        attributed.of_stack_eq (stack_of_inOrder balanced visited)⟩
    cases e with
    | literal site value => cases failed
    | ident site name =>
      obtain ⟨inner, read, rfl⟩ := error_amend_iff.mp failed
      change (Run.ofCause (m.read name frame) : EvalM Value) m = _ at read
      cases found : m.read name frame with
      | ok v => rw [found] at read; cases read
      | error cause =>
        rw [found] at read
        cases read
        exact ⟨_, .own (.ident found), attributed_located cause site.span⟩
    | assign site target value =>
      rcases error_bind_iff.mp failed with failed | ⟨v, between, -, failed⟩
      · exact of_strict .first failed
      · exact absurd failed bindVariable_ne_error
    | superAssign site target value =>
      rcases error_bind_iff.mp failed with failed | ⟨v, between, -, failed⟩
      · exact of_strict .first failed
      · exact absurd failed bindVariable_ne_error
    | function site params body =>
      cases known : context.program.layout? site.id with
      | some layout =>
        rw [eval, step_function_of_some _ _ _ _ known] at failed
        cases failed
      | none =>
        rw [eval, step_function_of_none _ _ _ _ known] at failed
        cases failed
        exact ⟨_, .own (.function known), attributed_located _ site.span⟩
    | call site callee actuals =>
      rcases error_bind_iff.mp failed with failed | ⟨v, m₁, called, failed⟩
      · exact of_strict .first failed
      rcases error_bind_iff.mp failed with failed | ⟨parts, m₂, given, failed⟩
      · obtain ⟨part, visited, failed⟩ := error_evalActuals_iff.mp failed
        exact of_strict (.later called visited) failed
      have same := stack_of_given balanced called given
      rcases fails_of_error_call balanced failed with
        ⟨cause, live, fails, attributed⟩ |
        ⟨layout, env, part, inner, between, rfl, visited, stopped, rfl⟩
      · exact ⟨_, .own (.call called given fails), attributed.of_stack_eq same⟩
      · obtain ⟨origin, raises, attributed⟩ := ih stopped
        refine ⟨_, .inCall called given visited raises, ?_⟩
        -- The calls in progress are those when the part was reached.
        have inside := stack_of_callPart balanced visited
        have settled := (balanced part.expr part.frame).error stopped
        exact ((attributed.of_stack_eq settled.symm).inCall
          (settled.trans inside) _).of_stack_eq same
    | binary site op left right =>
      rcases error_bind_iff.mp failed with failed | ⟨l, m₁, done, failed⟩
      · exact of_strict .first failed
      rcases error_bind_iff.mp failed with failed | ⟨r, m₂, done', failed⟩
      · exact of_strict (.later done .first) failed
      rcases error_bind_iff.mp failed with failed | ⟨_, _, -, failed⟩
      · obtain ⟨inner, attempted, rfl⟩ := error_amend_iff.mp failed
        obtain ⟨cause, refuses, rfl, -⟩ := error_attempt_iff.mp attempted
        exact ⟨_, .own (.binary done done' refuses), attributed_located cause site.span⟩
      · exact absurd failed (counted_ne_error _ _)
    | branch site condition thenBranch elseBranch =>
      rcases error_bind_iff.mp failed with failed | ⟨v, m₁, done, failed⟩
      · exact of_strict .first failed
      rcases error_bind_iff.mp failed with failed | ⟨holds, m₂, tested, failed⟩
      · obtain ⟨inner, attempted, rfl⟩ := error_amend_iff.mp failed
        obtain ⟨cause, refuses, rfl, -⟩ := error_attempt_iff.mp attempted
        exact ⟨_, .own (.branch done refuses), attributed_located cause site.span⟩
      have same := stack_of_tested balanced done tested
      cases holds with
      | true =>
        obtain ⟨origin, raises, attributed⟩ := ih failed
        exact ⟨origin, .thenBranch done tested raises, attributed.of_stack_eq same⟩
      | false =>
        cases elseBranch with
        | none => cases failed
        | some elseBranch =>
          obtain ⟨origin, raises, attributed⟩ := ih failed
          exact ⟨origin, .elseBranch done tested raises, attributed.of_stack_eq same⟩
    | block site body =>
      obtain ⟨part, visited, failed⟩ := error_evalBlock_iff.mp failed
      exact of_strict visited failed

/-! ### What arises is the error of the evaluation -/

/-- An evaluation that ends in the error of an origin. -/
def EndsIn (context : Context) (depth : Nat) (moment : Moment) (origin : Origin) : Prop :=
  ∃ err later, eval context depth moment.expr moment.frame moment.machine =
      .error (.error err) later ∧ Attributed moment.machine origin err

theorem error_call_of_fails (balanced : ∀ e frame, Balanced (evaluate e frame)) {v : Value}
    {parts : Parts} {site : Site} {cause : Cause} {live : Backtrace}
    (fails : CallFails context parts site m v cause live) :
    ∃ err later, call context evaluate v parts (some site) m = .error (.error err) later ∧
      Attributed m ⟨cause, site.span, live⟩ err := by
  -- The same checks; each failure is the first one, as it says that those before are passed.
  cases fails with
  | notCallable uncallable =>
    obtain ⟨e, bare, outcome⟩ := call_of_not_callable uncallable parts site m
    refine ⟨_, _, outcome, ?_⟩
    rcases bare with rfl | rfl
    · exact attributed_located _ _
    · exact attributed_attached _ _
  | unbound callable matched =>
    refine ⟨_, m, ?_, attributed_attached cause site.span⟩
    rw [call_of_callable balanced callable, matched]
  | @full _ f binding bound callable matched room =>
    refine ⟨_, bound, ?_, attributed_attached _ site.span⟩
    rw [call_of_callable balanced callable, matched]
    simp only [room, if_true]
  | @refused name handle builtin binding bound _ known matched room refuses =>
    have callable : context.callable? (.builtin name handle) =
        some ⟨.builtin handle, name, builtin.formals⟩ := by
      rw [Context.callable?, known, Option.map_some]
    obtain ⟨cache, rfl⟩ := Machine.eq_of_bindings matched
    let started := ({ m with cache } : Machine).within ⟨name, some site.span⟩
    obtain ⟨later, refused⟩ : ∃ later, onHeap (HeapM.operate (builtin.run
        ⟨builtin.formals, binding, parts⟩)) started = .error (.error { cause }) later :=
      ⟨_, error_operate_iff.mpr ⟨cause, refuses, rfl, rfl⟩⟩
    have failed : inside context evaluate (.builtin name handle) binding parts started =
        .error (.error { cause }) later := by
      simp only [inside, known, insideBuiltin]
      exact error_bind_iff.mpr (.inl refused)
    exact ⟨_, _, error_call_of_inside balanced callable matched room failed,
      attributed_inBuiltin cause ((Balanced.onHeap _).error refused) site.span⟩

theorem endsIn_of_fails {moment : Moment}
    (fails : Fails context (eval context depth) moment origin) :
    EndsIn context (depth + 1) moment origin := by
  cases fails with
  | @ident site name frame m cause found =>
    refine ⟨_, m, error_amend_iff.mpr ⟨{ cause }, ?_, rfl⟩, attributed_located cause site.span⟩
    change (Run.ofCause (m.read name frame) : EvalM Value) m = _
    rw [found]
    rfl
  | @function site params body frame m unknown =>
    refine ⟨_, m, ?_, attributed_located _ site.span⟩
    rw [eval, step_function_of_none _ _ _ _ unknown]
    rfl
  | @call site callee actuals frame m m₁ m₂ v parts cause live called given fails =>
    have balanced := balanced_eval context depth
    obtain ⟨err, later, failed, attributed⟩ := error_call_of_fails balanced fails
    have same := stack_of_given balanced called given
    refine ⟨err, later, ?_, attributed.of_stack_eq same⟩
    exact error_bind_iff.mpr (.inr ⟨v, m₁, called,
      error_bind_iff.mpr (.inr ⟨parts, m₂, given, failed⟩)⟩)
  | @binary site op left right frame m m₁ m₂ l r cause done done' refuses =>
    obtain ⟨later, attempted⟩ : ∃ later, onHeap (HeapM.attempt (Value.binary op l r)) m₂ =
        .error (.error { cause }) later := ⟨_, error_attempt_iff.mpr ⟨cause, refuses, rfl, rfl⟩⟩
    refine ⟨_, later, ?_, attributed_located cause site.span⟩
    exact error_bind_iff.mpr (.inr ⟨l, m₁, done, error_bind_iff.mpr (.inr ⟨r, m₂, done',
      error_bind_iff.mpr (.inl (error_amend_iff.mpr ⟨_, attempted, rfl⟩))⟩)⟩)
  | @branch site condition thenBranch elseBranch frame m m₁ v cause done refuses =>
    obtain ⟨later, attempted⟩ : ∃ later, onHeap (HeapM.attempt (truthOf v)) m₁ =
        .error (.error { cause }) later := ⟨_, error_attempt_iff.mpr ⟨cause, refuses, rfl, rfl⟩⟩
    refine ⟨_, later, ?_, attributed_located cause site.span⟩
    exact error_bind_iff.mpr (.inr ⟨v, m₁, done,
      error_bind_iff.mpr (.inl (error_amend_iff.mpr ⟨_, attempted, rfl⟩))⟩)

/-- An expression fails as the part of it that fails does. -/
theorem error_of_strict {e : Expr} {frame : FrameId} {part : Moment}
    (visited : InOrder evaluate frame e.strict m part)
    (failed : evaluate part.expr part.frame part.machine = .error stop later) :
    step context evaluate e frame m = .error stop later := by
  -- The parts of a form are evaluated first, and in order.
  cases e with
  | literal site value => cases visited
  | ident site name => cases visited
  | function site params body => cases visited
  | assign site target value =>
    rcases visited with _ | ⟨-, ⟨⟩⟩
    exact error_bind_iff.mpr (.inl failed)
  | superAssign site target value =>
    rcases visited with _ | ⟨-, ⟨⟩⟩
    exact error_bind_iff.mpr (.inl failed)
  | call site callee actuals =>
    rcases visited with _ | ⟨called, visited⟩
    · exact error_bind_iff.mpr (.inl failed)
    · have failed := error_evalActuals_iff.mpr ⟨part, visited, failed⟩
      exact error_bind_iff.mpr (.inr ⟨_, _, called, error_bind_iff.mpr (.inl failed)⟩)
  | binary site op left right =>
    rcases visited with _ | ⟨done, _ | ⟨-, ⟨⟩⟩⟩
    · exact error_bind_iff.mpr (.inl failed)
    · exact error_bind_iff.mpr (.inr ⟨_, _, done, error_bind_iff.mpr (.inl failed)⟩)
  | branch site condition thenBranch elseBranch =>
    rcases visited with _ | ⟨-, ⟨⟩⟩
    exact error_bind_iff.mpr (.inl failed)
  | block site body => exact error_evalBlock_iff.mpr ⟨part, visited, failed⟩

/-- An error that arises inside a moment is the error of its evaluation. -/
theorem endsIn_of_raises {moment : Moment} (raises : Raises context depth moment origin) :
    EndsIn context depth moment origin := by
  -- The error passes through each moment on its way out and gets no new place there.
  induction raises with
  | own fails => exact endsIn_of_fails fails
  | @strict depth e frame m part origin visited _ ih =>
    obtain ⟨err, later, failed, attributed⟩ := ih
    exact ⟨err, later, error_of_strict visited failed,
      attributed.of_stack_eq (stack_of_inOrder (balanced_eval context depth) visited)⟩
  | @thenBranch depth site condition thenBranch elseBranch frame m m₁ m₂ v origin done tested
      _ ih =>
    obtain ⟨err, later, failed, attributed⟩ := ih
    have same := stack_of_tested (balanced_eval context depth) done tested
    refine ⟨err, later, ?_, attributed.of_stack_eq same⟩
    exact error_bind_iff.mpr
      (.inr ⟨v, m₁, done, error_bind_iff.mpr (.inr ⟨true, m₂, tested, failed⟩)⟩)
  | @elseBranch depth site condition thenBranch elseBranch frame m m₁ m₂ v origin done tested
      _ ih =>
    obtain ⟨err, later, failed, attributed⟩ := ih
    have same := stack_of_tested (balanced_eval context depth) done tested
    refine ⟨err, later, ?_, attributed.of_stack_eq same⟩
    exact error_bind_iff.mpr
      (.inr ⟨v, m₁, done, error_bind_iff.mpr (.inr ⟨false, m₂, tested, failed⟩)⟩)
  | @inCall depth site callee actuals frame env layout parts m m₁ m₂ part origin called given visited
      _ ih =>
    obtain ⟨inner, between, failed, attributed⟩ := ih
    have balanced := balanced_eval context depth
    have same := stack_of_given balanced called given
    have inside := stack_of_callPart balanced visited
    have settled := (balanced part.expr part.frame).error failed
    obtain ⟨binding, bound, matched, room⟩ := exists_bound_of_callPart visited
    have callable : context.callable? (.closure layout env) = some layout.callable := rfl
    have failed := error_call_of_inside balanced callable matched room
      ((error_insideClosure_iff matched room).mpr ⟨part, visited, failed⟩)
    -- The call is on the stack in its parts, and is the innermost of those in progress.
    have attributed := (attributed.of_stack_eq settled.symm).inCall (settled.trans inside) site.span
    exact ⟨_, _, error_bind_iff.mpr (.inr ⟨_, m₁, called,
      error_bind_iff.mpr (.inr ⟨parts, m₂, given, failed⟩)⟩), attributed.of_stack_eq same⟩

/-- What arises arises at a moment inside, in the calls that are on the stack there. -/
theorem fails_of_raises {outer : Moment} (raises : Raises context depth outer origin) :
    ∃ moment own, Visits context depth outer moment ∧
      (∃ inner, Fails context (eval context inner) moment own) ∧
      own.cause = origin.cause ∧ own.place = origin.place ∧
      own.live ++ moment.machine.stack.frames = origin.live ++ outer.machine.stack.frames := by
  -- The calls in progress are those of the error and those already on the stack; each moment
  -- further in moves one from the former to the latter, or none.
  induction raises with
  | own fails => exact ⟨_, _, .here, ⟨_, fails⟩, rfl, rfl, rfl⟩
  | @strict depth e frame m part origin visited _ ih =>
    obtain ⟨moment, own, visits, fails, cause_eq, place_eq, live_eq⟩ := ih
    rw [stack_of_inOrder (balanced_eval context depth) visited] at live_eq
    exact ⟨moment, own, .inside (.strict visited) visits, fails, cause_eq, place_eq, live_eq⟩
  | @thenBranch depth site condition thenBranch elseBranch frame m m₁ m₂ v origin done tested
      _ ih =>
    obtain ⟨moment, own, visits, fails, cause_eq, place_eq, live_eq⟩ := ih
    rw [stack_of_tested (balanced_eval context depth) done tested] at live_eq
    exact ⟨moment, own, .inside (.thenBranch done tested) visits, fails, cause_eq, place_eq,
      live_eq⟩
  | @elseBranch depth site condition thenBranch elseBranch frame m m₁ m₂ v origin done tested
      _ ih =>
    obtain ⟨moment, own, visits, fails, cause_eq, place_eq, live_eq⟩ := ih
    rw [stack_of_tested (balanced_eval context depth) done tested] at live_eq
    exact ⟨moment, own, .inside (.elseBranch done tested) visits, fails, cause_eq, place_eq,
      live_eq⟩
  | @inCall depth site callee actuals frame env layout parts m m₁ m₂ part origin called given visited
      _ ih =>
    obtain ⟨moment, own, visits, fails, cause_eq, place_eq, live_eq⟩ := ih
    have balanced := balanced_eval context depth
    have same := stack_of_given balanced called given
    have pushed : (m₂.within ⟨layout.name, some site.span⟩).stack.frames =
        ⟨layout.name, some site.span⟩ :: m.stack.frames := by
      rw [← same]
      rfl
    rw [stack_of_callPart balanced visited, Option.map_some, pushed] at live_eq
    refine ⟨moment, own, .inside (.call called given visited) visits, fails, cause_eq, place_eq, ?_⟩
    rw [live_eq, Origin.inCall, List.append_assoc]
    rfl

end EvalM

namespace Interpreter

open EvalM

/-- Errors have their origin. A run ends in an error exactly when one arises inside it, and the
error is that of its origin: its place is that of the node whose own step failed, and its
backtrace is the calls in progress at that point, innermost first, if there are any. These are
the calls on the stack at the moment of the failure, and the builtin if it was one that
refused. -/
theorem errors_have_their_origin {settings : Settings} {heap : Heap} {interpreter : Interpreter}
    {requests : List Request} (built : build settings heap = .ok interpreter)
    (final : ∀ answer ∈ interpreter.answers requests, Final answer) (depth : Nat) :
    let current := interpreter.after requests
    let start : Moment := ⟨current.context.program.toplevel.body, current.root, current.machine⟩
    (∀ e, (current.run depth).1 = .error (.error e) ↔
      ∃ origin, Raises current.context depth start origin ∧ e = origin.error) ∧
    ∀ origin, Raises current.context depth start origin →
      ∃ moment own, Visits current.context depth start moment ∧
        (∃ inner, Fails current.context (eval current.context inner) moment own) ∧
        origin.cause = own.cause ∧ origin.place = moment.expr.site.span ∧
        origin.live = own.live ++ moment.machine.stack.frames := by
  intro current start
  have empty : current.machine.stack.frames = [] := by
    have kept := stack_after final
    obtain ⟨program, -, rfl⟩ := build_eq_ok built
    rw [kept]
    rfl
  -- Without calls in progress a run attaches nothing to an error that leaves it.
  have attributed_iff (origin : Origin) (e : EvalError) :
      Attributed current.machine origin e ↔ e = origin.error := by
    rw [Attributed, CallStack.attach, empty]
    simp [Origin.errorWithin]
  have run_eq (e : EvalError) : (current.run depth).1 = .error (.error e) ↔
      ∃ later, eval current.context depth start.expr start.frame start.machine =
        .error (.error e) later := by
    change (current.perform (eval current.context depth start.expr start.frame)).1 = _ ↔ _
    rw [perform]
    change _ ↔ ∃ later, eval current.context depth start.expr start.frame current.machine = _
    rcases eval current.context depth start.expr start.frame current.machine with
      ⟨v, machine⟩ | ⟨_ | _ | _, machine⟩ <;> simp
  refine ⟨?_, ?_⟩
  · intro e
    rw [run_eq]
    constructor
    · rintro ⟨later, failed⟩
      obtain ⟨origin, raises, attributed⟩ := raises_of_error failed
      exact ⟨origin, raises, (attributed_iff origin e).mp attributed⟩
    · rintro ⟨origin, raises, rfl⟩
      obtain ⟨e, later, failed, attributed⟩ := endsIn_of_raises raises
      cases (attributed_iff origin e).mp attributed
      exact ⟨later, failed⟩
  · intro origin raises
    obtain ⟨moment, own, visits, ⟨inner, fails⟩, cause_eq, place_eq, live_eq⟩ :=
      fails_of_raises raises
    refine ⟨moment, own, visits, ⟨inner, fails⟩, cause_eq.symm, ?_, ?_⟩
    · rw [← place_eq, fails.place_eq]
    · simpa [start, empty] using live_eq.symm

/-- The error in an answer. -/
def errorOf : Except Stop Value → Option EvalError
  | .error (.error e) => some e
  | _ => none

theorem eq_of_errorOf {answer : Except Stop Value} {e : EvalError}
    (found : errorOf answer = some e) : answer = .error (.error e) := by
  rcases answer with (_ | _ | _) | _ <;> cases found
  rfl

/-- The program `(function(x) x(2L))(1L)`, where the inner call is of a number. -/
def callOfNumber : Expr :=
  .call ⟨6, ⟨0, 23⟩⟩
    (.function ⟨4, ⟨1, 18⟩⟩ [("x", none)]
      (.call ⟨3, ⟨13, 18⟩⟩ (.ident ⟨1, ⟨13, 14⟩⟩ "x")
        [(none, .literal ⟨2, ⟨15, 17⟩⟩ (.integer 2))]))
    [(none, .literal ⟨5, ⟨20, 22⟩⟩ (.integer 1))]

/-- Its error is at the inner call, which is not in progress; the outer one is. -/
theorem errors_have_their_origin_callOfNumber :
    ∃ interpreter, build { top := callOfNumber } .empty = .ok interpreter ∧
      ∃ origin : Origin, Raises interpreter.context 3
          ⟨interpreter.context.program.toplevel.body, interpreter.root, interpreter.machine⟩ origin ∧
        (interpreter.run 3).1 = .error (.error origin.error) ∧
        origin.place = ⟨13, 18⟩ ∧ origin.live = [⟨"<anonymous>", some ⟨0, 23⟩⟩] := by
  obtain ⟨interpreter, built, found⟩ : ∃ interpreter,
      build { top := callOfNumber } .empty = .ok interpreter ∧ errorOf (interpreter.run 3).1 =
        some ⟨.notCallable "integer", some ⟨13, 18⟩, some [⟨"<anonymous>", some ⟨0, 23⟩⟩], []⟩ :=
    ⟨_, rfl, by decide +kernel⟩
  have failed := eq_of_errorOf found
  have nothing (answer : Except Stop Value) (member : answer ∈ interpreter.answers []) :
      Final answer := (List.not_mem_nil member).elim
  obtain ⟨origin, raises, same⟩ :=
    ((errors_have_their_origin built nothing 3).1 _).mp failed
  refine ⟨interpreter, built, origin, raises, failed.trans (by rw [same]), ?_, ?_⟩
  · simpa [Origin.error] using (congrArg EvalError.span same).symm
  · have live_eq := (congrArg EvalError.backtrace same).symm
    simp only [Origin.error, Option.ite_none_left_eq_some, Option.some.injEq] at live_eq
    exact live_eq.2

end Interpreter

end Vectorial
