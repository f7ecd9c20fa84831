import Vectorial.Proofs.Evaluation.Parts

/-!
# Agreement

Two steps agree on a machine if they do the same even when the second of them is given the
machine with other bindings kept: they have the same result, and leave machines that differ
in the bindings kept only. Everything but matching agrees with itself, since nothing else
looks at the bindings. If the evaluation of all parts of a moment agrees, and matching does,
then evaluation does.

With the bindings left as they are, agreement is equality. Evaluators that are equal on the
parts of a moment are then equal on the moment, so that no part is missing.

## Main definitions

* `Machine.recache`: a machine with other bindings kept;
* `EvalM.Agree`: steps that agree on a machine;
* `EvalM.Matches`: calls whose matching agrees.

## Main results

* `EvalM.agree_call`: calls agree if the evaluation of their parts does;
* `EvalM.agree_step`: so does one step of evaluation;
* `EvalM.step_congr`: a step depends on the evaluation of the parts only.
-/

namespace Vectorial

/-- The machine with the kept bindings changed by `change`. -/
def Machine.recache (change : Option BindingCache → Option BindingCache) (m : Machine) : Machine :=
  { m with cache := change m.cache }

namespace EvalM

variable {α β : Type} {change : Option BindingCache → Option BindingCache}

/-- The same result, with the bindings that are kept afterwards changed. -/
def changed (change : Option BindingCache → Option BindingCache) :
    EStateM.Result Stop Machine α → EStateM.Result Stop Machine α
  | .ok a m => .ok a (m.recache change)
  | .error stop m => .error stop (m.recache change)

variable (change) in
/-- Whether `other` does to the machine with other bindings what `action` does to `m`. -/
def Agree (action other : EvalM α) (m : Machine) : Prop :=
  other (m.recache change) = changed change (action m)

variable {action other : EvalM α} {m : Machine}

/-! ### Composition -/

namespace Agree

theorem pure (a : α) : Agree change (Pure.pure a) (Pure.pure a) m :=
  rfl

theorem stop (stop : Stop) : Agree change (throw stop : EvalM α) (throw stop) m :=
  rfl

theorem bind {next further : α → EvalM β} (first : Agree change action other m)
    (second : ∀ a later, action m = .ok a later → Agree change (next a) (further a) later) :
    Agree change (action >>= next) (other >>= further) m := by
  rw [Agree] at first
  change EStateM.bind other further (m.recache change) = changed change (EStateM.bind action next m)
  unfold EStateM.bind
  rw [first]
  cases outcome : action m with
  | ok a later => exact second a later outcome
  | error stop later => rfl

theorem get {next further : Machine → EvalM α}
    (agree : Agree change (next m) (further (m.recache change)) m) :
    Agree change (MonadState.get >>= next) (MonadState.get >>= further) m :=
  agree

theorem amend {same : Machine → EvalError → EvalError}
    (blind : ∀ m, same (m.recache change) = same m) (agree : Agree change action other m) :
    Agree change (Run.amend same action) (Run.amend same other) m := by
  unfold Agree at agree ⊢
  unfold Run.amend
  rw [agree]
  cases action m with
  | ok a later => rfl
  | error stop later =>
    cases stop with
    | error e =>
      dsimp only [changed]
      rw [blind]
    | defect defect => rfl
    | exhausted => rfl

theorem located {span : Option Span} (agree : Agree change action other m) :
    Agree change (Run.located span action) (Run.located span other) m := by
  cases span with
  | none => exact agree
  | some span => exact agree.amend fun _ => rfl

theorem backtraced (agree : Agree change action other m) :
    Agree change (EvalM.backtraced action) (EvalM.backtraced other) m :=
  agree.amend fun _ => rfl

theorem ofExcept {ε : Type} (stops : ε → Stop) (result : Except ε α) :
    Agree change (Run.ofExcept stops result) (Run.ofExcept stops result) m := by
  cases result <;> rfl

theorem onHeap (work : HeapM α) : Agree change (EvalM.onHeap work) (EvalM.onHeap work) m := by
  have same : work (m.recache change).heap = work m.heap := rfl
  unfold Agree EvalM.onHeap Run.within
  rw [same]
  cases work m.heap <;> rfl

theorem counted (mode : Mode) (v : Value) :
    Agree change (EvalM.counted mode v) (EvalM.counted mode v) m := by
  rw [EvalM.counted]
  split
  · exact .onHeap _
  · exact .pure v

end Agree

/-! ### Calls -/

theorem agree_enter (name : Symbol) (site : Option Site) :
    Agree change (enter name site) (enter name site) m := by
  rw [enter]
  refine .get (.bind (.backtraced (.ofExcept _ _)) fun stack later done => ?_)
  rfl

theorem agree_leave : Agree change leave leave m := by
  rw [leave]
  refine .get (.bind (.ofExcept _ _) fun stack later done => ?_)
  rfl

theorem agree_newFrame (layout : Layout) (binding : Binding) (actuals : Parts) (env : FrameId) :
    Agree change (newFrame layout binding actuals env) (newFrame layout binding actuals env) m :=
  rfl

theorem agree_inCall {name : Symbol} {site : Option Site}
    (inside : ∀ later, enter name site m = .ok () later → Agree change action other later) :
    Agree change (inCall name site action) (inCall name site other) m := by
  rw [inCall]
  refine (agree_enter name site).bind fun _ later entered => ?_
  -- The frame is left after a result and after an error, but not after a defect.
  have agree := (inside later entered).backtraced
  unfold Agree at agree ⊢
  dsimp only
  rw [agree]
  cases backtraced action later with
  | ok a last => exact agree_leave.bind fun _ _ _ => .pure a
  | error stop last =>
    cases stop with
    | error e => exact agree_leave.bind fun _ _ _ => .stop (.error e)
    | defect defect => rfl
    | exhausted => rfl

/-! ### Variables -/

theorem setSlot_recache (frame : FrameId) (slot : Nat) (v : Value) (m : Machine) :
    (m.recache change).setSlot frame slot v = (m.setSlot frame slot v).map (.recache change) := by
  have same : (m.recache change).heap = m.heap := rfl
  unfold Machine.setSlot
  rw [same]
  cases m.heap.set frame slot v <;> rfl

theorem bindAt_recache (place : Option (FrameId × Nat)) (name : Symbol) (v : Value)
    (m : Machine) :
    (m.recache change).bindAt place name v = (m.bindAt place name v).map (.recache change) := by
  cases place with
  | some place => exact setSlot_recache place.1 place.2 v m
  | none => rfl

theorem agree_bindVariable {assign : Machine → Except Defect Machine} {v : Value}
    (blind : assign (m.recache change) = (assign m).map (.recache change)) :
    Agree change (bindVariable assign v) (bindVariable assign v) m := by
  rw [bindVariable]
  refine .get ?_
  rw [blind]
  cases assign m <;> rfl

/-! ### Functions -/

section

variable {evaluate instead : Evaluator} {layout : Layout} {frame : FrameId}

theorem agree_fillDefault {index : Nat}
    (default : ∀ e, m.heap.get frame index = none → layout.defaultFor index = some e →
      Agree change (evaluate e frame) (instead e frame) m) :
    Agree change (fillDefault evaluate layout frame index)
      (fillDefault instead layout frame index) m := by
  have same : (m.recache change).heap = m.heap := rfl
  rw [fillDefault]
  refine .get ?_
  rw [same]
  split
  · next unbound =>
    cases known : layout.defaultFor index with
    | none => exact .pure ()
    | some e =>
      refine (default e (Option.isNone_iff_eq_none.mp unbound) known).bind fun v later _ => .get ?_
      rw [setSlot_recache]
      cases later.setSlot frame index v <;> rfl
  · exact .pure ()

theorem forM_append (fill : Nat → EvalM Unit) (indices rest : List Nat) :
    (indices ++ rest).forM fill = (do indices.forM fill; rest.forM fill) :=
  List.forM_append

/-- Defaults agree if each of them does, evaluated when those before it are filled. -/
theorem agree_fillDefaults
    (defaults : ∀ index later e, (List.range index).forM (fillDefault evaluate layout frame) m =
      .ok () later → later.heap.get frame index = none → layout.defaultFor index = some e →
      Agree change (evaluate e frame) (instead e frame) later) :
    Agree change (fillDefaults evaluate layout frame) (fillDefaults instead layout frame) m := by
  unfold fillDefaults
  -- On the number of formals, the last of them at the end of the loop.
  induction layout.params.length with
  | zero => exact .pure ()
  | succ length ih =>
    rw [List.range_succ, forM_append, forM_append]
    refine ih.bind fun _ later done => ?_
    have last := agree_fillDefault fun e unbound known => defaults length later e done unbound known
    exact last.bind fun _ _ _ => .pure ()

variable {env : FrameId} {actuals : Parts} {site : Option Site}

variable (change) in
/-- Whether the matching of a call agrees, whatever is called. -/
structure Matches (context : Context) (callee : Value) (actuals : Parts) (site : Option Site)
    (m : Machine) : Prop where
  closure : ∀ layout env, callee = .closure layout env →
    Agree change (matchKnown site (.literal layout.literal) layout.formals (actuals.map Prod.fst))
      (matchKnown site (.literal layout.literal) layout.formals (actuals.map Prod.fst)) m
  builtin : ∀ name handle builtin, callee = .builtin name handle →
    context.builtins.get handle = some builtin →
    Agree change (matchKnown site (.builtin handle) builtin.formals (actuals.map Prod.fst))
      (matchKnown site (.builtin handle) builtin.formals (actuals.map Prod.fst)) m

theorem entered_of_steps {binding : Binding} {m₁ m₂ m₃ : Machine}
    (matched : backtraced (matchKnown site (.literal layout.literal) layout.formals
      (actuals.map Prod.fst)) m = .ok binding m₁)
    (enters : enter layout.name site m₁ = .ok () m₂)
    (opened : newFrame layout binding actuals env m₂ = .ok frame m₃) :
    entered layout env actuals site m = .ok frame m₃ := by
  rw [entered]
  change EStateM.bind _ _ m = _
  rw [EStateM.bind]
  rw [matched]
  change EStateM.bind _ _ m₁ = _
  rw [EStateM.bind]
  rw [enters]
  exact opened

theorem agree_callClosure
    (matching : Agree change
      (matchKnown site (.literal layout.literal) layout.formals (actuals.map Prod.fst))
      (matchKnown site (.literal layout.literal) layout.formals (actuals.map Prod.fst)) m)
    (parts : ∀ part, CallPart evaluate layout env actuals site m part →
      Agree change (evaluate part.expr part.frame) (instead part.expr part.frame) part.machine) :
    Agree change (callClosure evaluate layout env actuals site)
      (callClosure instead layout env actuals site) m := by
  rw [callClosure]
  refine matching.backtraced.bind fun binding m₁ matched => ?_
  refine agree_inCall fun m₂ enters => ?_
  refine (agree_newFrame layout binding actuals env).bind fun frame m₃ opened => ?_
  have opened := entered_of_steps matched enters opened
  -- The defaults and the body are parts of the call, each on the machine it is reached with.
  refine (agree_fillDefaults ?_).bind fun _ m₄ filled => parts _ (.body opened filled)
  exact fun index later e done unbound known => parts _ (.default opened done unbound known)

end

theorem agree_callBuiltin {context : Context} {name : Symbol} {handle : Nat} {actuals : Parts}
    {site : Option Site}
    (matching : ∀ builtin, context.builtins.get handle = some builtin →
      Agree change (matchKnown site (.builtin handle) builtin.formals (actuals.map Prod.fst))
        (matchKnown site (.builtin handle) builtin.formals (actuals.map Prod.fst)) m) :
    Agree change (callBuiltin context name handle actuals site)
      (callBuiltin context name handle actuals site) m := by
  rw [callBuiltin]
  cases known : context.builtins.get handle with
  | none => exact .stop _
  | some builtin =>
    refine (matching builtin known).backtraced.bind fun binding later matched => ?_
    exact agree_inCall fun _ _ => (Agree.onHeap _).bind fun v _ _ => .counted context.mode v

/-- A call agrees if its matching does and what it evaluates does. -/
theorem agree_call {context : Context} {evaluate instead : Evaluator} {callee : Value}
    {actuals : Parts} {site : Option Site}
    (matching : Matches change context callee actuals site m)
    (parts : ∀ layout env part, callee = .closure layout env →
      CallPart evaluate layout env actuals site m part →
      Agree change (evaluate part.expr part.frame) (instead part.expr part.frame) part.machine) :
    Agree change (call context evaluate callee actuals site)
      (call context instead callee actuals site) m := by
  refine .located ?_
  cases callee with
  | null => exact Agree.backtraced (.stop _)
  | vector storage metadata => exact Agree.backtraced (.stop _)
  | closure layout env =>
    exact agree_callClosure (matching.closure layout env rfl) (parts layout env · rfl)
  | builtin name handle =>
    exact agree_callBuiltin (matching.builtin name handle · rfl)

/-! ### One step -/

section

variable {evaluate instead : Evaluator} {frame : FrameId}

theorem agree_evalActuals {actuals : List (Option Symbol × Expr)}
    (parts : ∀ part, InOrder evaluate frame (actuals.map Prod.snd) m part →
      Agree change (evaluate part.expr part.frame) (instead part.expr part.frame) part.machine) :
    Agree change (evalActuals evaluate frame actuals) (evalActuals instead frame actuals) m := by
  induction actuals generalizing m with
  | nil => exact .pure []
  | cons actual rest ih =>
    obtain ⟨name, value⟩ := actual
    rw [evalActuals]
    refine Agree.bind (parts _ .first) fun v later done => ?_
    exact (ih fun part inOrder => parts part (.later done inOrder)).bind fun _ _ _ => .pure _

theorem agree_evalBlock {body : List Expr} {last : Value}
    (parts : ∀ part, InOrder evaluate frame body m part →
      Agree change (evaluate part.expr part.frame) (instead part.expr part.frame) part.machine) :
    Agree change (evalBlock evaluate frame last body) (evalBlock instead frame last body) m := by
  induction body generalizing m last with
  | nil => exact .pure last
  | cons e rest ih =>
    rw [evalBlock]
    refine Agree.bind (parts _ .first) fun v later done => ?_
    exact ih fun part inOrder => parts part (.later done inOrder)

/-- One step of evaluation agrees if the evaluation of all parts does, and the matching of
the call if it is one. -/
theorem agree_step {context : Context} (moment : Moment)
    (matching : ∀ site callee actuals v parts m₁ m₂, moment.expr = .call site callee actuals →
      evaluate callee moment.frame moment.machine = .ok v m₁ →
      evalActuals evaluate moment.frame actuals m₁ = .ok parts m₂ →
      Matches change context v parts (some site) m₂)
    (parts : ∀ part, Part evaluate moment part →
      Agree change (evaluate part.expr part.frame) (instead part.expr part.frame) part.machine) :
    Agree change (step context evaluate moment.expr moment.frame)
      (step context instead moment.expr moment.frame) moment.machine := by
  obtain ⟨e, frame, m⟩ := moment
  have strict (part : Moment) (inOrder : InOrder evaluate frame e.strict m part) :
      Agree change (evaluate part.expr part.frame) (instead part.expr part.frame) part.machine :=
    parts part (.strict inOrder)
  -- The parts in their order, each from the machine that the parts before it lead to.
  cases e with
  | literal site value => exact .pure _
  | ident site name =>
    change Agree change (Run.located (some site.span) (readVariable name frame))
      (Run.located (some site.span) (readVariable name frame)) m
    refine .located ?_
    exact .get (.ofExcept _ (m.read name frame))
  | assign site target value =>
    refine Agree.bind (strict _ .first) fun v later _ => ?_
    exact agree_bindVariable (bindAt_recache (later.localSlot target frame) target v later)
  | superAssign site target value =>
    refine Agree.bind (strict _ .first) fun v later _ => ?_
    exact agree_bindVariable (bindAt_recache (later.outerSlot target frame) target v later)
  | function site params body =>
    dsimp only
    cases known : context.program.layout? site.id with
    | some layout =>
      rw [step_function_of_some evaluate params body frame known,
        step_function_of_some instead params body frame known]
      exact .pure _
    | none =>
      rw [step_function_of_none evaluate params body frame known,
        step_function_of_none instead params body frame known]
      exact .located (.stop _)
  | call site callee actuals =>
    refine Agree.bind (strict _ .first) fun v m₁ called => ?_
    refine (agree_evalActuals fun part inOrder => strict part (.later called inOrder)).bind
      fun given m₂ done => ?_
    refine agree_call (matching site callee actuals v given m₁ m₂ rfl called done) ?_
    -- Defaults and body are parts as well, if the callee is a closure.
    rintro layout env part rfl callPart
    exact parts part (.call called done callPart)
  | binary site op left right =>
    refine Agree.bind (strict _ .first) fun l m₁ done => ?_
    refine Agree.bind (strict _ (.later done .first)) fun r m₂ _ => ?_
    exact (Agree.located (.onHeap _)).bind fun v _ _ => .counted context.mode v
  | branch site condition thenBranch elseBranch =>
    refine Agree.bind (strict _ .first) fun v m₁ done => ?_
    refine Agree.bind (.located (.onHeap _)) fun holds m₂ tested => ?_
    cases holds with
    | true => exact parts _ (.thenBranch done tested)
    | false =>
      cases elseBranch with
      | some elseBranch => exact parts _ (.elseBranch done tested)
      | none => exact .pure _
  | block site body => exact agree_evalBlock strict

/-- A step of evaluation depends on the evaluation of its parts only. -/
theorem step_congr {context : Context} {e : Expr}
    (parts : ∀ part, Part evaluate ⟨e, frame, m⟩ part →
      evaluate part.expr part.frame part.machine = instead part.expr part.frame part.machine) :
    step context evaluate e frame m = step context instead e frame m := by
  have id_agree (x y : EvalM Value) (m : Machine) : Agree id x y m ↔ y m = x m := by
    have same : changed id (x m) = x m := by cases x m <;> rfl
    rw [Agree, same]
    rfl
  have refl {γ : Type} (x : EvalM γ) (m : Machine) : Agree id x x m := by
    have same : changed id (x m) = x m := by cases x m <;> rfl
    exact same.symm
  have agree : Agree id (step context evaluate e frame) (step context instead e frame) m :=
    agree_step ⟨e, frame, m⟩
      (fun _ _ _ _ _ _ _ _ _ _ => ⟨fun _ _ _ => refl _ _, fun _ _ _ _ _ => refl _ _⟩)
      fun part inside => (id_agree _ _ _).mpr (parts part inside).symm
  exact ((id_agree _ _ _).mp agree).symm

end

end EvalM

end Vectorial
