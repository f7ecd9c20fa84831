import Vectorial.Proofs.Evaluation.Agreement
import Vectorial.Proofs.Evaluation.Stack

/-!
# What a call does

A call of a function first gets its binding, which is either kept from an earlier call or
made anew, then it is put on the stack, and what is inside it is done. A value that is no
function is not called, and a call that gets no binding leaves the machine as it is.

Two steps in sequence fail when the first fails, or the second after it.

## Main definitions

* `Callable`, `Context.callable?`: what is called when a value is;
* `Machine.bindings`: the binding of a call, and the machine that keeps it;
* `Machine.within`: a machine inside one more call;
* `EvalM.inside`: what is done inside a call.

## Main results

* `EvalM.error_bind_iff`, `EvalM.error_evalActuals_iff`, `EvalM.error_evalBlock_iff`,
  `EvalM.error_fillDefaults_iff`: which of several steps failed;
* `EvalM.call_of_callable`, `EvalM.call_of_not_callable`: a call in one step.
-/

namespace Vectorial

/-- What is called: the key under which its bindings are kept, its name and its
parameters. -/
structure Callable where
  key : Callee
  name : Symbol
  formals : Formals

/-- What is called when a closure of a layout is. -/
abbrev Layout.callable (layout : Layout) : Callable :=
  ⟨.literal layout.literal, layout.name, layout.formals⟩

/-- What is called when a value is; nothing if the value is no function. -/
def Context.callable? (context : Context) : Value → Option Callable
  | .closure layout _ => some layout.callable
  | .builtin name handle =>
    (context.builtins.get handle).map fun builtin => ⟨.builtin handle, name, builtin.formals⟩
  | _ => none

namespace Machine

/-- The binding that is kept for a call. -/
def known (m : Machine) (site : Option Site) (key : Callee) : Option Binding :=
  m.cache.bind fun cache => site.bind fun site => EvalM.knownBinding cache (site.id, key)

/-- The machine that also keeps a binding, if bindings are kept and the call has a site. -/
def keep (m : Machine) (site : Option Site) (key : Callee) (binding : Binding) : Machine :=
  match m.cache, site with
  | some cache, some site => { m with cache := some (((site.id, key), binding) :: cache) }
  | _, _ => m

/-- The binding of a call: the one that is kept for it, and else the one that matching makes,
which is kept from then on. -/
def bindings (m : Machine) (site : Option Site) (f : Callable) (labels : List (Option Symbol)) :
    Except Cause (Binding × Machine) :=
  match m.known site f.key with
  | some binding => .ok (binding, m)
  | none =>
    (Matching.matchCall f.formals labels).map fun binding => (binding, m.keep site f.key binding)

/-- The machine inside one more call. -/
def within (m : Machine) (frame : CallFrame) : Machine :=
  { m with stack := { m.stack with frames := frame :: m.stack.frames } }

variable {m later : Machine} {site : Option Site} {f : Callable}
  {labels : List (Option Symbol)} {binding : Binding}

theorem keep_eq (m : Machine) (site : Option Site) (key : Callee) (binding : Binding) :
    ∃ cache, m.keep site key binding = { m with cache } := by
  unfold keep
  split
  · exact ⟨_, rfl⟩
  · exact ⟨m.cache, rfl⟩

/-- A call without a site is matched anew. -/
theorem matchCall_of_bindings_none (bound : m.bindings none f labels = .ok (binding, later)) :
    Matching.matchCall f.formals labels = .ok binding := by
  have unkept : m.known none f.key = none := by
    unfold known
    cases m.cache <;> rfl
  rw [bindings, unkept] at bound
  cases matched : Matching.matchCall f.formals labels with
  | error cause => rw [matched] at bound; cases bound
  | ok made =>
    rw [matched] at bound
    cases bound
    rfl

/-- Nothing but the bindings that are kept changes. -/
theorem eq_of_bindings (bound : m.bindings site f labels = .ok (binding, later)) :
    ∃ cache, later = { m with cache } := by
  unfold bindings at bound
  split at bound
  · cases bound
    exact ⟨m.cache, rfl⟩
  · cases matched : Matching.matchCall f.formals labels with
    | error cause =>
      rw [matched] at bound
      cases bound
    | ok made =>
      rw [matched] at bound
      cases bound
      exact keep_eq m site f.key _

end Machine

namespace EvalM

variable {α β : Type} {context : Context} {evaluate : Evaluator} {m later : Machine} {stop : Stop}

/-! ### Steps in sequence -/

theorem error_bind_iff {step : EvalM α} {next : α → EvalM β} :
    (step >>= next) m = .error stop later ↔
      step m = .error stop later ∨
        ∃ a between, step m = .ok a between ∧ next a between = .error stop later := by
  simp only [bind, EStateM.bind]
  cases step m with
  | ok a between =>
    constructor
    · exact fun failed => .inr ⟨a, between, rfl, failed⟩
    · rintro (⟨⟨⟩⟩ | ⟨_, _, ⟨⟩, failed⟩)
      exact failed
  | error stopped between =>
    constructor
    · rintro ⟨⟩
      exact .inl rfl
    · rintro (⟨⟨⟩⟩ | ⟨_, _, ⟨⟩, -⟩)
      rfl

theorem get_bind {next : Machine → EvalM α} : (MonadState.get >>= next) m = next m m :=
  rfl

theorem ok_amend_iff {step : EvalM α} {change : Machine → EvalError → EvalError} {a : α} :
    Run.amend change step m = .ok a later ↔ step m = .ok a later := by
  rw [Run.amend]
  cases step m with
  | ok b between => rfl
  | error stopped between =>
    cases stopped <;> constructor <;> rintro ⟨⟩

theorem error_amend_iff {step : EvalM α} {change : Machine → EvalError → EvalError}
    {e : EvalError} :
    Run.amend change step m = .error (.error e) later ↔
      ∃ inner, step m = .error (.error inner) later ∧ e = change later inner := by
  rw [Run.amend]
  cases step m with
  | ok b between =>
    constructor
    · rintro ⟨⟩
    · rintro ⟨_, ⟨⟩, -⟩
  | error stopped between =>
    cases stopped with
    | error inner =>
      constructor
      · rintro ⟨⟩
        exact ⟨inner, rfl, rfl⟩
      · rintro ⟨_, ⟨⟩, rfl⟩
        rfl
    | _ =>
      constructor
      · rintro ⟨⟩
      · rintro ⟨_, ⟨⟩, -⟩

/-- Actuals fail when one of them does, after those before it. -/
theorem error_evalActuals_iff {frame : FrameId} {actuals : List (Option Symbol × Expr)} :
    evalActuals evaluate frame actuals m = .error stop later ↔
      ∃ part, InOrder evaluate frame (actuals.map Prod.snd) m part ∧
        evaluate part.expr part.frame part.machine = .error stop later := by
  induction actuals generalizing m with
  | nil =>
    constructor
    · rintro ⟨⟩
    · rintro ⟨part, ⟨⟩, -⟩
  | cons actual rest ih =>
    obtain ⟨name, value⟩ := actual
    rw [evalActuals, error_bind_iff]
    constructor
    · rintro (failed | ⟨v, between, done, failed⟩)
      · exact ⟨_, .first, failed⟩
      -- An actual that comes later fails in the evaluation of the rest.
      · rcases error_bind_iff.mp failed with failed | ⟨_, _, -, ⟨⟩⟩
        obtain ⟨part, inside, failed⟩ := ih.mp failed
        exact ⟨part, .later done inside, failed⟩
    · rintro ⟨part, _ | ⟨done, inside⟩, failed⟩
      · exact .inl failed
      · exact .inr ⟨_, _, done, error_bind_iff.mpr (.inl (ih.mpr ⟨part, inside, failed⟩))⟩

/-- So does a block. -/
theorem error_evalBlock_iff {frame : FrameId} {body : List Expr} {last : Value} :
    evalBlock evaluate frame last body m = .error stop later ↔
      ∃ part, InOrder evaluate frame body m part ∧
        evaluate part.expr part.frame part.machine = .error stop later := by
  induction body generalizing m last with
  | nil =>
    constructor
    · rintro ⟨⟩
    · rintro ⟨part, ⟨⟩, -⟩
  | cons e rest ih =>
    rw [evalBlock, error_bind_iff]
    constructor
    · rintro (failed | ⟨v, between, done, failed⟩)
      · exact ⟨_, .first, failed⟩
      · obtain ⟨part, inside, failed⟩ := ih.mp failed
        exact ⟨part, .later done inside, failed⟩
    · rintro ⟨part, _ | ⟨done, inside⟩, failed⟩
      · exact .inl failed
      · exact .inr ⟨_, _, done, ih.mpr ⟨part, inside, failed⟩⟩

/-- A default fails when it is evaluated and fails; putting its value into the frame does not
fail with an error. -/
theorem error_fillDefault_iff {layout : Layout} {frame : FrameId} {index : Nat} {e : EvalError} :
    fillDefault evaluate layout frame index m = .error (.error e) later ↔
      ∃ default, m.heap.get frame index = none ∧ layout.defaultFor index = some default ∧
        evaluate default frame m = .error (.error e) later := by
  rw [fillDefault, get_bind]
  cases bound : m.heap.get frame index with
  | some v =>
    constructor
    · rintro ⟨⟩
    · rintro ⟨default, ⟨⟩, -⟩
  | none =>
    cases known : layout.defaultFor index with
    | none =>
      constructor
      · rintro ⟨⟩
      · rintro ⟨default, -, ⟨⟩, -⟩
    | some default =>
      rw [if_pos Option.isNone_none]
      dsimp only
      rw [error_bind_iff]
      constructor
      · rintro (failed | ⟨v, between, -, failed⟩)
        · exact ⟨default, rfl, rfl, failed⟩
        · rcases error_bind_iff.mp failed with ⟨⟨⟩⟩ | ⟨_, _, ⟨⟩, failed⟩
          rcases error_bind_iff.mp failed with failed | ⟨_, _, -, ⟨⟩⟩
          -- Only a defect could come from the frame, which is no error.
          cases changed : between.setSlot frame index v with
          | error defect => rw [changed] at failed; cases failed
          | ok after => rw [changed] at failed; cases failed
      · rintro ⟨default, -, ⟨⟩, failed⟩
        exact .inl failed

/-- Defaults fail when one of them does, after those before it are filled. -/
theorem error_fillDefaults_iff {layout : Layout} {frame : FrameId} {e : EvalError} :
    fillDefaults evaluate layout frame m = .error (.error e) later ↔
      ∃ index < layout.params.length, ∃ between default,
        (List.range index).forM (fillDefault evaluate layout frame) m = .ok () between ∧
        between.heap.get frame index = none ∧ layout.defaultFor index = some default ∧
        evaluate default frame between = .error (.error e) later := by
  -- On the number of parameters, the last of them at the end of the loop.
  have fails_before (count : Nat) :
      ((List.range count).forM (fillDefault evaluate layout frame) : EvalM Unit) m =
          .error (.error e) later ↔
        ∃ index < count, ∃ between default,
          ((List.range index).forM (fillDefault evaluate layout frame) : EvalM Unit) m =
            .ok () between ∧
          between.heap.get frame index = none ∧ layout.defaultFor index = some default ∧
          evaluate default frame between = .error (.error e) later := by
    induction count with
    | zero =>
      constructor
      · rintro ⟨⟩
      · rintro ⟨index, before, -⟩
        exact absurd before (Nat.not_lt_zero index)
    | succ count ih =>
      rw [List.range_succ, forM_append]
      rw [error_bind_iff, ih]
      constructor
      · rintro (⟨index, before, failed⟩ | ⟨_, between, filled, failed⟩)
        · exact ⟨index, Nat.lt_succ_of_lt before, failed⟩
        · rcases error_bind_iff.mp failed with failed | ⟨_, _, -, ⟨⟩⟩
          obtain ⟨default, failed⟩ := error_fillDefault_iff.mp failed
          exact ⟨count, Nat.lt_succ_self count, between, default, filled, failed⟩
      · rintro ⟨index, before, between, default, filled, failed⟩
        rcases Nat.lt_succ_iff_lt_or_eq.mp before with before | rfl
        · exact .inl ⟨index, before, between, default, filled, failed⟩
        · exact .inr ⟨(), between, filled,
            error_bind_iff.mpr (.inl (error_fillDefault_iff.mpr ⟨default, failed⟩))⟩
  exact fails_before layout.params.length

/-! ### Matching -/

/-- Matching gives the binding of the call. It changes nothing if it fails. -/
theorem matchKnown_eq (site : Option Site) (f : Callable) (labels : List (Option Symbol))
    (m : Machine) :
    matchKnown site f.key f.formals labels m =
      match m.bindings site f labels with
      | .ok (binding, later) => .ok binding later
      | .error cause => .error (.error { cause }) m := by
  -- Matching as it is written, after its first step, which only reads the machine.
  change (match m.cache, site with
    | some cache, some site =>
      match knownBinding cache (site.id, f.key) with
      | some binding => pure binding
      | none => do
        let binding ← Run.ofCause (Matching.matchCall f.formals labels)
        modify fun m => { m with cache := some (((site.id, f.key), binding) :: cache) }
        pure binding
    | _, _ => Run.ofCause (Matching.matchCall f.formals labels) : EvalM Binding) m = _
  unfold Machine.bindings Machine.known Machine.keep
  cases m.cache with
  | none => cases Matching.matchCall f.formals labels <;> rfl
  | some cache =>
    cases site with
    | none => cases Matching.matchCall f.formals labels <;> rfl
    | some site =>
      dsimp only [Option.bind_some]
      cases knownBinding cache (site.id, f.key) with
      | some binding => rfl
      | none => cases Matching.matchCall f.formals labels <;> rfl

/-! ### Calls -/

/-- What is done inside the call of a value, once it has a binding. -/
def inside (context : Context) (evaluate : Evaluator) (callee : Value) (binding : Binding)
    (actuals : Parts) : EvalM Value :=
  match callee with
  | .closure layout env => insideClosure evaluate layout binding actuals env
  | .builtin _ handle =>
    match context.builtins.get handle with
    | some builtin => insideBuiltin context builtin binding actuals
    | none => pure .null
  | _ => pure .null

theorem balanced_inside (balanced : ∀ e frame, Balanced (evaluate e frame)) (callee : Value)
    (binding : Binding) (actuals : Parts) :
    Balanced (inside context evaluate callee binding actuals) := by
  unfold inside
  split
  · exact balanced_insideClosure balanced _ _ _ _
  · split
    · exact balanced_insideBuiltin _ _ _
    · exact .pure _
  · exact .pure _

theorem enter_iff {name : Symbol} {site : Option Site} :
    enter name site m = .ok () later ↔
      m.stack.isFull = false ∧ later = m.within ⟨name, site.map Site.span⟩ := by
  rw [enter_eq, CallStack.push]
  cases m.stack.isFull with
  | true =>
    constructor
    · rintro ⟨⟩
    · rintro ⟨⟨⟩, -⟩
  | false =>
    constructor
    · rintro ⟨⟩
      exact ⟨rfl, rfl⟩
    · rintro ⟨-, rfl⟩
      rfl

/-- A step inside a call, if there is room for the call. The stack afterwards is the one from
before. -/
theorem inCall_of_balanced {step : EvalM α} (balanced : Balanced step) (name : Symbol)
    (site : Option Site) (m : Machine) :
    inCall name site step m =
      if m.stack.isFull then
        .error (.error (m.stack.attach { cause := .stackOverflow (m.stack.limit.getD 0) })) m
      else match step (m.within ⟨name, site.map Site.span⟩) with
        | .ok a later => .ok a { later with stack := m.stack }
        | .error (.error e) later =>
          .error (.error (later.stack.attach e)) { later with stack := m.stack }
        | .error stop later => .error stop later := by
  rw [inCall_eq, enter_eq, CallStack.push]
  by_cases full : m.stack.isFull
  · simp only [full, if_true]
  simp only [full, Bool.false_eq_true, if_false]
  change (match step (m.within ⟨name, site.map Site.span⟩) with
    | .ok a m₂ => (do leave; pure a : EvalM α) m₂
    | .error (.error e) m₂ => (do leave; throw (Stop.error (m₂.stack.attach e)) : EvalM α) m₂
    | .error stop m₂ => .error stop m₂) = _
  -- What is inside leaves the call on top of the stack, so that leaving finds it there.
  have popped {later : Machine}
      (same : later.stack = (m.within ⟨name, site.map Site.span⟩).stack) :
      later.stack.pop = .ok m.stack := by
    rw [same]
    rfl
  have settles := balanced (m.within ⟨name, site.map Site.span⟩)
  cases outcome : step (m.within ⟨name, site.map Site.span⟩) with
  | ok a later =>
    rw [outcome] at settles
    simp only [bind, EStateM.bind, leave_eq_of_pop (popped settles)]
    rfl
  | error stop later =>
    rw [outcome] at settles
    cases stop with
    | error e =>
      simp only [bind, EStateM.bind, leave_eq_of_pop (popped settles)]
      rfl
    | defect defect => rfl
    | exhausted => rfl

/-- A call of a function gets its binding, is put on the stack if there is room, and does what
is inside. An error gets the backtrace of the calls in progress and the place of the call,
unless it has them. -/
theorem call_of_callable (balanced : ∀ e frame, Balanced (evaluate e frame)) {callee : Value}
    {f : Callable} (callable : context.callable? callee = some f) (actuals : Parts) (site : Site)
    (m : Machine) :
    call context evaluate callee actuals (some site) m =
      match m.bindings (some site) f (actuals.map Prod.fst) with
      | .error cause => .error (.error ((m.stack.attach { cause }).withSpan site.span)) m
      | .ok (binding, bound) =>
        if m.stack.isFull then
          let overflow := { cause := .stackOverflow (m.stack.limit.getD 0) }
          .error (.error ((m.stack.attach overflow).withSpan site.span)) bound
        else match inside context evaluate callee binding actuals
            (bound.within ⟨f.name, some site.span⟩) with
          | .ok a later => .ok a { later with stack := m.stack }
          | .error (.error e) later =>
            .error (.error ((later.stack.attach e).withSpan site.span))
              { later with stack := m.stack }
          | .error stop later => .error stop later := by
  -- Closures and builtins are called alike, and nothing else is callable.
  have unfolded : call context evaluate callee actuals (some site) =
      Run.located (some site.span) (do
        let binding ← backtraced <| matchKnown (some site) f.key f.formals (actuals.map Prod.fst)
        inCall f.name (some site) (inside context evaluate callee binding actuals)) := by
    cases callee with
    | closure layout env =>
      cases callable
      rfl
    | builtin name handle =>
      obtain ⟨builtin, known, rfl⟩ := Option.map_eq_some_iff.mp callable
      rw [call, callBuiltin_eq known]
      simp only [inside, known]
      rfl
    | null => cases callable
    | vector => cases callable
  rw [unfolded, Run.located, Run.amend]
  simp only [bind, EStateM.bind, backtraced, Run.amend, matchKnown_eq]
  cases bound : m.bindings (some site) f (actuals.map Prod.fst) with
  | error cause => rfl
  | ok result =>
    obtain ⟨binding, later⟩ := result
    obtain ⟨cache, rfl⟩ := Machine.eq_of_bindings bound
    dsimp only
    rw [inCall_of_balanced (balanced_inside balanced callee binding actuals)]
    by_cases full : m.stack.isFull
    · simp only [full, if_true]
    · simp only [full, Bool.false_eq_true, if_false, Option.map_some]
      rcases inside context evaluate callee binding actuals _ with _ | ⟨_ | _ | _, _⟩ <;> rfl

/-- A call of a closure gets a frame when it gets a binding and there is room for it. -/
theorem entered_iff {layout : Layout} {env frame : FrameId} {actuals : Parts}
    {site : Option Site} :
    entered layout env actuals site m = .ok frame later ↔
      ∃ binding bound, m.bindings site layout.callable (actuals.map Prod.fst) =
          .ok (binding, bound) ∧
        m.stack.isFull = false ∧
        newFrame layout binding actuals env (bound.within ⟨layout.name, site.map Site.span⟩) =
          .ok frame later := by
  let f := layout.callable
  constructor
  · intro opened
    obtain ⟨binding, m₁, matched, opened⟩ := ok_of_bind opened
    obtain ⟨⟨⟩, m₂, enters, opened⟩ := ok_of_bind opened
    rw [backtraced, ok_amend_iff] at matched
    -- A kept binding is taken over, and any other is the one that matching finds.
    have bound : m.bindings site f (actuals.map Prod.fst) = .ok (binding, m₁) := by
      rw [matchKnown_eq site f] at matched
      cases bound : m.bindings site f (actuals.map Prod.fst) with
      | error cause => rw [bound] at matched; cases matched
      | ok result => rw [bound] at matched; cases matched; rfl
    obtain ⟨cache, rfl⟩ := Machine.eq_of_bindings bound
    obtain ⟨room, rfl⟩ := enter_iff.mp enters
    exact ⟨binding, _, bound, room, opened⟩
  · rintro ⟨binding, bound, matched, room, opened⟩
    obtain ⟨cache, rfl⟩ := Machine.eq_of_bindings matched
    have kept : matchKnown site f.key f.formals (actuals.map Prod.fst) m =
        .ok binding { m with cache } := by
      rw [matchKnown_eq, matched]
    exact entered_of_steps (ok_amend_iff.mpr kept) (enter_iff.mpr ⟨room, rfl⟩) opened

/-- Where anything of a function is evaluated in a call, the call got a binding and there was room
for it. -/
theorem exists_bound_of_callPart {layout : Layout} {env : FrameId} {actuals : Parts}
    {site : Option Site} {part : Moment}
    (visited : CallPart evaluate layout env actuals site m part) :
    ∃ binding bound, m.bindings site layout.callable (actuals.map Prod.fst) =
      .ok (binding, bound) ∧ m.stack.isFull = false := by
  obtain ⟨frame, later, opened⟩ : ∃ frame later,
      entered layout env actuals site m = .ok frame later := by
    cases visited with
    | default opened => exact ⟨_, _, opened⟩
    | body opened => exact ⟨_, _, opened⟩
  obtain ⟨binding, bound, matched, room, -⟩ := entered_iff.mp opened
  exact ⟨binding, bound, matched, room⟩

/-- What is inside the call of a closure fails when one of the parts of the call does. -/
theorem error_insideClosure_iff {layout : Layout} {env : FrameId} {actuals : Parts}
    {site : Option Site} {binding : Binding} {bound : Machine} {e : EvalError}
    (matched : m.bindings site layout.callable (actuals.map Prod.fst) =
      .ok (binding, bound))
    (room : m.stack.isFull = false) :
    insideClosure evaluate layout binding actuals env
        (bound.within ⟨layout.name, site.map Site.span⟩) = .error (.error e) later ↔
      ∃ part, CallPart evaluate layout env actuals site m part ∧
        evaluate part.expr part.frame part.machine = .error (.error e) later := by
  -- Making the frame never fails: what can fail are the defaults and the body.
  obtain ⟨frame, m₁, opened⟩ : ∃ frame m₁, newFrame layout binding actuals env
      (bound.within ⟨layout.name, site.map Site.span⟩) = .ok frame m₁ := ⟨_, _, rfl⟩
  have entered := entered_iff.mpr ⟨binding, bound, matched, room, opened⟩
  have unfolded : insideClosure evaluate layout binding actuals env
        (bound.within ⟨layout.name, site.map Site.span⟩) =
      (do fillDefaults evaluate layout frame; evaluate layout.body frame : EvalM Value) m₁ := by
    cases opened
    rfl
  rw [unfolded, error_bind_iff, error_fillDefaults_iff]
  constructor
  · rintro (⟨index, -, between, default, filled, unbound, known, failed⟩ |
      ⟨_, between, filled, failed⟩)
    · exact ⟨_, .default entered filled unbound known, failed⟩
    · exact ⟨_, .body entered filled, failed⟩
  · rintro ⟨part, visited, failed⟩
    cases visited with
    | @default frame' m₁' m₂ index default entered' filled unbound known =>
      cases entered.symm.trans entered'
      -- Only a declared parameter has a default.
      have declared : index < layout.params.length := by
        refine Nat.lt_of_not_le fun past => ?_
        simp [Layout.defaultFor, List.getElem?_eq_none past] at known
      exact .inl ⟨index, declared, m₂, default, filled, unbound, known, failed⟩
    | body entered' filled =>
      cases entered.symm.trans entered'
      exact .inr ⟨(), _, filled, failed⟩

/-- An error inside a call is the error of the call. -/
theorem error_call_of_inside (balanced : ∀ e frame, Balanced (evaluate e frame)) {callee : Value}
    {f : Callable} (callable : context.callable? callee = some f) {actuals : Parts} {site : Site}
    {binding : Binding} {bound : Machine} {e : EvalError}
    (matched : m.bindings (some site) f (actuals.map Prod.fst) = .ok (binding, bound))
    (room : m.stack.isFull = false)
    (failed : inside context evaluate callee binding actuals
      (bound.within ⟨f.name, some site.span⟩) = .error (.error e) later) :
    call context evaluate callee actuals (some site) m =
      .error (.error ((later.stack.attach e).withSpan site.span))
        { later with stack := m.stack } := by
  rw [call_of_callable balanced callable, matched]
  dsimp only
  rw [room, if_neg Bool.false_ne_true, failed]

/-- A value that is no function is not called. -/
theorem call_of_not_callable {callee : Value} (uncallable : context.callable? callee = none)
    (actuals : Parts) (site : Site) (m : Machine) :
    ∃ e, (e = { cause := .notCallable callee.typeName } ∨
        e = m.stack.attach { cause := .notCallable callee.typeName }) ∧
      call context evaluate callee actuals (some site) m =
        .error (.error (e.withSpan site.span)) m := by
  cases callee with
  | closure layout env => cases uncallable
  | builtin name handle =>
    have unknown := Option.map_eq_none_iff.mp uncallable
    refine ⟨_, .inl rfl, ?_⟩
    simp only [call, callBuiltin, unknown]
    rfl
  | null => exact ⟨_, .inr rfl, rfl⟩
  | vector => exact ⟨_, .inr rfl, rfl⟩

end EvalM

end Vectorial
