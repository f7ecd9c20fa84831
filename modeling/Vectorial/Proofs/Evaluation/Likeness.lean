import Mathlib.Data.List.Forall2
import Vectorial.Proofs.Builtin.Alike
import Vectorial.Proofs.Evaluation.Calls
import Vectorial.Proofs.Session

/-!
# Two evaluations side by side

The same expression is evaluated in two contexts, from machines that are alike. What has to be
shown of the values and the machines that are alike is what evaluation does with them one at a
time: reading and binding variables, operators, calls of builtins, matching, and the frames of
calls. From this it follows for expressions as a whole: both evaluations come to alike ends.

The second evaluation may also be cut short by an error that the first does not have. Nothing
in the language catches an error, so that the evaluation as a whole ends with it.

A call is put on the stack of both machines at once. Whether there is room on the second stack
whenever there is on the first is asked at each call that the first evaluation comes to.

## Main definitions

* `EvalM.Meets`, `EvalM.Tracks`: alike ends, and steps that come to them;
* `Likeness`: values and machines that are alike, with the laws of single steps;
* `EvalM.Approaches`, `EvalM.Reaches`: the calls that an evaluation comes to.

## Main results

* `Likeness.tracks_call`: calls come to alike ends if the evaluation of their parts does;
* `Likeness.tracks_step`: so does one step of evaluation;
* `Likeness.tracks_eval`: evaluations come to alike ends.
-/

namespace Vectorial

variable {α β γ δ ε : Type}

/-! ### Calls that an evaluation comes to -/

namespace EvalM

/-- The calls of a value that come to be put on the stack, each with the machine that it is put on:
the value is a function, and its actuals are matched. -/
inductive Approaches (context : Context) (callee : Value) (actuals : Parts) (site : Option Site)
    (m : Machine) : CallFrame → Machine → Prop where
  | intro {f : Callable} {binding : Binding} {bound : Machine}
      (callable : context.callable? callee = some f)
      (matched : m.bindings site f (actuals.map Prod.fst) = .ok (binding, bound)) :
      Approaches context callee actuals site m ⟨f.name, site.map Site.span⟩ bound

/-- The calls that come to be put on the stack while an expression is evaluated, to a bounded
depth. -/
inductive Reaches (context : Context) : Nat → Moment → CallFrame → Machine → Prop where
  | here {depth : Nat} {site : Site} {callee : Expr} {actuals : List (Option Symbol × Expr)}
      {frame : FrameId} {v : Value} {parts : Parts} {m m₁ m₂ bound : Machine} {call : CallFrame} :
      eval context depth callee frame m = .ok v m₁ →
      evalActuals (eval context depth) frame actuals m₁ = .ok parts m₂ →
      Approaches context v parts (some site) m₂ call bound →
      Reaches context (depth + 1) ⟨.call site callee actuals, frame, m⟩ call bound
  | inside {depth : Nat} {outer part : Moment} {bound : Machine} {call : CallFrame} :
      Part (eval context depth) outer part → Reaches context depth part call bound →
      Reaches context (depth + 1) outer call bound

/-! ### Alike ends -/

section

variable (machines : Machine → Machine → Prop) (cuts : Cause → Prop)

/-- Ends that are alike: related results, or the same stop, in machines that are alike. The second
may instead be cut short by an error of its own. -/
inductive Meets (Q : α → β → Prop) :
    EStateM.Result Stop Machine α → EStateM.Result Stop Machine β → Prop where
  | ok {a : α} {b : β} {m n : Machine} (related : Q a b) (alike : machines m n) :
      Meets Q (.ok a m) (.ok b n)
  | stop {stop : Stop} {m n : Machine} (alike : machines m n) :
      Meets Q (.error stop m) (.error stop n)
  | cut {result : EStateM.Result Stop Machine α} {e : EvalError} {n : Machine}
      (short : cuts e.cause) : Meets Q result (.error (.error e) n)

/-- Whether a step from `m` and another one from `n` come to alike ends. -/
def Tracks (Q : α → β → Prop) (step : EvalM α) (other : EvalM β) (m n : Machine) : Prop :=
  Meets machines cuts Q (step m) (other n)

end

variable {machines : Machine → Machine → Prop} {cuts : Cause → Prop}
variable {Q : α → β → Prop} {R : γ → δ → Prop} {m n : Machine}
variable {step : EvalM α} {other : EvalM β}

namespace Tracks

theorem pure {a : α} {b : β} (related : Q a b) (alike : machines m n) :
    Tracks machines cuts Q (Pure.pure a) (Pure.pure b) m n :=
  Meets.ok related alike

theorem stop (stop : Stop) (alike : machines m n) :
    Tracks machines cuts Q (throw stop) (throw stop) m n :=
  Meets.stop alike

theorem bind {next : α → EvalM γ} {further : β → EvalM δ}
    (first : Tracks machines cuts Q step other m n)
    (second : ∀ a b m' n', step m = .ok a m' → Q a b → machines m' n' →
      Tracks machines cuts R (next a) (further b) m' n') :
    Tracks machines cuts R (step >>= next) (other >>= further) m n := by
  change Meets machines cuts R (EStateM.bind step next m) (EStateM.bind other further n)
  unfold Tracks at first
  unfold EStateM.bind
  generalize leads : step m = result at first ⊢
  generalize other n = result' at first ⊢
  cases first with
  | ok related alike => exact second _ _ _ _ leads related alike
  | stop alike => exact .stop alike
  | cut short => exact .cut short

theorem get {next : Machine → EvalM α} {further : Machine → EvalM β}
    (tracks : Tracks machines cuts Q (next m) (further n) m n) :
    Tracks machines cuts Q (MonadState.get >>= next) (MonadState.get >>= further) m n :=
  tracks

/-- Errors may be changed on both sides if alike machines change them in the same way, and what
cuts the second step short stays what it is. -/
theorem amend {change : Machine → EvalError → EvalError}
    (blind : ∀ m n e, machines m n → change m e = change n e)
    (kept : ∀ n e, (change n e).cause = e.cause)
    (tracks : Tracks machines cuts Q step other m n) :
    Tracks machines cuts Q (Run.amend change step) (Run.amend change other) m n := by
  unfold Tracks Run.amend at *
  generalize step m = result at tracks ⊢
  generalize other n = result' at tracks ⊢
  cases tracks with
  | ok related alike => exact .ok related alike
  | @stop stop m' n' alike =>
    cases stop with
    | error e =>
      dsimp only
      -- The two machines cannot be told apart by the change.
      rw [blind m' n' e alike]
      exact .stop alike
    | defect defect => exact .stop alike
    | exhausted => exact .stop alike
  | @cut _ e n' short =>
    refine .cut ?_
    rw [kept]
    exact short

theorem located {span : Option Span} (tracks : Tracks machines cuts Q step other m n) :
    Tracks machines cuts Q (Run.located span step) (Run.located span other) m n := by
  cases span with
  | none => exact tracks
  | some span => exact tracks.amend (fun _ _ _ _ => rfl) fun _ _ => rfl

theorem ofExcept {ε : Type} {stops : ε → Stop} {x : Except ε α} {y : Except ε β}
    (alike : machines m n) (likewise : Likewise Q x y) :
    Tracks machines cuts Q (Run.ofExcept stops x) (Run.ofExcept stops y) m n := by
  cases likewise with
  | ok related => exact .pure related alike
  | error e => exact .stop _ alike

end Tracks

end EvalM

/-! ### Likeness -/

/-- Layouts that name a function alike and have the same parameters and the same text. -/
structure Layout.Resembles (layout other : Layout) : Prop where
  name : other.name = layout.name
  params : other.params = layout.params
  body : other.body = layout.body

/-- Values that are called alike: closures of the same text in the same frame, the same builtin, or
no functions at all. -/
inductive Value.Resembles : Value → Value → Prop where
  | closure {layout other : Layout} (like : layout.Resembles other) (env : FrameId) :
      Value.Resembles (.closure layout env) (.closure other env)
  | builtin (name : Symbol) (handle : Nat) :
      Value.Resembles (.builtin name handle) (.builtin name handle)
  | data {v w : Value} (first : v.isFunction = false) (second : w.isFunction = false)
      (same : w.typeName = v.typeName) : Value.Resembles v w

/-- Actuals of the same names whose values are related. -/
abbrev Parts.Likewise (values : Value → Value → Prop) : Parts → Parts → Prop :=
  List.Forall₂ fun part other => other.1 = part.1 ∧ values part.2 other.2

open EvalM in
/-- Which values and machines are alike in two contexts, which expressions may be evaluated in
which frames, and which errors may cut the second evaluation short. The laws are about single
steps. -/
structure Likeness (context other : Context) where
  values : Value → Value → Prop
  machines : Machine → Machine → Prop
  places : Expr → FrameId → Prop
  cuts : Cause → Prop
  same_builtins : other.builtins = context.builtins
  same_calls {m n : Machine} : machines m n → n.stack.frames = m.stack.frames
  full {m n : Machine} : machines m n → m.stack.isFull → n.stack.isFull
  restack {m n : Machine} (calls : Backtrace) : machines m n →
    machines { m with stack := { m.stack with frames := calls } }
      { n with stack := { n.stack with frames := calls } }
  places_part {e part : Expr} {frame : FrameId} :
    places e frame → part ∈ e.parts → places part frame
  literal (value : Literal) : values (literalValue value) (literalValue value)
  resembles {v w : Value} : values v w → v.Resembles w
  read {m n : Machine} {site : Site} {name : Symbol} {frame : FrameId} :
    machines m n → places (.ident site name) frame →
      Likewise values (m.read name frame) (n.read name frame)
  assign {m n : Machine} {site : Site} {target : Symbol} {value : Expr} {frame : FrameId}
      {v w : Value} :
    machines m n → places (.assign site target value) frame → values v w →
      Likewise machines (m.assign target v frame) (n.assign target w frame)
  assignOuter {m n : Machine} {site : Site} {target : Symbol} {value : Expr} {frame : FrameId}
      {v w : Value} :
    machines m n → places (.superAssign site target value) frame → values v w →
      Likewise machines (m.assignOuter target v frame) (n.assignOuter target w frame)
  function {site : Site} {params : List (Symbol × Option Expr)} {body : Expr} {frame : FrameId} :
    places (.function site params body) frame →
      Option.Rel (fun layout layout' => values (.closure layout frame) (.closure layout' frame))
        (context.program.layout? site.id) (other.program.layout? site.id)
  test {m n : Machine} {v w : Value} : machines m n → values v w →
    Tracks machines cuts Eq (onHeap (HeapM.attempt (truthOf v)))
      (onHeap (HeapM.attempt (truthOf w))) m n
  binary {m n : Machine} (op : BinaryOp) {left right left' right' : Value} :
    machines m n → values left left' → values right right' →
      Tracks machines cuts values (onHeap (HeapM.attempt (Value.binary op left right)))
        (onHeap (HeapM.attempt (Value.binary op left' right'))) m n
  counted {m n : Machine} {v w : Value} : machines m n → values v w →
    Tracks machines cuts values (EvalM.counted context.mode v) (EvalM.counted other.mode w) m n
  operate {m n : Machine} {handle : Nat} {builtin : Builtin} {actuals actuals' : Parts}
      (binding : Binding) :
    machines m n → context.builtins.get handle = some builtin →
      Parts.Likewise values actuals actuals' →
      Tracks machines cuts values
        (onHeap (HeapM.operate (builtin.run ⟨builtin.formals, binding, actuals⟩)))
        (onHeap (HeapM.operate (builtin.run ⟨builtin.formals, binding, actuals'⟩))) m n
  bindings {m n : Machine} {v w : Value} {f g : Callable} {site : Option Site}
      {labels : List (Option Symbol)} :
    machines m n → values v w → context.callable? v = some f → other.callable? w = some g →
      (∀ s, site = some s → ∃ callee actuals frame,
        places (.call s callee actuals) frame ∧ labels = actuals.map Prod.fst) →
      Likewise (fun kept kept' => kept'.1 = kept.1 ∧ machines kept.2 kept'.2)
        (m.bindings site f labels) (n.bindings site g labels)
  newFrame {m n : Machine} {layout layout' : Layout} {env : FrameId} {actuals actuals' : Parts}
      (binding : Binding) :
    machines m n → values (.closure layout env) (.closure layout' env) →
      Parts.Likewise values actuals actuals' →
      Tracks machines cuts
        (fun id id' => id' = id ∧ ∀ e ∈ ownText layout.params layout.body, places e id)
        (newFrame layout binding actuals env) (newFrame layout' binding actuals' env) m n
  unbound {m n : Machine} {e : Expr} {frame : FrameId} (slot : Nat) :
    machines m n → places e frame →
      (n.heap.get frame slot).isNone = (m.heap.get frame slot).isNone
  setSlot {m n : Machine} {e : Expr} {frame : FrameId} (slot : Nat) {v w : Value} :
    machines m n → places e frame → values v w →
      Likewise machines (m.setSlot frame slot v) (n.setSlot frame slot w)

namespace Likeness

open EvalM

variable {context other : Context} (L : Likeness context other)

/-- Alike ends. -/
abbrev Tracks (Q : α → β → Prop) (step : EvalM α) (instead : EvalM β) (m n : Machine) : Prop :=
  EvalM.Tracks L.machines L.cuts Q step instead m n

/-- Whether the second machine has room for a call if the first has. It may lack it if the
lack cuts the evaluation short. -/
def Room (m n : Machine) : Prop :=
  n.stack.isFull → n.stack = m.stack ∨ L.cuts (.stackOverflow (n.stack.limit.getD 0))

variable {L} {m n : Machine} {Q : α → β → Prop}

theorem Tracks.backtraced {step : EvalM α} {instead : EvalM β}
    (tracks : L.Tracks Q step instead m n) :
    L.Tracks Q (EvalM.backtraced step) (EvalM.backtraced instead) m n := by
  refine EvalM.Tracks.amend (fun m n e alike => ?_) (fun n e => ?_) tracks
  · rw [CallStack.attach, CallStack.attach, L.same_calls alike]
  · rw [CallStack.attach]
    split <;> rfl

/-! ### Calls -/

section

variable {evaluate instead : Evaluator} {actuals actuals' : Parts} {site : Option Site}

theorem map_fst_of_likewise {values : Value → Value → Prop}
    (alike : Parts.Likewise values actuals actuals') :
    actuals'.map Prod.fst = actuals.map Prod.fst := by
  induction alike with
  | nil => rfl
  | cons first _ ih => rw [List.map_cons, List.map_cons, first.1, ih]

/-- The bindings of a call of alike values are the same. -/
theorem tracks_matchKnown {v w : Value} {f g : Callable} {labels : List (Option Symbol)}
    (alike : L.machines m n) (values : L.values v w) (callable : context.callable? v = some f)
    (callable' : other.callable? w = some g)
    (placed : ∀ s, site = some s → ∃ callee actuals frame,
      L.places (.call s callee actuals) frame ∧ labels = actuals.map Prod.fst) :
    L.Tracks Eq
      (matchKnown site f.key f.formals labels) (matchKnown site g.key g.formals labels) m n := by
  unfold Likeness.Tracks EvalM.Tracks
  rw [matchKnown_eq, matchKnown_eq]
  have likewise := L.bindings alike values callable callable' placed
  generalize m.bindings site f labels = result at likewise ⊢
  generalize n.bindings site g labels = result' at likewise ⊢
  cases likewise with
  | ok related => exact .ok related.1.symm related.2
  | error cause => exact .stop alike

/-- What a call is bound to is known when its matching is done. -/
theorem bindings_of_matchKnown {f : Callable} {labels : List (Option Symbol)} {binding : Binding}
    {later : Machine}
    (matched : backtraced (matchKnown site f.key f.formals labels) m = .ok binding later) :
    m.bindings site f labels = .ok (binding, later) := by
  rw [EvalM.backtraced, ok_amend_iff, matchKnown_eq] at matched
  cases bound : m.bindings site f labels with
  | error cause =>
    rw [bound] at matched
    cases matched
  | ok result =>
    rw [bound] at matched
    cases matched
    rfl

/-- What is done inside a call comes to alike ends if it does with the call on both stacks. -/
theorem tracks_inCall {step : EvalM α} {instead : EvalM β} (balanced : Balanced instead)
    {name : Symbol} (alike : L.machines m n) (room : L.Room m n)
    (inside : ∀ m' n', enter name site m = .ok () m' → L.machines m' n' →
      L.Tracks Q step instead m' n') :
    L.Tracks Q (inCall name site step) (inCall name site instead) m n := by
  have calls := L.same_calls alike
  unfold Likeness.Tracks EvalM.Tracks
  rw [inCall_of_balanced balanced]
  by_cases full : n.stack.isFull
  · rw [if_pos full]
    rcases room full with same | short
    · rw [same] at full ⊢
      rw [inCall_eq, enter_eq, CallStack.push, if_pos full]
      exact .stop alike
    · refine .cut ?_
      rw [CallStack.attach]
      split <;> exact short
  · have free : ¬m.stack.isFull := fun first => full (L.full alike first)
    rw [if_neg full]
    have entered : enter name site m = .ok () (m.within ⟨name, site.map Site.span⟩) :=
      enter_iff.mpr ⟨by simpa using free, rfl⟩
    have tracks : L.Tracks Q step instead (m.within ⟨name, site.map Site.span⟩)
        (n.within ⟨name, site.map Site.span⟩) := by
      refine inside _ _ entered ?_
      have pushed := L.restack (⟨name, site.map Site.span⟩ :: m.stack.frames) alike
      rw [Machine.within, Machine.within, calls]
      exact pushed
    have settles := balanced (n.within ⟨name, site.map Site.span⟩)
    unfold Likeness.Tracks EvalM.Tracks at tracks
    -- The first call is left with the stack that the second is left with.
    have left {m' n' : Machine} (alike' : L.machines m' n')
        (same : n'.stack = (n.within ⟨name, site.map Site.span⟩).stack) :
        leave m' = .ok () { m' with stack := { m'.stack with frames := m.stack.frames } } ∧
          L.machines { m' with stack := { m'.stack with frames := m.stack.frames } }
            { n' with stack := n.stack } := by
      have popped := L.restack m.stack.frames alike'
      have frames := (L.same_calls alike').symm
      rw [same] at popped frames
      refine ⟨leave_eq_of_pop ?_, ?_⟩
      · rw [CallStack.pop, frames]
        change Except.ok { m'.stack with frames := n.stack.frames } = _
        rw [calls]
      · change L.machines _ { n' with stack := { n.stack with frames := m.stack.frames } } at popped
        rw [← calls] at popped ⊢
        exact popped
    rw [inCall_eq, entered]
    dsimp only
    generalize step (m.within ⟨name, site.map Site.span⟩) = result at tracks ⊢
    generalize instead (n.within ⟨name, site.map Site.span⟩) = result' at tracks settles ⊢
    cases tracks with
    | ok related alike' =>
      obtain ⟨leaves, last⟩ := left alike' settles
      simp only [bind, EStateM.bind, leaves]
      exact .ok related last
    | @stop stop m' n' alike' =>
      cases stop with
      | error e =>
        obtain ⟨leaves, last⟩ := left alike' settles
        simp only [bind, EStateM.bind, leaves]
        have attach_eq : m'.stack.attach e = n'.stack.attach e := by
          rw [CallStack.attach, CallStack.attach, L.same_calls alike']
        rw [attach_eq]
        exact .stop last
      | defect defect => exact .stop alike'
      | exhausted => exact .stop alike'
    | cut short =>
      refine .cut ?_
      rw [CallStack.attach]
      split <;> exact short

/-- A default comes to alike ends if its evaluation does, and it is evaluated in both frames or
in neither. -/
theorem tracks_fillDefault {layout layout' : Layout} (like : layout.Resembles layout')
    {frame : FrameId} {index : Nat} (alike : L.machines m n)
    (placed : ∀ e ∈ ownText layout.params layout.body, L.places e frame)
    (default : ∀ e, m.heap.get frame index = none → layout.defaultFor index = some e →
      L.Tracks L.values (evaluate e frame) (instead e frame) m n) :
    L.Tracks (fun _ _ => True) (fillDefault evaluate layout frame index)
      (fillDefault instead layout' frame index) m n := by
  have body_placed := placed _ Discipline.body_mem_ownText
  -- Layouts that resemble each other have the same defaults.
  have same : layout'.defaultFor index = layout.defaultFor index := by
    rw [Layout.defaultFor, Layout.defaultFor, like.params]
  unfold fillDefault
  refine EvalM.Tracks.get ?_
  rw [L.unbound index alike body_placed, same]
  split
  · next unbound =>
    cases known : layout.defaultFor index with
    | none => exact .pure trivial alike
    | some e =>
      refine (default e (Option.isNone_iff_eq_none.mp unbound) known).bind
        fun v w m' n' _ related alike' => EvalM.Tracks.get ?_
      have stored := L.setSlot index alike' body_placed related
      refine (EvalM.Tracks.ofExcept alike' stored).bind fun _ _ _ _ _ changed _ => ?_
      exact Meets.ok trivial changed
  · exact .pure trivial alike

/-- Defaults come to alike ends if each of them does, evaluated when those before it are filled. -/
theorem tracks_forM_fillDefault {layout layout' : Layout} (like : layout.Resembles layout')
    {frame : FrameId} (count : Nat) (alike : L.machines m n)
    (placed : ∀ e ∈ ownText layout.params layout.body, L.places e frame)
    (defaults : ∀ index m' n' e, (List.range index).forM (fillDefault evaluate layout frame) m =
      .ok () m' → L.machines m' n' → m'.heap.get frame index = none →
      layout.defaultFor index = some e →
      L.Tracks L.values (evaluate e frame) (instead e frame) m' n') :
    L.Tracks (fun _ _ => True) ((List.range count).forM (fillDefault evaluate layout frame))
      ((List.range count).forM (fillDefault instead layout' frame)) m n := by
  -- On the number of parameters, the last of them at the end of the loop.
  induction count with
  | zero => exact .pure trivial alike
  | succ count ih =>
    rw [List.range_succ, forM_append, forM_append]
    refine EvalM.Tracks.bind ih fun _ _ m' n' filled _ alike' => ?_
    have last := tracks_fillDefault like alike' placed fun e unbound known =>
      defaults count m' n' e filled alike' unbound known
    exact last.bind fun _ _ _ _ _ _ alike'' => .pure trivial alike''

theorem resembles_layout {layout layout' : Layout} {env env' : FrameId}
    (closures : L.values (.closure layout env) (.closure layout' env')) :
    layout.Resembles layout' := by
  rcases L.resembles closures with ⟨like, _⟩ | _ | ⟨function, _, _⟩
  · exact like
  · cases function

/-- A call of closures comes to alike ends if what it evaluates does. -/
theorem tracks_callClosure {layout layout' : Layout} {env : FrameId}
    (balanced : ∀ e frame, Balanced (instead e frame)) (alike : L.machines m n)
    (closures : L.values (.closure layout env) (.closure layout' env))
    (likewise : Parts.Likewise L.values actuals actuals')
    (placed : ∀ s, site = some s → ∃ callee given frame,
      L.places (.call s callee given) frame ∧ actuals.map Prod.fst = given.map Prod.fst)
    (room : ∀ call bound n', Approaches context (.closure layout env) actuals site m call bound →
      L.machines bound n' → L.Room bound n')
    (parts : ∀ part n', CallPart evaluate layout env actuals site m part →
      L.machines part.machine n' → L.places part.expr part.frame →
      L.Tracks L.values (evaluate part.expr part.frame) (instead part.expr part.frame)
        part.machine n') :
    L.Tracks L.values (callClosure evaluate layout env actuals site)
      (callClosure instead layout' env actuals' site) m n := by
  have like := resembles_layout closures
  rw [callClosure_eq, callClosure_eq, map_fst_of_likewise likewise, like.name]
  have matching : L.Tracks Eq
      (matchKnown site (.literal layout.literal) layout.formals (actuals.map Prod.fst))
      (matchKnown site (.literal layout'.literal) layout'.formals (actuals.map Prod.fst)) m n :=
    tracks_matchKnown (f := layout.callable) (g := layout'.callable) alike closures rfl rfl placed
  refine matching.backtraced.bind fun binding binding' m₁ n₁ matched same alike₁ => ?_
  subst same
  have approaches : Approaches context (.closure layout env) actuals site m
      ⟨layout.name, site.map Site.span⟩ m₁ :=
    .intro (f := layout.callable) rfl (bindings_of_matchKnown matched)
  refine tracks_inCall (balanced_insideClosure balanced _ _ _ _) alike₁
    (room _ _ _ approaches alike₁) fun m₂ n₂ enters alike₂ => ?_
  have frames := L.newFrame binding alike₂ closures likewise
  refine EvalM.Tracks.bind frames fun frame frame' m₃ n₃ opened related alike₃ => ?_
  obtain ⟨rfl, placed_text⟩ := related
  have opened := entered_of_steps matched enters opened
  -- The defaults and the body are parts of the call, each on the machine it is reached with.
  have filled : L.Tracks (fun _ _ => True) (fillDefaults evaluate layout frame')
      (fillDefaults instead layout' frame') m₃ n₃ := by
    unfold fillDefaults
    rw [like.params]
    exact tracks_forM_fillDefault like _ alike₃ placed_text
      fun index m' n' e done alike' unbound known =>
        parts _ n' (.default opened done unbound known) alike'
          (placed_text e (Discipline.mem_ownText_of_default known))
  refine EvalM.Tracks.bind filled fun _ _ m₄ n₄ done _ alike₄ => ?_
  rw [like.body]
  exact parts _ n₄ (.body opened done) alike₄
    (placed_text _ Discipline.body_mem_ownText)

/-- Calls of the same builtin come to alike ends. -/
theorem tracks_callBuiltin {name : Symbol} {handle : Nat} (alike : L.machines m n)
    (builtins : L.values (.builtin name handle) (.builtin name handle))
    (likewise : Parts.Likewise L.values actuals actuals')
    (placed : ∀ s, site = some s → ∃ callee given frame,
      L.places (.call s callee given) frame ∧ actuals.map Prod.fst = given.map Prod.fst)
    (room : ∀ call bound n', Approaches context (.builtin name handle) actuals site m call bound →
      L.machines bound n' → L.Room bound n') :
    L.Tracks L.values (callBuiltin context name handle actuals site)
      (callBuiltin other name handle actuals' site) m n := by
  cases known : context.builtins.get handle with
  | none =>
    have unknown : other.builtins.get handle = none := by rw [L.same_builtins, known]
    simp only [callBuiltin, known, unknown]
    exact .stop _ alike
  | some builtin =>
    have known' : other.builtins.get handle = some builtin := by rw [L.same_builtins, known]
    let f : Callable := ⟨.builtin handle, name, builtin.formals⟩
    have callable : context.callable? (.builtin name handle) = some f := by
      rw [Context.callable?, known, Option.map_some]
    have callable' : other.callable? (.builtin name handle) = some f := by
      rw [Context.callable?, known', Option.map_some]
    rw [callBuiltin_eq known, callBuiltin_eq known', map_fst_of_likewise likewise]
    have matching : L.Tracks Eq
        (matchKnown site (.builtin handle) builtin.formals (actuals.map Prod.fst))
        (matchKnown site (.builtin handle) builtin.formals (actuals.map Prod.fst)) m n :=
      tracks_matchKnown alike builtins callable callable' placed
    refine matching.backtraced.bind fun binding binding' m₁ n₁ matched same alike₁ => ?_
    subst same
    -- With its binding the call comes near the stack, where there has to be room for it.
    have approaches : Approaches context (.builtin name handle) actuals site m
        ⟨name, site.map Site.span⟩ m₁ :=
      .intro callable (bindings_of_matchKnown matched)
    refine tracks_inCall (balanced_insideBuiltin _ _ _) alike₁ (room _ _ _ approaches alike₁)
      fun m₂ n₂ _ alike₂ => ?_
    refine (L.operate binding alike₂ known likewise).bind fun v w m₃ n₃ _ related alike₃ => ?_
    exact L.counted alike₃ related

theorem call_of_data {context : Context} {v : Value} (data : v.isFunction = false) :
    call context evaluate v actuals site =
      Run.located (site.map Site.span) (backtraced (Run.fail (.notCallable v.typeName))) := by
  cases v with
  | null => rfl
  | vector => rfl
  | closure => cases data
  | builtin => cases data

/-- Calls of alike values come to alike ends if what they evaluate does. -/
theorem tracks_call {v w : Value} (balanced : ∀ e frame, Balanced (instead e frame))
    (alike : L.machines m n) (callees : L.values v w)
    (likewise : Parts.Likewise L.values actuals actuals')
    (placed : ∀ s, site = some s → ∃ callee given frame,
      L.places (.call s callee given) frame ∧ actuals.map Prod.fst = given.map Prod.fst)
    (room : ∀ call bound n', Approaches context v actuals site m call bound →
      L.machines bound n' → L.Room bound n')
    (parts : ∀ layout env part n', v = .closure layout env →
      CallPart evaluate layout env actuals site m part → L.machines part.machine n' →
      L.places part.expr part.frame →
      L.Tracks L.values (evaluate part.expr part.frame) (instead part.expr part.frame)
        part.machine n') :
    L.Tracks L.values (call context evaluate v actuals site) (call other instead w actuals' site)
      m n := by
  cases L.resembles callees with
  | closure like env =>
    exact .located (tracks_callClosure balanced alike callees likewise placed room
      fun part n' => parts _ env part n' rfl)
  | builtin name handle => exact .located (tracks_callBuiltin alike callees likewise placed room)
  | data first second same =>
    rw [call_of_data first, call_of_data second, same]
    exact .located (Tracks.backtraced (EvalM.Tracks.stop _ alike))

/-! ### One step -/

variable {frame : FrameId}

theorem tracks_evalActuals {actuals : List (Option Symbol × Expr)} (alike : L.machines m n)
    (parts : ∀ part n', InOrder evaluate frame (actuals.map Prod.snd) m part →
      L.machines part.machine n' →
      L.Tracks L.values (evaluate part.expr part.frame) (instead part.expr part.frame)
        part.machine n') :
    L.Tracks (Parts.Likewise L.values) (evalActuals evaluate frame actuals)
      (evalActuals instead frame actuals) m n := by
  induction actuals generalizing m n with
  | nil => exact .pure .nil alike
  | cons actual rest ih =>
    obtain ⟨name, value⟩ := actual
    unfold evalActuals
    refine EvalM.Tracks.bind (parts _ n .first alike) fun v w m' n' done related alike' => ?_
    refine EvalM.Tracks.bind
      (ih alike' fun part n'' inOrder => parts part n'' (.later done inOrder))
      fun given given' m'' n'' _ others alike'' => ?_
    exact .pure (.cons ⟨rfl, related⟩ others) alike''

/-- Actuals have the names that stand at the call. -/
theorem labels_of_evalActuals {actuals : List (Option Symbol × Expr)} {parts : Parts}
    {later : Machine} (done : evalActuals evaluate frame actuals m = .ok parts later) :
    parts.map Prod.fst = actuals.map Prod.fst := by
  induction actuals generalizing m parts with
  | nil =>
    cases done
    rfl
  | cons actual rest ih =>
    obtain ⟨v, m₁, -, done⟩ := ok_of_bind done
    obtain ⟨others, m₂, given, done⟩ := ok_of_bind done
    cases done
    rw [List.map_cons, List.map_cons, ih given]

theorem tracks_evalBlock {body : List Expr} {last last' : Value} (alike : L.machines m n)
    (ends : L.values last last')
    (parts : ∀ part n', InOrder evaluate frame body m part → L.machines part.machine n' →
      L.Tracks L.values (evaluate part.expr part.frame) (instead part.expr part.frame)
        part.machine n') :
    L.Tracks L.values (evalBlock evaluate frame last body) (evalBlock instead frame last' body)
      m n := by
  induction body generalizing m n last last' with
  | nil => exact .pure ends alike
  | cons e rest ih =>
    unfold evalBlock
    refine EvalM.Tracks.bind (parts _ n .first alike) fun v w m' n' done related alike' => ?_
    exact ih alike' related fun part n'' inOrder => parts part n'' (.later done inOrder)

theorem tracks_bindVariable {assign assign' : Machine → Except Defect Machine} {v w : Value}
    (alike : L.machines m n) (values : L.values v w)
    (likewise : Likewise L.machines (assign m) (assign' n)) :
    L.Tracks L.values (bindVariable assign v) (bindVariable assign' w) m n := by
  unfold bindVariable
  refine EvalM.Tracks.get ?_
  refine (EvalM.Tracks.ofExcept alike likewise).bind fun _ _ _ _ _ changed _ => ?_
  exact Meets.ok values changed

end

theorem of_inOrder {evaluate : Evaluator} {frame : FrameId} {es : List Expr} {part : Moment}
    (inOrder : InOrder evaluate frame es m part) : part.expr ∈ es ∧ part.frame = frame := by
  induction inOrder with
  | first => exact ⟨List.mem_cons_self, rfl⟩
  | later _ _ ih => exact ⟨List.mem_cons_of_mem _ ih.1, ih.2⟩

/-- One step of evaluation comes to alike ends if the evaluation of all parts does and there is
room for the call if it is one. -/
theorem tracks_step {evaluate instead : Evaluator} (moment : Moment)
    (balanced : ∀ e frame, Balanced (instead e frame)) (alike : L.machines moment.machine n)
    (placed : L.places moment.expr moment.frame)
    (room : ∀ site callee actuals v parts m₁ m₂ call bound n',
      moment.expr = .call site callee actuals →
      evaluate callee moment.frame moment.machine = .ok v m₁ →
      evalActuals evaluate moment.frame actuals m₁ = .ok parts m₂ →
      Approaches context v parts (some site) m₂ call bound → L.machines bound n' →
      L.Room bound n')
    (parts : ∀ part n', Part evaluate moment part → L.machines part.machine n' →
      L.places part.expr part.frame →
      L.Tracks L.values (evaluate part.expr part.frame) (instead part.expr part.frame)
        part.machine n') :
    L.Tracks L.values (step context evaluate moment.expr moment.frame)
      (step other instead moment.expr moment.frame) moment.machine n := by
  obtain ⟨e, frame, m⟩ := moment
  dsimp only at alike placed
  -- Parts that are always evaluated are placed where the expression is.
  have strict (part : Moment) (n' : Machine) (inOrder : InOrder evaluate frame e.strict m part)
      (alike' : L.machines part.machine n') :
      L.Tracks L.values (evaluate part.expr part.frame) (instead part.expr part.frame)
        part.machine n' := by
    obtain ⟨inside, same⟩ := of_inOrder inOrder
    refine parts part n' (.strict inOrder) alike' ?_
    rw [same]
    exact L.places_part placed (List.mem_append_left _ inside)
  cases e with
  | literal site value => exact .pure (L.literal value) alike
  | ident site name =>
    change L.Tracks L.values (Run.located (some site.span) (readVariable name frame))
      (Run.located (some site.span) (readVariable name frame)) m n
    exact .located (.get (.ofExcept alike (L.read alike placed)))
  | assign site target value =>
    refine EvalM.Tracks.bind (strict _ n .first alike) fun v w m' n' _ related alike' => ?_
    exact tracks_bindVariable alike' related (L.assign alike' placed related)
  | superAssign site target value =>
    refine EvalM.Tracks.bind (strict _ n .first alike) fun v w m' n' _ related alike' => ?_
    exact tracks_bindVariable alike' related (L.assignOuter alike' placed related)
  | function site params body =>
    dsimp only
    -- Both programs lay the literal out or neither does.
    have laid := L.function placed
    cases known : context.program.layout? site.id with
    | some layout =>
      cases known' : other.program.layout? site.id with
      | some layout' =>
        rw [known, known'] at laid
        rw [step_function_of_some evaluate params body frame known,
          step_function_of_some instead params body frame known']
        cases laid with
        | some related => exact .pure related alike
      | none =>
        rw [known, known'] at laid
        cases laid
    | none =>
      cases known' : other.program.layout? site.id with
      | some layout' =>
        rw [known, known'] at laid
        cases laid
      | none =>
        rw [step_function_of_none evaluate params body frame known,
          step_function_of_none instead params body frame known']
        exact .located (.stop _ alike)
  | call site callee actuals =>
    refine EvalM.Tracks.bind (strict _ n .first alike) fun v w m₁ n₁ called callees alike₁ => ?_
    refine (tracks_evalActuals alike₁ fun part n' inOrder =>
      strict part n' (.later called inOrder)).bind fun given given' m₂ n₂ done likewise alike₂ => ?_
    refine tracks_call balanced alike₂ callees likewise ?_ ?_ ?_
    · rintro _ ⟨⟩
      exact ⟨callee, actuals, frame, placed, labels_of_evalActuals done⟩
    -- The call is the one of this moment, for which room was asked.
    · exact fun call bound n' =>
        room site callee actuals v given m₁ m₂ call bound n' rfl called done
    · rintro layout env part n' rfl callPart
      exact parts part n' (.call called done callPart)
  | binary site op left right =>
    refine EvalM.Tracks.bind (strict _ n .first alike) fun l l' m₁ n₁ done lefts alike₁ => ?_
    refine EvalM.Tracks.bind (strict _ n₁ (.later done .first) alike₁)
      fun r r' m₂ n₂ _ rights alike₂ => ?_
    refine (EvalM.Tracks.located (L.binary op alike₂ lefts rights)).bind
      fun v w m₃ n₃ _ related alike₃ => ?_
    exact L.counted alike₃ related
  | branch site condition thenBranch elseBranch =>
    refine EvalM.Tracks.bind (strict _ n .first alike) fun v w m₁ n₁ done related alike₁ => ?_
    refine (EvalM.Tracks.located (L.test alike₁ related)).bind
      fun holds holds' m₂ n₂ tested same alike₂ => ?_
    subst same
    cases holds with
    | true =>
      exact parts _ n₂ (.thenBranch done tested) alike₂
        (L.places_part placed (List.mem_append_right _ List.mem_cons_self))
    | false =>
      cases elseBranch with
      | some elseBranch =>
        exact parts _ n₂ (.elseBranch done tested) alike₂
          (L.places_part placed (by simp [Expr.parts, Expr.branches]))
      | none => exact .pure (L.literal .null) alike₂
  | block site body => exact tracks_evalBlock alike (L.literal .null) strict

/-- Evaluations to the same depth come to alike ends, if there is room for each call that the
first one comes to. -/
theorem tracks_eval (depth : Nat) (moment : Moment) (alike : L.machines moment.machine n)
    (placed : L.places moment.expr moment.frame)
    (room : ∀ call bound n', Reaches context depth moment call bound → L.machines bound n' →
      L.Room bound n') :
    L.Tracks L.values (eval context depth moment.expr moment.frame)
      (eval other depth moment.expr moment.frame) moment.machine n := by
  induction depth generalizing moment n with
  | zero => exact .stop _ alike
  | succ depth ih =>
    refine tracks_step moment (balanced_eval other depth) alike placed ?_ ?_
    · rintro site callee actuals v parts m₁ m₂ call bound n' same called given approaches
      obtain ⟨e, frame, m⟩ := moment
      cases same
      exact room call bound n' (.here called given approaches)
    · exact fun part n' inside alike' placed' => ih part alike' placed'
        fun call bound n'' reaches => room call bound n'' (.inside inside reaches)

end Likeness

/-! ### Interpreters -/

namespace Interpreter

variable {machines : Machine → Machine → Prop} {cuts : Cause → Prop}
  {interpreter other : Interpreter}

/-- Interpreters in machines that are alike, with the same reports. -/
structure Alongside (machines : Machine → Machine → Prop) (interpreter other : Interpreter) :
    Prop where
  root : other.root = interpreter.root
  machine : machines interpreter.machine other.machine
  queue : other.queue = interpreter.queue
  sink : other.sink = interpreter.sink

/-- How serving a request ended: the answer with the machine that was left. -/
def outcome : Except Stop Value × Interpreter → EStateM.Result Stop Machine Value
  | (.ok v, after) => .ok v after.machine
  | (.error stop, after) => .error stop after.machine

/-- A step that is performed ends as it does. -/
theorem outcome_perform (interpreter : Interpreter) (step : EvalM Value) :
    outcome (interpreter.perform step) = step interpreter.machine := by
  rw [perform]
  cases step interpreter.machine with
  | ok v machine => rfl
  | error stop machine =>
    cases stop with
    | error e => exact congrArg (EStateM.Result.error _) (machine_report _ _)
    | defect defect => rfl
    | exhausted => rfl

/-- Requests that end alike are answered alike, in machines that are alike. -/
theorem likewise_of_meets {machines : Machine → Machine → Prop} {Q : Value → Value → Prop}
    {call instead : Except Stop Value × Interpreter}
    (meets : EvalM.Meets machines (fun _ => False) Q (outcome call) (outcome instead)) :
    Likewise Q call.1 instead.1 ∧ machines call.2.machine instead.2.machine := by
  obtain ⟨answer, after⟩ := call
  obtain ⟨answer', after'⟩ := instead
  -- Nothing cuts an answer short, so that both are values or both are the same stop.
  cases answer with
  | ok v =>
    cases answer' with
    | ok v' =>
      cases meets with
      | ok related alike => exact ⟨.ok related, alike⟩
    | error stop' => cases meets with
      | cut short => exact short.elim
  | error stop =>
    cases answer' with
    | ok v' => cases meets
    | error stop' =>
      cases meets with
      | stop alike => exact ⟨.error stop, alike⟩
      | cut short => exact short.elim

theorem context_perform (interpreter : Interpreter) (step : EvalM Value) :
    (interpreter.perform step).2.context = interpreter.context ∧
      (interpreter.perform step).2.root = interpreter.root := by
  rw [perform]
  split
  · exact ⟨rfl, rfl⟩
  · exact ⟨context_report _ _, root_report _ _⟩
  · exact ⟨rfl, rfl⟩

/-- Serving a request leaves the context and the root as they are. -/
theorem context_serve (interpreter : Interpreter) (request : Request) :
    (interpreter.serve request).2.context = interpreter.context ∧
      (interpreter.serve request).2.root = interpreter.root := by
  cases request with
  | run depth => exact interpreter.context_perform _
  | call depth callee actuals => exact interpreter.context_perform _
  | setGlobal name v =>
    unfold serve
    dsimp only
    split
    · next after done =>
      obtain ⟨machine, -, rfl⟩ := bindAt_of_setGlobal done
      exact ⟨rfl, rfl⟩
    · exact ⟨rfl, rfl⟩

/-- Steps that come to alike ends give alike answers, with the same reports. -/
theorem perform_of_tracks {Q : Value → Value → Prop} {step instead : EvalM Value}
    (alongside : Alongside machines interpreter other)
    (tracks : EvalM.Tracks machines cuts Q step instead interpreter.machine other.machine) :
    (Likewise Q (interpreter.perform step).1 (other.perform instead).1 ∧
      Alongside machines (interpreter.perform step).2 (other.perform instead).2) ∨
    ∃ e, (other.perform instead).1 = .error (.error e) ∧ cuts e.cause := by
  obtain ⟨root, -, queue, sink⟩ := alongside
  unfold perform
  unfold EvalM.Tracks at tracks
  generalize step interpreter.machine = result at tracks ⊢
  generalize instead other.machine = result' at tracks ⊢
  cases tracks with
  | ok related alike => exact .inl ⟨.ok related, root, alike, queue, sink⟩
  | @stop stop m n alike =>
    refine .inl ⟨?_, ?_⟩
    · cases stop <;> exact .error _
    · cases stop with
      | error e =>
        -- The same error is reported to the same host.
        dsimp only
        unfold report
        rw [sink]
        cases interpreter.sink with
        | some records => exact ⟨root, alike, queue, rfl⟩
        | none => exact ⟨root, alike, congrArg (fun queue => (queue.emit e.report).2) queue, rfl⟩
      | defect defect => exact ⟨root, alike, queue, sink⟩
      | exhausted => exact ⟨root, alike, queue, sink⟩
  | cut short => exact .inr ⟨_, rfl, short⟩

end Interpreter

end Vectorial
