import Vectorial.Proofs.Builtin.Closures
import Vectorial.Proofs.Builtin.Disregard
import Vectorial.Proofs.Evaluation.Region

/-!
# Evaluation on what is left of a machine

Two machines that have the same left in their frames and global variables, when counters or
editions are disregarded, go on to machines of which this is true as well. The contexts may
differ as long as the region of frames and functions that evaluation may come to is closed
under what evaluation does in either of them.

## Main definitions

* `Region.Laws`: two contexts for which a region is closed under what evaluation does;
* `Region.likeness`: evaluation in the two contexts side by side;
* `HostAction`, `HostResponse`: what a host does with an interpreter, and what it gets.

## Main results

* `Region.tracks_attempt`, `Region.tracks_operate`, `Region.tracks_counted`: work on values;
* `Region.tracks_call`: calls of functions of which the same is left;
* `Region.serve`, `Region.session`: requests, and all that a host does.
-/

namespace Vectorial

variable {d : Disregard}

namespace Region

variable {R : Region d}

/-! ### Work on values -/

section

open EvalM

variable {α β : Type} {cuts : Cause → Prop} {m n : Machine}

/-- What is known of every result of the first of two attempts is known of a common result. -/
theorem alike_of_delivers {Q : α → β → Prop} {P : α → Prop} {attempt : Attempt α}
    {other : Attempt β} (alike : Attempt.Alike Q attempt other) (delivers : attempt.Delivers P) :
    Attempt.Alike (fun a b => Q a b ∧ P a) attempt other := by
  unfold Attempt.Alike Attempt.Delivers at *
  generalize Metered.value attempt = outcome at *
  generalize Metered.value other = outcome' at *
  cases alike with
  | ok related => exact .ok ⟨related, delivers _ rfl⟩
  | error fault => exact .error fault

theorem alike_truthOf {v w : Value} (values : R.Values v w) :
    Attempt.Alike Eq (truthOf v) (truthOf w) := by
  have ignores := truthOf_ignores (d := d) w
  rw [values.left] at ignores
  exact (truthOf_ignores v).join (fun _ _ _ first second => first.trans second.symm) ignores

/-- Operators deliver the same, without closures. -/
theorem alike_binary (op : BinaryOp) {left right left' right' : Value} (lefts : R.Values left left')
    (rights : R.Values right right') :
    Attempt.Alike R.Values (Value.binary op left right) (Value.binary op left' right') := by
  have ignores := Value.binary_ignores (d := d) op left' right'
  rw [lefts.left, rights.left] at ignores
  have same : Attempt.Ignores (Value.binary op left right) (Value.binary op left' right') :=
    (Value.binary_ignores op left right).join (fun _ _ _ first second => first.trans second.symm)
      ignores
  refine (alike_of_delivers same (Value.closures_binary op left right)).mono ?_
  rintro v _ ⟨rfl, closed⟩
  exact values_of_plain closed

/-- Builtins deliver values of which the same is left, with closures of the actuals. -/
theorem alike_run {builtin : Builtin} (disregards : builtin.Disregards d)
    (handsOn : builtin.HandsOn) (binding : Binding) {actuals actuals' : Parts}
    (likewise : Parts.Likewise R.Values actuals actuals') :
    Operation.Alike R.Values (builtin.run ⟨builtin.formals, binding, actuals⟩)
      (builtin.run ⟨builtin.formals, binding, actuals'⟩) := by
  have leaves := disregards ⟨builtin.formals, binding, actuals'⟩
  have same : Arguments.without d ⟨builtin.formals, binding, actuals'⟩ =
      Arguments.without d ⟨builtin.formals, binding, actuals⟩ :=
    congrArg (Arguments.mk builtin.formals binding) (without_eq_of_likewise likewise)
  rw [same] at leaves
  intro next
  -- Both runs leave what the run on the remains leaves, hence the same.
  have delivers : Attempt.Alike (fun result result' : Value × StorageId =>
      result'.1.without d = result.1.without d ∧ result'.2 = result.2)
      (builtin.run ⟨builtin.formals, binding, actuals⟩ next)
      (builtin.run ⟨builtin.formals, binding, actuals'⟩ next) := by
    refine (disregards ⟨builtin.formals, binding, actuals⟩ next).join ?_ (leaves next)
    rintro a b c ⟨first, taken⟩ ⟨second, taken'⟩
    exact ⟨second.symm.trans first, taken'.symm.trans taken⟩
  refine (alike_of_delivers delivers (handsOn _ next)).mono ?_
  rintro a b ⟨⟨left, taken⟩, closures⟩
  exact ⟨⟨left, fun c held => admits_of_likewise likewise (closures held)⟩, taken⟩

theorem tracks_attempt {Q : α → β → Prop} {attempt : Attempt α} {other : Attempt β}
    (alike : R.Machines m n) (attempts : Attempt.Alike Q attempt other) :
    Tracks R.Machines cuts Q (onHeap (HeapM.attempt attempt)) (onHeap (HeapM.attempt other))
      m n := by
  have recorded (ticks ticks' : List Tick) :
      R.Machines { m with heap := m.heap.record ticks } { n with heap := n.heap.record ticks' } :=
    { alike with heap := alike.heap.record ticks ticks' }
  unfold Tracks onHeap Run.within
  rw [Discipline.attempt_eq, Discipline.attempt_eq]
  unfold Attempt.Alike at attempts
  generalize Metered.value attempt = outcome at attempts
  generalize Metered.value other = outcome' at attempts
  cases attempts with
  | ok related => exact .ok related (recorded _ _)
  | error fault => cases fault <;> exact .stop (recorded _ _)

theorem tracks_operate {Q : α → β → Prop} {operation : Operation α} {other : Operation β}
    (alike : R.Machines m n) (operations : Operation.Alike Q operation other) :
    Tracks R.Machines cuts Q (onHeap (HeapM.operate operation)) (onHeap (HeapM.operate other))
      m n := by
  have attempts : Tracks R.Machines cuts _ _ _ m n :=
    tracks_attempt alike (operations m.heap.nextStorage)
  unfold Tracks onHeap Run.within at attempts ⊢
  -- Identities for new lists are taken from the same number on.
  rw [Discipline.operate_eq, Discipline.operate_eq, alike.heap.storage]
  generalize HeapM.attempt (operation m.heap.nextStorage) m.heap = outcome at attempts ⊢
  generalize HeapM.attempt (other m.heap.nextStorage) n.heap = outcome' at attempts ⊢
  cases outcome with
  | ok result heap =>
    cases outcome' with
    | ok result' heap' =>
      cases attempts with
      | ok related alike' =>
        obtain ⟨a, next⟩ := result
        obtain ⟨b, next'⟩ := result'
        obtain ⟨values, rfl⟩ := related
        exact .ok values { alike' with heap := alike'.heap.withStorage _ }
    | error stop heap' =>
      cases attempts with
      | cut short => exact .cut short
  | error stop heap =>
    cases outcome' with
    | ok result' heap' => cases attempts
    | error stop' heap' =>
      cases attempts with
      | stop alike' => exact .stop alike'
      | cut short => exact .cut short

/-- Counters that are disregarded change nothing that is left. -/
theorem counted_of_counters (disregarded : d.counters = true) (mode : Mode) (v : Value)
    (m : Machine) :
    ∃ w traces, counted mode v m = .ok w { m with heap := { m.heap with traces } } ∧
      w.without d = v.without d ∧ w.closures = v.closures := by
  unfold counted
  split
  · change ∃ w traces, EStateM.Result.ok (m.heap.addTrace v).1
      { m with heap := (m.heap.addTrace v).2 } = _ ∧ _
    unfold Heap.addTrace
    split
    · exact ⟨_, _, rfl, v.without_traced disregarded _, v.closures_traced _⟩
    · exact ⟨_, _, rfl, rfl, rfl⟩
  · exact ⟨v, m.heap.traces, rfl, rfl, rfl⟩

theorem tracks_counted {mode mode' : Mode} {v w : Value} (alike : R.Machines m n)
    (counting : d.counters = false → mode'.tracesViews = mode.tracesViews) (values : R.Values v w) :
    Tracks R.Machines cuts R.Values (counted mode v) (counted mode' w) m n := by
  -- If counters are disregarded, any counting will do; otherwise both modes count alike.
  cases kept : d.counters with
  | true =>
    obtain ⟨v', traces, done, left, closures⟩ := counted_of_counters kept mode v m
    obtain ⟨w', traces', done', left', -⟩ := counted_of_counters kept mode' w n
    unfold Tracks
    rw [done, done']
    refine .ok ⟨by rw [left', left, values.left], fun c held => ?_⟩
      { alike with heap := { alike.heap with traces := fun counted => ?_ } }
    · rw [closures] at held
      exact values.admitted c held
    · rw [kept] at counted
      cases counted
  | false =>
    unfold counted
    rw [counting kept]
    split
    · obtain ⟨values', heaps⟩ := alike.heap.addTrace kept values
      exact Meets.ok values' { alike with heap := heaps }
    · exact .pure values alike

end

/-! ### Evaluation -/

/-- Two contexts for which a region is closed under what evaluation does. -/
structure Laws (R : Region d) (context other : Context) : Prop where
  same_builtins : other.builtins = context.builtins
  disregards : context.builtins.Disregards d
  handsOn : context.builtins.HandsOn
  counting : d.counters = false → other.mode.tracesViews = context.mode.tracesViews
  texts_part {e part : Expr} : R.texts e → part ∈ e.parts → R.texts part
  texts_own {layout : Layout} : R.admits layout → ∀ e ∈ ownText layout.params layout.body, R.texts e
  function {site : Site} {params : List (Symbol × Option Expr)} {body : Expr} :
    R.texts (.function site params body) →
      Option.Rel (fun layout layout' => layout'.without d = layout.without d ∧ R.admits layout)
        (context.program.layout? site.id) (other.program.layout? site.id)
  /-- A call gets the same binding, and what is asked of the kept ones stays. -/
  bindings {m n : Machine} {v : Value} {f : Callable} {site : Option Site}
      {labels : List (Option Symbol)} :
    R.caches m.cache n.cache → R.Admits v → context.callable? v = some f →
      (∀ s, site = some s → ∃ callee actuals,
        R.texts (.call s callee actuals) ∧ labels = actuals.map Prod.fst) →
      Likewise (fun kept kept' => kept'.1 = kept.1 ∧ R.caches kept.2.cache kept'.2.cache)
        (m.bindings site f labels) (n.bindings site f labels)

variable {context other : Context}

open EvalM in
/-- Evaluation in two contexts, in machines of which the same is left. -/
def likeness (R : Region d) (laws : R.Laws context other) : Likeness context other where
  values := R.Values
  machines := R.Machines
  places e frame := R.texts e ∧ R.keeps frame
  cuts _ := False
  same_builtins := laws.same_builtins
  same_calls alike := congrArg CallStack.frames alike.stack
  full alike full := by
    rw [alike.stack]
    exact full
  restack calls alike := { alike with stack := congrArg (CallStack.mk calls ·.limit) alike.stack }
  places_part placed inside := ⟨laws.texts_part placed.1 inside, placed.2⟩
  literal value := by
    cases value <;> exact values_of_plain rfl
  resembles := Values.resembles
  read {m n site name frame} alike placed := alike.read name placed.2
  assign {m n site target value frame v w} alike placed values :=
    alike.assign target placed.2 values
  assignOuter {m n site target value frame v w} alike placed values :=
    alike.assignOuter target placed.2 values
  function {site params body frame} placed := by
    have laid := laws.function placed.1
    generalize context.program.layout? site.id = known at laid
    generalize other.program.layout? site.id = known' at laid
    cases laid with
    | none => exact .none
    | some related =>
      refine .some ⟨congrArg (Value.closure · frame) related.1, ?_⟩
      rintro c (_ | ⟨_, ⟨⟩⟩)
      exact ⟨related.2, placed.2⟩
  test {m n v w} alike values := tracks_attempt alike (alike_truthOf values)
  binary {m n} op left right left' right' alike lefts rights :=
    tracks_attempt alike (alike_binary op lefts rights)
  counted {m n v w} alike values := tracks_counted alike laws.counting values
  operate {m n handle builtin actuals actuals'} binding alike known likewise := by
    have member := List.mem_of_getElem? known
    exact tracks_operate alike (alike_run (laws.disregards builtin member)
      (laws.handsOn builtin member) binding likewise)
  bindings {m n v w f g site labels} alike values callable callable' placed := by
    rw [values.callable laws.same_builtins, callable] at callable'
    cases callable'
    have bound := laws.bindings alike.cache values.admitted callable fun s known => by
      obtain ⟨callee, actuals, frame, placed, labels⟩ := placed s known
      exact ⟨callee, actuals, placed.1, labels⟩
    generalize outcome : m.bindings site f labels = result at bound ⊢
    generalize outcome' : n.bindings site f labels = result' at bound ⊢
    cases bound with
    | ok related =>
      -- Nothing of a machine changes but the bindings that it keeps.
      obtain ⟨cache, eq⟩ := Machine.eq_of_bindings outcome
      obtain ⟨cache', eq'⟩ := Machine.eq_of_bindings outcome'
      refine .ok ⟨related.1, ?_⟩
      have kept := related.2
      rw [eq, eq'] at kept ⊢
      exact { alike with cache := kept }
    | error cause => exact .error cause
  newFrame {m n layout layout' env actuals actuals'} binding alike closures likewise := by
    obtain ⟨admitted, kept⟩ := closures.admitted (layout, env) (List.mem_singleton_self _)
    have same : layout'.without d = layout.without d := by
      simpa [Value.without] using closures.left
    have frames := frames_ofCall same likewise binding m.heap.nextStorage kept
    have heaps := alike.heap.withStorage (m.heap.nextStorage + 1)
    -- Both heaps have as many frames, so that the new frames get the same number.
    obtain ⟨number, around, allocated⟩ := heaps.allocate frames
    obtain ⟨since, calls, calls'⟩ := alike.activations
    have opened : newFrame layout' binding actuals' env n = .ok n.heap.frames.size
        { n with
          heap := (Heap.allocate { n.heap with nextStorage := m.heap.nextStorage + 1 }
            (.ofCall layout' binding actuals' m.heap.nextStorage env)).2
          activations := n.heap.frames.size :: n.activations } := by
      rw [← alike.heap.storage]
      rfl
    unfold Tracks
    rw [opened]
    refine Meets.ok ⟨number, fun e text => ⟨laws.texts_own admitted e text, around⟩⟩
      { alike with heap := allocated, activations := ⟨m.heap.frames.size :: since, ?_, ?_⟩ }
    · exact congrArg (List.cons _) calls
    · dsimp only
      rw [calls', alike.heap.size, List.cons_append]
  unbound {m n e frame} slot alike placed := by
    have bound := alike.heap.get placed.2 slot
    generalize m.heap.get frame slot = value at bound ⊢
    generalize n.heap.get frame slot = value' at bound ⊢
    cases bound <;> rfl
  setSlot {m n e frame} slot v w alike placed values := alike.setSlot placed.2 slot values

end Region

/-! ### Interpreters -/

/-- Requests that hand in related values. -/
inductive Request.Alike (values : Value → Value → Prop) : Request → Request → Prop where
  | run (depth : Nat) : Alike values (.run depth) (.run depth)
  | call (depth : Nat) {callee callee' : Value} {actuals actuals' : Parts} :
      values callee callee' → Parts.Likewise values actuals actuals' →
      Alike values (.call depth callee actuals) (.call depth callee' actuals')
  | setGlobal (name : Symbol) {v w : Value} :
      values v w → Alike values (.setGlobal name v) (.setGlobal name w)

/-- What a host does with an interpreter. -/
inductive HostAction where
  | ask (request : Request)
  | takeDiagnostics

/-- What a host gets when it does something. -/
inductive HostResponse where
  | answer (outcome : Except Stop Value)
  | diagnostics (records : List Diagnostic)

/-- The same done with related values. -/
inductive HostAction.Alike (values : Value → Value → Prop) : HostAction → HostAction → Prop where
  | ask {request request' : Request} :
      Request.Alike values request request' → Alike values (.ask request) (.ask request')
  | takeDiagnostics : Alike values .takeDiagnostics .takeDiagnostics

/-- Related answers, or the same diagnostics. -/
inductive HostResponse.Alike (answers : Except Stop Value → Except Stop Value → Prop) :
    HostResponse → HostResponse → Prop where
  | answer {outcome outcome' : Except Stop Value} :
      answers outcome outcome' → Alike answers (.answer outcome) (.answer outcome')
  | diagnostics (records : List Diagnostic) :
      Alike answers (.diagnostics records) (.diagnostics records)

theorem HostResponse.Alike.mono {answers weaker : Except Stop Value → Except Stop Value → Prop}
    {response response' : HostResponse} (alike : response.Alike answers response')
    (weakens : ∀ outcome outcome', answers outcome outcome' → weaker outcome outcome') :
    response.Alike weaker response' := by
  cases alike with
  | answer related => exact .answer (weakens _ _ related)
  | diagnostics records => exact .diagnostics records

namespace Interpreter

/-- What the host gets, and the interpreter afterwards. -/
def act (interpreter : Interpreter) : HostAction → HostResponse × Interpreter
  | .ask request => (.answer (interpreter.serve request).1, (interpreter.serve request).2)
  | .takeDiagnostics =>
    (.diagnostics interpreter.takeDiagnostics.1, interpreter.takeDiagnostics.2)

/-- What the host gets for one thing after the other. -/
def responses (interpreter : Interpreter) : List HostAction → List HostResponse
  | [] => []
  | action :: rest => (interpreter.act action).1 :: (interpreter.act action).2.responses rest

/-- The interpreter after all that. -/
def afterActions (interpreter : Interpreter) (actions : List HostAction) : Interpreter :=
  actions.foldl (fun current action => (current.act action).2) interpreter

theorem context_act (interpreter : Interpreter) (action : HostAction) :
    (interpreter.act action).2.context = interpreter.context ∧
      (interpreter.act action).2.root = interpreter.root := by
  cases action with
  | ask request => exact interpreter.context_serve request
  | takeDiagnostics => exact ⟨rfl, rfl⟩

end Interpreter

namespace Region

variable {R : Region d} {interpreter other : Interpreter}

open Interpreter

/-- Room on two stacks that are the same. -/
theorem room {context context' : Context} (laws : R.Laws context context') {m n : Machine}
    (alike : R.Machines m n) : (R.likeness laws).Room m n :=
  fun _ => .inl alike.stack

/-- A call of functions of which the same is left comes to alike ends. -/
theorem tracks_call (laws : R.Laws interpreter.context other.context)
    (alike : R.Machines interpreter.machine other.machine) (depth : Nat) {callee callee' : Value}
    {actuals actuals' : Parts} (callees : R.Values callee callee')
    (likewise : Parts.Likewise R.Values actuals actuals') :
    EvalM.Tracks R.Machines (fun _ => False) R.Values
      (EvalM.call interpreter.context (EvalM.eval interpreter.context depth) callee actuals none)
      (EvalM.call other.context (EvalM.eval other.context depth) callee' actuals' none)
      interpreter.machine other.machine := by
  refine (R.likeness laws).tracks_call (EvalM.balanced_eval _ depth) alike callees likewise
    (fun _ nothing => nomatch nothing) (fun _ _ _ _ alike' => room laws alike') ?_
  rintro layout env part n rfl inside alike' placed
  exact (R.likeness laws).tracks_eval depth part alike' placed fun _ _ _ _ alike'' =>
    room laws alike''

theorem setGlobal (program : other.context.program = interpreter.context.program)
    (alongside : Alongside R.Machines interpreter other) (kept : R.keeps interpreter.root)
    (name : Symbol) {v w : Value} (values : R.Values v w) :
    Likewise (Alongside R.Machines) (interpreter.setGlobal name v) (other.setGlobal name w) := by
  obtain ⟨root, machines, queue, sink⟩ := alongside
  have same : other.rootPlace name = interpreter.rootPlace name := by
    rw [rootPlace, rootPlace, rootSlot, rootSlot, program, root]
  have keeps : ∀ place ∈ interpreter.rootPlace name, R.keeps place.1 := by
    intro place found
    obtain ⟨slot, -, rfl⟩ := Option.map_eq_some_iff.mp found
    exact kept
  have bound := machines.bindAt keeps name values
  unfold Interpreter.setGlobal
  rw [same]
  generalize interpreter.machine.bindAt (interpreter.rootPlace name) name v = result at bound ⊢
  generalize other.machine.bindAt (interpreter.rootPlace name) name w = result' at bound ⊢
  cases bound with
  | ok alike => exact .ok ⟨root, alike, queue, sink⟩
  | error defect => exact .error defect

/-- A request that hands in values of which the same is left is answered alike. -/
theorem serve (laws : R.Laws interpreter.context other.context)
    (program : other.context.program = interpreter.context.program)
    (alongside : Alongside R.Machines interpreter other) (kept : R.keeps interpreter.root)
    (text : R.texts interpreter.context.program.toplevel.body) {request request' : Request}
    (alike : Request.Alike R.Values request request') :
    Likewise R.Values (interpreter.serve request).1 (other.serve request').1 ∧
      Alongside R.Machines (interpreter.serve request).2 (other.serve request').2 := by
  have performs {step instead : EvalM Value}
      (tracks : EvalM.Tracks R.Machines (fun _ => False) R.Values step instead
        interpreter.machine other.machine) :
      Likewise R.Values (interpreter.perform step).1 (other.perform instead).1 ∧
        Alongside R.Machines (interpreter.perform step).2 (other.perform instead).2 :=
    (perform_of_tracks alongside tracks).resolve_right fun ⟨_, _, never⟩ => never
  cases alike with
  | run depth =>
    refine performs ?_
    rw [program, alongside.root]
    exact (R.likeness laws).tracks_eval depth
      ⟨interpreter.context.program.toplevel.body, interpreter.root, interpreter.machine⟩
      alongside.machine ⟨text, kept⟩ fun _ _ _ _ alike => room laws alike
  | call depth callees likewise =>
    exact performs (tracks_call laws alongside.machine depth callees likewise)
  | @setGlobal name v w values =>
    have bound := setGlobal program alongside kept name values
    unfold Interpreter.serve
    dsimp only
    generalize interpreter.setGlobal name v = result at bound ⊢
    generalize other.setGlobal name w = result' at bound ⊢
    cases bound with
    | ok after => exact ⟨.ok (values_of_plain rfl), after⟩
    | error defect => exact ⟨.error _, alongside⟩

/-- What a host does with an interpreter is answered alike, and leaves both alike. -/
theorem act (laws : R.Laws interpreter.context other.context)
    (program : other.context.program = interpreter.context.program)
    (alongside : Alongside R.Machines interpreter other) (kept : R.keeps interpreter.root)
    (text : R.texts interpreter.context.program.toplevel.body) {action action' : HostAction}
    (alike : action.Alike R.Values action') :
    (interpreter.act action).1.Alike (Likewise R.Values) (other.act action').1 ∧
      Alongside R.Machines (interpreter.act action).2 (other.act action').2 := by
  cases alike with
  | ask requests =>
    obtain ⟨answer, after⟩ := serve laws program alongside kept text requests
    exact ⟨.answer answer, after⟩
  | takeDiagnostics =>
    obtain ⟨root, machine, queue, sink⟩ := alongside
    unfold Interpreter.act takeDiagnostics
    dsimp only
    rw [queue]
    exact ⟨.diagnostics _, root, machine, rfl, sink⟩

/-- So is all that a host does, one thing after the other. -/
theorem session (laws : R.Laws interpreter.context other.context)
    (program : other.context.program = interpreter.context.program)
    (alongside : Alongside R.Machines interpreter other) (kept : R.keeps interpreter.root)
    (text : R.texts interpreter.context.program.toplevel.body) {actions actions' : List HostAction}
    (alike : List.Forall₂ (HostAction.Alike R.Values) actions actions') :
    List.Forall₂ (HostResponse.Alike (Likewise R.Values)) (interpreter.responses actions)
        (other.responses actions') ∧
      Alongside R.Machines (interpreter.afterActions actions) (other.afterActions actions') ∧
      (other.afterActions actions').context.program =
        (interpreter.afterActions actions).context.program := by
  induction alike generalizing interpreter other with
  | nil => exact ⟨.nil, alongside, program⟩
  | @cons action action' rest rest' first _ ih =>
    obtain ⟨response, alongside'⟩ := act laws program alongside kept text first
    -- No action changes the program or the root, so that the hypotheses hold for the rest.
    obtain ⟨context, root⟩ := interpreter.context_act action
    obtain ⟨context', -⟩ := other.context_act action'
    obtain ⟨responses, after⟩ := ih (by rw [context, context']; exact laws)
      (by rw [context, context', program]) alongside' (by rw [root]; exact kept)
      (by rw [context]; exact text)
    exact ⟨.cons response responses, after⟩

end Region

end Vectorial
