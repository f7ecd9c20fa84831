import Vectorial.Proofs.Evaluation.Moments
import Vectorial.Proofs.Evaluation.Order
import Vectorial.Proofs.Evaluation.Parameters
import Vectorial.Proofs.Survival

/-!
# Parameters in a world

Whatever a host does with interpreters that share a heap, a request is served in a state in which
all closures are of functions that were resolved and all bindings that are kept are right. So the
calls that are made while it is served begin their bodies with every parameter bound.

## Main definitions

* `Interpreter.Makes`: the calls that are made while a request is served;
* `Interpreter.ServesInTurn`: two moments while a request is served, one after the other.

## Main results

* `Interpreter.keeps_of_servesInTurn`: what is bound at a moment is bound at later ones;
* `World.attends_of_serves`: what is around at a moment belongs to the arena;
* `World.parameters_are_bound`: all parameters are bound when a body begins.
-/

namespace Vectorial

namespace Interpreter

open EvalM

/-- The calls of closures that are made while a request is served, each with a depth to which its
parts are evaluated. -/
inductive Makes (interpreter : Interpreter) : Request → Nat → ClosureCall → Prop where
  | host {depth : Nat} {layout : Layout} {env : FrameId} {actuals : Parts} :
      Makes interpreter (.call depth (.closure layout env) actuals) depth
        ⟨layout, env, actuals, none, interpreter.machine⟩
  | site {request : Request} {moment : Moment} {depth : Nat} {call : ClosureCall} :
      interpreter.Serves request moment → Issues interpreter.context depth moment call →
      Makes interpreter request depth call

/-- Two moments while a request is served, one after the other. -/
inductive ServesInTurn (interpreter : Interpreter) : Request → Moment → Moment → Prop where
  | run {depth : Nat} {moment next : Moment} :
      VisitsInTurn interpreter.context depth
        ⟨interpreter.context.program.toplevel.body, interpreter.root, interpreter.machine⟩
        moment next →
      ServesInTurn interpreter (.run depth) moment next
  | inside {depth : Nat} {layout : Layout} {env : FrameId} {actuals : Parts}
      {part moment next : Moment} :
      CallPart (eval interpreter.context depth) layout env actuals none interpreter.machine part →
      VisitsInTurn interpreter.context depth part moment next →
      ServesInTurn interpreter (.call depth (.closure layout env) actuals) moment next
  | across {depth : Nat} {layout : Layout} {env : FrameId} {actuals : Parts}
      {part further moment next : Moment} :
      CallInTurn (eval interpreter.context depth) layout env actuals none interpreter.machine part
        further →
      Visits interpreter.context depth part moment →
      Visits interpreter.context depth further next →
      ServesInTurn interpreter (.call depth (.closure layout env) actuals) moment next

variable {interpreter : Interpreter} {request : Request} {moment next : Moment}

/-! ### What is bound while a request is served -/

/-- Any two moments while a request is served come in turn. -/
theorem inTurn_of_serves (first : interpreter.Serves request moment)
    (second : interpreter.Serves request next) :
    interpreter.ServesInTurn request moment next ∨
      interpreter.ServesInTurn request next moment := by
  cases first with
  | run visits =>
    cases second with
    | run visits' => exact (inTurn_of_visits visits visits').imp .run .run
  | call callPart visits =>
    cases second with
    | call callPart' visits' =>
      rcases inTurn_of_callPart callPart callPart' with rfl | before | after
      · exact (inTurn_of_visits visits visits').imp (.inside callPart) (.inside callPart)
      · exact .inl (.across before visits visits')
      · exact .inr (.across after visits' visits)

/-- What is bound at a moment is bound at those that come after it. -/
theorem keeps_of_servesInTurn (inTurn : interpreter.ServesInTurn request moment next) :
    moment.machine.heap.Keeps next.machine.heap := by
  cases inTurn with
  | run inTurn => exact keeps_of_inTurn inTurn
  | inside _ inTurn => exact keeps_of_inTurn inTurn
  | across inTurn visits visits' =>
    refine .trans ?_ (keeps_of_visits visits')
    have lasting := Heap.lasting_keeps moment.machine.heap
    exact holds_of_callInTurn lasting (holds_ending_eval_of_start lasting _ _) inTurn
      (keeps_ending_of_visits visits)

theorem machine_perform (step : EvalM Value) :
    (interpreter.perform step).2.machine = Run.ending step interpreter.machine := by
  rw [perform, Run.ending]
  cases step interpreter.machine with
  | ok v later => rfl
  | error stop later =>
    cases stop with
    | error e => exact machine_report _ _
    | defect defect => rfl
    | exhausted => rfl

theorem machine_serve_run (interpreter : Interpreter) (depth : Nat) :
    (interpreter.serve (.run depth)).2.machine =
      Run.ending (eval interpreter.context depth interpreter.context.program.toplevel.body
        interpreter.root) interpreter.machine :=
  machine_perform _

theorem machine_serve_call (interpreter : Interpreter) (depth : Nat) (callee : Value)
    (actuals : Parts) :
    (interpreter.serve (.call depth callee actuals)).2.machine =
      Run.ending (EvalM.call interpreter.context (eval interpreter.context depth) callee actuals
        none) interpreter.machine :=
  machine_perform _

/-- A request leaves everything bound that is. -/
theorem keeps_serve (interpreter : Interpreter) (request : Request) :
    interpreter.machine.heap.Keeps (interpreter.serve request).2.machine.heap := by
  have lasting := Heap.lasting_keeps interpreter.machine.heap
  have always := holds_ending_eval_of_start lasting interpreter.context
  cases request with
  | run depth =>
    rw [machine_serve_run]
    exact always depth _ _ _ (.refl _)
  | call depth callee actuals =>
    rw [machine_serve_call]
    exact holds_ending_call lasting (.refl _) fun _ _ part _ _ kept =>
      always depth part.expr part.frame part.machine kept
  | setGlobal name value =>
    unfold serve
    dsimp only
    split
    · next after done =>
      obtain ⟨machine, bound, rfl⟩ := bindAt_of_setGlobal done
      cases place : interpreter.rootPlace name with
      | some place =>
        rw [place] at bound
        exact .set (Machine.set_of_setSlot bound)
      | none =>
        rw [place] at bound
        cases bound
        exact .refl _
    · exact .refl _

/-- What is bound before a request is bound at every moment while it is served, and what is bound at
such a moment is bound after the request. -/
theorem keeps_of_serves (serves : interpreter.Serves request moment) :
    interpreter.machine.heap.Keeps moment.machine.heap ∧
      moment.machine.heap.Keeps (interpreter.serve request).2.machine.heap := by
  cases serves with
  | run visits =>
    rw [machine_serve_run]
    exact ⟨keeps_of_visits visits, keeps_ending_of_visits visits⟩
  | @call depth layout env actuals part _ callPart visits =>
    have always (heap : Heap) :=
      holds_ending_eval_of_start (Heap.lasting_keeps heap) interpreter.context depth
    -- From the request to the part of the call, then as from any other moment.
    have reached := holds_of_callPart (Heap.lasting_keeps interpreter.machine.heap) (.refl _)
      (fun part _ kept => always _ part.expr part.frame part.machine kept) callPart
    refine ⟨reached.trans (keeps_of_visits visits), ?_⟩
    rw [machine_serve_call]
    unfold EvalM.call
    rw [ending_located]
    exact holds_ending_callClosure_of_callPart (Heap.lasting_keeps moment.machine.heap) (always _)
      callPart (keeps_ending_of_visits visits)

/-- Every moment while a request is served is in the outermost frame, or in the frame of a call that
is made. -/
theorem root_or_has (serves : interpreter.Serves request moment) :
    moment.frame = interpreter.root ∨
      ∃ depth call, interpreter.Makes request depth call ∧
        call.Has interpreter.context depth moment := by
  -- A moment stays in the frame of an outer one, or it is inside a call that comes from there.
  have issued {outer : Moment} {depth : Nat}
      (reaches : ∀ issuer, Visits interpreter.context depth outer issuer →
        interpreter.Serves request issuer)
      (visits : Visits interpreter.context depth outer moment) :
      (moment.frame = outer.frame ∧ outer.expr.Within moment.expr) ∨
        ∃ depth call, interpreter.Makes request depth call ∧
          call.Has interpreter.context depth moment := by
    refine (local_or_issued visits).imp_right ?_
    rintro ⟨issuer, inner, call, issued, issues, has⟩
    exact ⟨inner, call, .site (reaches issuer issued) issues, has⟩
  cases serves with
  | run visits => exact (issued (fun _ => .run) visits).imp_left And.left
  | call callPart visits =>
    rcases issued (fun _ => .call callPart) visits with ⟨same, within⟩ | made
    · exact .inr ⟨_, _, .host, .mk callPart visits same within⟩
    · exact .inr made

end Interpreter

/-! ### Worlds -/

namespace Arena

variable {arena : Arena} {base : FrameId} {interpreter : Interpreter}

/-- Evaluation in an interpreter over the arena comes to nothing else. -/
theorem Runs.laws (runs : arena.Runs base interpreter) :
    (arena.own base interpreter).Laws interpreter.context interpreter.context :=
  arena.laws runs.resolves rfl rfl runs.disregards runs.handsOn

/-- Evaluation in it, beside itself. -/
def Runs.likeness (runs : arena.Runs base interpreter) :
    Likeness interpreter.context interpreter.context :=
  (arena.own base interpreter).likeness runs.laws

theorem Runs.uncut (runs : arena.Runs base interpreter) (cause : Cause) :
    ¬runs.likeness.cuts cause :=
  id

theorem Runs.room (runs : arena.Runs base interpreter) (m n : Machine)
    (alike : runs.likeness.machines m n) : runs.likeness.Room m n :=
  Region.room runs.laws alike

theorem Runs.text_toplevel (runs : arena.Runs base interpreter) :
    (arena.own base interpreter).texts interpreter.context.program.toplevel.body := by
  obtain ⟨edition, top, held, resolved⟩ := runs.resolves
  rw [Program.body_toplevel resolved]
  exact ⟨held, interpreter.context.program.laysAlike_self top⟩

end Arena

namespace World

open EvalM

variable {arena : Arena} {before : Heap} {w : World} {interpreter : Interpreter}
variable {request : Request}

/-- The outermost frame of an interpreter is of the outermost level of its program. -/
theorem layout_root (arises : Arises arena before w) (listed : interpreter ∈ w.interpreters) :
    w.heap.layout? interpreter.root = some interpreter.context.program.toplevel := by
  induction arises generalizing interpreter with
  | start => cases listed
  | @build w settings built _ _ _ _ _ done ih =>
    obtain ⟨program, resolved, rfl⟩ := Interpreter.build_eq_ok done
    rcases List.mem_append.mp listed with old | new
    · exact (w.heap.extends_allocate _).layout (ih old)
    · cases List.mem_singleton.mp new
      exact Heap.layout_of_frame ((Heap.frame_allocate w.heap _ _).trans (if_pos rfl))
  | @serve w number asked request answer after _ known _ served _ ih =>
    -- Serving only adds frames, and leaves the layouts of old ones as they are.
    have grows := ((asked.on w.heap).keeps_serve request).grows
    obtain ⟨same_context, same_root⟩ := (asked.on w.heap).context_serve request
    rw [served] at grows same_context same_root
    rcases List.mem_or_eq_of_mem_set listed with old | rfl
    · exact grows.layout (ih old)
    · have known := ih (List.mem_of_getElem? known)
      rw [same_context, same_root]
      exact grows.layout known
  | takeDiagnostics _ known ih =>
    rcases List.mem_or_eq_of_mem_set listed with old | rfl
    · exact ih old
    · have known := ih (List.mem_of_getElem? known)
      exact known
  | @drop w dropped outside _ _ ih =>
    rw [Heap.layout?, Interpreter.drop, Heap.frame_collect]
    have known := ih listed
    rw [Heap.layout?] at known
    split
    · rw [Option.map_map]
      exact known
    · exact known
  | prepare _ ih => exact ih listed

/-- Everything that is around at a moment while an honest request is served belongs to the arena. -/
theorem Sound.attends_of_serves (sound : w.Sound arena before)
    (runs : arena.Runs before.frames.size interpreter)
    (honest : ∀ c ∈ request.closures, w.Knows before.frames.size c) {moment : Moment}
    (serves : (interpreter.on w.heap).Serves request moment) :
    runs.likeness.Attends moment := by
  have machines := sound.machines runs
  have handed := sound.request_alike interpreter honest
  cases serves with
  | run visits =>
    have start : runs.likeness.Attends ⟨interpreter.context.program.toplevel.body,
        interpreter.root, (interpreter.on w.heap).machine⟩ :=
      ⟨⟨_, machines⟩, runs.text_toplevel, runs.root⟩
    exact Likeness.attends_of_visits runs.room runs.uncut start visits
  | @call depth layout env actuals _ _ callPart visits =>
    -- The host hands in what belongs to the arena, on both sides of the likeness.
    cases handed with
    | call _ callees likewise =>
      have part := Likeness.attends_of_callPart runs.uncut
        (Likeness.tracks_of_room runs.room depth) machines callees likewise
        (by rintro _ ⟨⟩) callPart
      exact Likeness.attends_of_visits runs.room runs.uncut part visits

/-- The calls that are made while an honest request is served are of functions that were resolved,
and get the binding that matching gives. -/
theorem Sound.proper_of_makes (sound : w.Sound arena before)
    (runs : arena.Runs before.frames.size interpreter)
    (honest : ∀ c ∈ request.closures, w.Knows before.frames.size c) {depth : Nat}
    {call : ClosureCall} (makes : (interpreter.on w.heap).Makes request depth call) :
    call.Proper := by
  cases makes with
  | @host depth layout env actuals =>
    have known := honest (layout, env) List.mem_cons_self
    refine ⟨(sound.of_knows known).1.resolved, fun binding later bound => ?_⟩
    have matched := Machine.matchCall_of_bindings_none bound
    exact matched
  | @site request moment depth call serves issues =>
    obtain ⟨⟨n, alike⟩, placed⟩ := sound.attends_of_serves runs honest serves
    -- The callee and the binding belong to the arena, since what is around does.
    cases issues with
    | @mk site callee actuals frame env layout parts m m₁ m₂ called given =>
      obtain ⟨_, _, n', values, -, alike'⟩ := Likeness.exists_of_issued runs.uncut
        (Likeness.tracks_of_room runs.room depth) alike placed called given
      have admitted := values.admitted (layout, env) (List.mem_singleton_self _)
      have lays : arena.Lays layout := admitted.1.1
      refine ⟨lays.resolved, fun binding later bound => ?_⟩
      have labels := Likeness.labels_of_evalActuals given
      have takes : arena.Takes interpreter.context.builtins layout.callable.key
          layout.formals.params := by
        rw [lays.resolved.declared_formals]
        exact .literal lays.literal
      have calls : arena.CallsAt (some site) (parts.map Prod.fst) := by
        rintro _ ⟨⟩
        exact ⟨callee, actuals, placed.1.1, labels⟩
      have matched := Arena.bindings_of_right (f := layout.callable) alike'.cache.1 takes calls
      rw [bound] at matched
      generalize outcome : Matching.matchCall layout.formals (parts.map Prod.fst) = result
        at matched
      cases matched with
      | ok kept =>
        cases kept.1
        rfl

/-- In its outermost frame an interpreter misses no parameter, since there are none. -/
theorem not_missing_of_root (arises : Arises arena before w) (listed : interpreter ∈ w.interpreters)
    {moment : Moment} (kept : w.heap.Keeps moment.machine.heap)
    (outermost : moment.frame = interpreter.root) {name function missing : Symbol} :
    moment.machine.read name moment.frame ≠ .error (.missingArgument function missing) := by
  intro failed
  have known := layout_root arises listed
  obtain ⟨edition, top, -, resolved⟩ := ((sound_of_arises arises).runs interpreter listed).resolves
  rw [outermost] at failed
  obtain ⟨-, -, slot, declared, -⟩ := Machine.missing_of_read (Program.resolved_toplevel resolved)
    (kept.grows.layout known) failed
  rw [Program.params_toplevel resolved] at declared
  cases declared

/-- All parameters are bound when a body begins. While an interpreter of any world serves an honest
request, moments come one after the other, and what is bound in a frame is bound at every later
moment, when an evaluation is over, however it ends, and when the request has been served. A call
whose defaults have been filled in has a value in the slot of every parameter; in that of the
varargs marker it is the list of what the marker absorbed, unless something evaluated for a default
has assigned to it. In the body each parameter can be read. So a parameter is missing only while a
default of its own call is evaluated, and then it is one with a default that has not been filled
in. -/
theorem parameters_are_bound (arises : Arises arena before w)
    (listed : interpreter ∈ w.interpreters)
    (honest : ∀ c ∈ request.closures, w.Knows before.frames.size c) :
    (∀ moment next, (interpreter.on w.heap).Serves request moment →
      (interpreter.on w.heap).Serves request next →
      (interpreter.on w.heap).ServesInTurn request moment next ∨
        (interpreter.on w.heap).ServesInTurn request next moment) ∧
    (∀ moment next, (interpreter.on w.heap).ServesInTurn request moment next →
      moment.machine.heap.Keeps next.machine.heap) ∧
    (∀ moment, (interpreter.on w.heap).Serves request moment →
      w.heap.Keeps moment.machine.heap ∧
        moment.machine.heap.Keeps ((interpreter.on w.heap).serve request).2.machine.heap) ∧
    (∀ depth outer moment, Visits interpreter.context depth outer moment →
      moment.machine.heap.Keeps
        (Run.ending (eval interpreter.context depth outer.expr outer.frame) outer.machine).heap) ∧
    (∀ depth call frame m, (interpreter.on w.heap).Makes request depth call →
      call.Fills (eval interpreter.context depth) call.layout.params.length frame m →
      (∀ slot < call.layout.params.length, (m.heap.get frame slot).isSome) ∧
      (∀ dots, call.layout.formals.dotsIndex = some dots →
        ∃ opened binding storage, call.Fills (eval interpreter.context depth) 0 frame opened ∧
          Matching.matchCall call.layout.formals (call.actuals.map Prod.fst) = .ok binding ∧
          opened.heap.get frame dots =
            some (.ofParts storage (binding.dots.filterMap fun actual => call.actuals[actual]?)) ∧
          (m.heap.get frame dots = opened.heap.get frame dots ∨
            call.Reassigns interpreter.context depth call.layout.params.length frame dots)) ∧
      ∀ inner site name later,
        Visits interpreter.context inner ⟨call.layout.body, frame, m⟩
          ⟨.ident site name, frame, later⟩ →
        name ∈ call.layout.params.map Prod.fst → ∃ v, later.read name frame = .ok v) ∧
    ∀ site name frame m function missing,
      (interpreter.on w.heap).Serves request ⟨.ident site name, frame, m⟩ →
      m.read name frame = .error (.missingArgument function missing) →
      ∃ depth call, (interpreter.on w.heap).Makes request depth call ∧
        function = call.layout.name ∧ missing = name ∧ ∃ index e start slot default,
          call.Awaits (eval interpreter.context depth) index e frame start ∧
          Visits interpreter.context depth ⟨e, frame, start⟩ ⟨.ident site name, frame, m⟩ ∧
          index ≤ slot ∧ call.layout.params[slot]? = some (name, some default) ∧
          m.heap.get frame slot = none := by
  have sound := sound_of_arises arises
  have runs := sound.runs interpreter listed
  have proper {depth : Nat} {call : ClosureCall}
      (makes : (interpreter.on w.heap).Makes request depth call) : call.Proper :=
    sound.proper_of_makes runs honest makes
  refine ⟨fun moment next => Interpreter.inTurn_of_serves,
    fun moment next => Interpreter.keeps_of_servesInTurn,
    fun moment => Interpreter.keeps_of_serves,
    fun depth outer moment => keeps_ending_of_visits,
    fun depth call frame m makes fills => ⟨fun slot => (proper makes).bound fills,
      fun dots marker => (proper makes).varargs marker fills,
      fun inner site name later => (proper makes).exists_read fills⟩, ?_⟩
  intro site name frame m function missing serves failed
  rcases Interpreter.root_or_has serves with outermost | ⟨depth, call, makes, has⟩
  · have kept := (Interpreter.keeps_of_serves serves).1
    exact absurd failed (not_missing_of_root arises listed kept outermost)
  · exact ⟨depth, call, makes, (proper makes).awaits_of_missing has failed⟩

/-- The function `function(x = y, y = NULL) x`. -/
def readingAhead : Expr :=
  .function ⟨8, default⟩
    [("x", some (.ident ⟨5, default⟩ "y")), ("y", some (.literal ⟨6, default⟩ .null))]
    (.ident ⟨7, default⟩ "x")

/-- The call `(function(z) z)(TRUE)`. -/
def returning : Expr :=
  .call ⟨3, default⟩ (.function ⟨1, default⟩ [("z", none)] (.ident ⟨0, default⟩ "z"))
    [(none, .literal ⟨2, default⟩ (.logical true))]

/-- The program `{ (function(z) z)(TRUE); (function(x = y, y = NULL) x)() }`. -/
def twoCalls : Expr :=
  .block ⟨9, default⟩ [returning, .call ⟨4, default⟩ readingAhead []]

/-- The first call begins its body with `z` bound. In the second one `y` is missing while the
default of `x` is evaluated. -/
theorem parameters_are_bound_twoCalls :
    ∃ interpreter, Interpreter.build { top := twoCalls } .empty = .ok interpreter ∧
      Arises (.ofNodes twoCalls (numbered_of_nodup (by decide))) .empty
        ⟨interpreter.machine.heap, [interpreter], []⟩ ∧
      (∃ depth call frame m, interpreter.Makes (.run 6) depth call ∧
        call.Fills (eval interpreter.context depth) call.layout.params.length frame m ∧
        call.layout.params.map Prod.fst = ["z"] ∧ (m.heap.get frame 0).isSome) ∧
      ∃ frame m function, interpreter.Serves (.run 6) ⟨.ident ⟨5, default⟩ "y", frame, m⟩ ∧
        m.read "y" frame = .error (.missingArgument function "y") ∧
        ∃ depth call index e start, interpreter.Makes (.run 6) depth call ∧
          function = call.layout.name ∧
          call.Awaits (eval interpreter.context depth) index e frame start := by
  -- The machines that the evaluation of the program comes through.
  obtain ⟨program, inner, outer, m₁, m₂, m₃, m₄, resolved, top, named, one, called, given, opened,
      filled, returned, called', opened', unbound, known, missing⟩ :
      ∃ program inner outer m₁ m₂ m₃ m₄,
        Program.resolve 0 twoCalls = .ok program ∧ program.toplevel.body = twoCalls ∧
        inner.params.map Prod.fst = ["z"] ∧ inner.params.length = 1 ∧
        eval (Interpreter.ofProgram { top := twoCalls } .empty program).context 4
          (.function ⟨1, default⟩ [("z", none)] (.ident ⟨0, default⟩ "z")) 0
          (Interpreter.ofProgram { top := twoCalls } .empty program).machine =
            .ok (.closure inner 0) m₁ ∧
        evalActuals (eval (Interpreter.ofProgram { top := twoCalls } .empty program).context 4) 0
          [(none, .literal ⟨2, default⟩ (.logical true))] m₁ = .ok [(none, .ofBool true)] m₁ ∧
        entered inner 0 [(none, .ofBool true)] (some ⟨3, default⟩) m₁ = .ok 1 m₂ ∧
        fillDefault (eval (Interpreter.ofProgram { top := twoCalls } .empty program).context 4)
          inner 1 0 m₂ = .ok () m₂ ∧
        eval (Interpreter.ofProgram { top := twoCalls } .empty program).context 5 returning 0
          (Interpreter.ofProgram { top := twoCalls } .empty program).machine =
            .ok (.ofBool true) m₃ ∧
        eval (Interpreter.ofProgram { top := twoCalls } .empty program).context 4 readingAhead 0
          m₃ = .ok (.closure outer 0) m₃ ∧
        entered outer 0 [] (some ⟨4, default⟩) m₃ = .ok 2 m₄ ∧
        m₄.heap.get 2 0 = none ∧ outer.defaultFor 0 = some (.ident ⟨5, default⟩ "y") ∧
        m₄.read "y" 2 = .error (.missingArgument outer.name "y") :=
    ⟨_, _, _, _, _, _, _, rfl, rfl, rfl, rfl, rfl, rfl, rfl, rfl, rfl, rfl, rfl, rfl, rfl, rfl⟩
  let interpreter := Interpreter.ofProgram { top := twoCalls } .empty program
  have built : Interpreter.build { top := twoCalls } .empty = .ok interpreter :=
    build_of_resolve resolved
  have arises : Arises (.ofNodes twoCalls (numbered_of_nodup (by decide))) .empty
      ⟨interpreter.machine.heap, [interpreter], []⟩ :=
    @Arises.build _ _ _ { top := twoCalls } _ .start twoCalls.mem_nodes_self
      (Registry.standard_disregards _) Registry.standard_handsOn
      (fun _ absent => (List.not_mem_nil absent).elim) built
  have serves {moment : Moment} (visits : Visits interpreter.context 6
      ⟨twoCalls, interpreter.root, interpreter.machine⟩ moment) :
      interpreter.Serves (.run 6) moment := by
    rw [← top] at visits
    exact .run visits
  obtain ⟨-, -, -, -, bound, awaited⟩ := @parameters_are_bound _ _ _ _ (.run 6) arises
    List.mem_cons_self fun _ absent => (List.not_mem_nil absent).elim
  have makes : interpreter.Makes (.run 6) 4
      ⟨inner, 0, [(none, .ofBool true)], some ⟨3, default⟩, m₁⟩ :=
    .site (serves (.inside (.strict .first) .here)) (.mk called given)
  have fills : ClosureCall.Fills ⟨inner, 0, [(none, .ofBool true)], some ⟨3, default⟩, m₁⟩
      (eval interpreter.context 4) inner.params.length 1 m₂ := by
    rw [one]
    exact (ClosureCall.fills_zero opened).succ filled
  have reads : interpreter.Serves (.run 6) ⟨.ident ⟨5, default⟩ "y", 2, m₄⟩ :=
    serves (.inside (.strict (.later returned .first))
      (.inside (.call called' rfl (.default opened' rfl unbound known)) .here))
  obtain ⟨depth, call, made, function_eq, -, index, e, start, -, -, awaits, -⟩ :=
    awaited _ _ _ _ _ _ reads missing
  refine ⟨interpreter, built, arises, ⟨4, _, 1, m₂, makes, fills, named, ?_⟩, 2, m₄, outer.name,
    reads, missing, depth, call, index, e, start, made, function_eq, awaits⟩
  exact (bound _ _ _ _ makes fills).1 0 (by rw [one]; decide)

/-- The function `function(a = (... <- 1L), ...) ...`. -/
def assigningMarker : Expr :=
  .function ⟨4, default⟩
    [("a", some (.assign ⟨2, default⟩ "..." (.literal ⟨1, default⟩ (.integer 1)))), ("...", none)]
    (.ident ⟨3, default⟩ "...")

/-- The program `(function(a = (... <- 1L), ...) ...)()`. -/
def markerCall : Expr :=
  .call ⟨5, default⟩ assigningMarker []

/-- The slot of the varargs marker need not have a list when a body begins, since a default may
have assigned to it. -/
theorem varargs_reassigned :
    ∃ interpreter depth call frame m,
      Interpreter.build { top := markerCall } .empty = .ok interpreter ∧
      interpreter.Makes (.run 4) depth call ∧
      call.Fills (eval interpreter.context depth) call.layout.params.length frame m ∧
      call.layout.formals.dotsIndex = some 1 ∧
      m.heap.get frame 1 = some (.ofInteger 1) ∧ (Value.ofInteger 1).kind ≠ .list := by
  obtain ⟨program, layout, m, opened, assigned, later, resolved, top, called, entered, first,
      second, two, marker, bound⟩ :
      ∃ program layout m opened assigned later,
        Program.resolve 0 markerCall = .ok program ∧ program.toplevel.body = markerCall ∧
        eval (Interpreter.ofProgram { top := markerCall } .empty program).context 3
          assigningMarker 0 (Interpreter.ofProgram { top := markerCall } .empty program).machine =
            .ok (.closure layout 0) m ∧
        entered layout 0 [] (some ⟨5, default⟩) m = .ok 1 opened ∧
        fillDefault (eval (Interpreter.ofProgram { top := markerCall } .empty program).context 3)
          layout 1 0 opened = .ok () assigned ∧
        fillDefault (eval (Interpreter.ofProgram { top := markerCall } .empty program).context 3)
          layout 1 1 assigned = .ok () later ∧
        layout.params.length = 2 ∧ layout.formals.dotsIndex = some 1 ∧
        later.heap.get 1 1 = some (.ofInteger 1) :=
    ⟨_, _, _, _, _, _, rfl, rfl, rfl, rfl, rfl, rfl, rfl, rfl, rfl⟩
  let interpreter := Interpreter.ofProgram { top := markerCall } .empty program
  have serves : interpreter.Serves (.run 4)
      ⟨markerCall, interpreter.root, interpreter.machine⟩ := by
    rw [← top]
    exact .run .here
  have makes : interpreter.Makes (.run 4) 3 ⟨layout, 0, [], some ⟨5, default⟩, m⟩ :=
    .site serves (.mk called rfl)
  refine ⟨interpreter, 3, _, 1, later, build_of_resolve resolved, makes, ?_, marker, bound,
    by decide⟩
  change ClosureCall.Fills _ _ layout.params.length _ _
  rw [two]
  exact ((ClosureCall.fills_zero entered).succ first).succ second

end World

end Vectorial
