import Vectorial.Interpreter
import Vectorial.Proofs.Evaluation.Preservation

/-!
# Sessions with an interpreter

A host runs the program of an interpreter, calls functions and sets variables, in any order
and whatever the answers are. It is honest if every closure that it hands in is one of this
interpreter: one that an answer gave it, or that the interpreter has in a variable.

What a discipline allows in the beginning it allows throughout an honest session.

## Main definitions

* `Request`, `Interpreter.serve`: what a host asks, and what comes of it;
* `Interpreter.answers`, `Interpreter.after`: a session;
* `Interpreter.Honest`: sessions in which closures stay with their interpreter;
* `Interpreter.Evaluates`: the moments of a session.

## Main results

* `Interpreter.fits_after`: interpreters keep a discipline in an honest session;
* `Interpreter.allowed_of_evaluates`: so do all moments of it.
-/

namespace Vectorial

/-- What a host asks of an interpreter. -/
inductive Request where
  | run (depth : Nat)
  | call (depth : Nat) (callee : Value) (actuals : Parts)
  | setGlobal (name : Symbol) (value : Value)

/-- The closures that a host hands in. -/
def Request.closures : Request → List (Layout × FrameId)
  | .run _ => []
  | .call _ callee actuals => callee.closures ++ actuals.closures
  | .setGlobal _ value => value.closures

/-- The closures that a host is given. -/
def closuresOfAnswer : Except Stop Value → List (Layout × FrameId)
  | .ok value => value.closures
  | .error _ => []

namespace Interpreter

/-! ### Sessions -/

/-- The answer to a request, and the interpreter after it. Setting a variable has no
result. -/
def serve (interpreter : Interpreter) : Request → Except Stop Value × Interpreter
  | .run depth => interpreter.run depth
  | .call depth callee actuals => interpreter.callValue depth callee actuals
  | .setGlobal name value =>
    match interpreter.setGlobal name value with
    | .ok after => (.ok .null, after)
    | .error defect => (.error (.defect defect), interpreter)

/-- The answers to requests made one after the other. -/
def answers (interpreter : Interpreter) : List Request → List (Except Stop Value)
  | [] => []
  | request :: rest =>
    (interpreter.serve request).1 :: (interpreter.serve request).2.answers rest

/-- The interpreter after some requests. -/
def after (interpreter : Interpreter) (requests : List Request) : Interpreter :=
  requests.foldl (fun current request => (current.serve request).2) interpreter

/-- Whether a closure is in a global variable or in a frame of the interpreter. -/
def Holds (interpreter : Interpreter) (c : Layout × FrameId) : Prop :=
  (∃ entry ∈ interpreter.machine.globals, c ∈ entry.2.closures) ∨
    ∃ id slot v, interpreter.root ≤ id ∧ interpreter.machine.heap.get id slot = some v ∧
      c ∈ v.closures

/-- Whether a host that was given some closures hands in no others, those apart that the
interpreter has itself. -/
def Honest (interpreter : Interpreter) (given : List (Layout × FrameId)) : List Request → Prop
  | [] => True
  | request :: rest =>
    (∀ c ∈ request.closures, c ∈ given ∨ interpreter.Holds c) ∧
      (interpreter.serve request).2.Honest
        (given ++ closuresOfAnswer (interpreter.serve request).1) rest

/-- The moments while a request is served. -/
inductive Serves (interpreter : Interpreter) : Request → Moment → Prop where
  | run {depth : Nat} {moment : Moment} :
      EvalM.Visits interpreter.context depth
        ⟨interpreter.context.program.toplevel.body, interpreter.root, interpreter.machine⟩ moment →
      Serves interpreter (.run depth) moment
  | call {depth : Nat} {layout : Layout} {env : FrameId} {actuals : Parts}
      {part moment : Moment} :
      EvalM.CallPart (EvalM.eval interpreter.context depth) layout env actuals none
        interpreter.machine part →
      EvalM.Visits interpreter.context depth part moment →
      Serves interpreter (.call depth (.closure layout env) actuals) moment

/-- The moments of a session. -/
def Evaluates (interpreter : Interpreter) : List Request → Moment → Prop
  | [], _ => False
  | request :: rest, moment =>
    interpreter.Serves request moment ∨ (interpreter.serve request).2.Evaluates rest moment

/-! ### Beginning -/

/-- The interpreter of a program that has been resolved. -/
def ofProgram (settings : Settings) (heap : Heap) (program : Program) : Interpreter :=
  { context := { program, builtins := settings.builtins, mode := settings.mode }
    root := heap.frames.size
    machine :=
      { heap := (heap.allocate (.unbound program.toplevel none)).2
        globals := settings.globals.foldl (fun all (name, v) => setEntry name v all)
          (settings.builtins.visible.map fun (name, handle) => (name, Value.builtin name handle))
        stack := { limit := settings.mode.limit }
        cache := if settings.keepsBindings then some [] else none
        activations := [] }
    queue := .empty settings.queue
    sink := if settings.hasSink then some [] else none }

/-- Building an interpreter fails only if the program cannot be resolved. -/
theorem build_eq (settings : Settings) (heap : Heap) :
    build settings heap =
      (Program.resolve heap.frames.size settings.top).map (ofProgram settings heap) := by
  rw [build]
  cases Program.resolve heap.frames.size settings.top <;> rfl

theorem build_eq_ok {settings : Settings} {heap : Heap} {interpreter : Interpreter}
    (built : build settings heap = .ok interpreter) :
    ∃ program, Program.resolve heap.frames.size settings.top = .ok program ∧
      interpreter = ofProgram settings heap program := by
  rw [build_eq] at built
  cases resolved : Program.resolve heap.frames.size settings.top with
  | error defect =>
    rw [resolved] at built
    cases built
  | ok program =>
    rw [resolved] at built
    cases built
    exact ⟨program, rfl, rfl⟩

theorem mem_foldl_setEntry {entries all : List (Symbol × Value)} {entry : Symbol × Value}
    (member : entry ∈ entries.foldl (fun all (name, v) => setEntry name v all) all) :
    entry ∈ entries ∨ entry ∈ all := by
  induction entries generalizing all with
  | nil => exact .inr member
  | cons first rest ih =>
    rcases ih member with later | member
    · exact .inl (List.mem_cons_of_mem _ later)
    · rcases mem_setEntry member with rfl | old
      · exact .inl List.mem_cons_self
      · exact .inr old

/-! ### What changes without evaluation -/

/-- A report changes the queue or the sink. -/
theorem report_eq (interpreter : Interpreter) (record : Diagnostic) :
    ∃ queue sink, interpreter.report record = { interpreter with queue, sink } := by
  rw [report]
  split
  · exact ⟨_, _, rfl⟩
  · exact ⟨_, interpreter.sink, rfl⟩

@[simp]
theorem machine_report (interpreter : Interpreter) (record : Diagnostic) :
    (interpreter.report record).machine = interpreter.machine := by
  obtain ⟨queue, sink, same⟩ := interpreter.report_eq record
  rw [same]

@[simp]
theorem context_report (interpreter : Interpreter) (record : Diagnostic) :
    (interpreter.report record).context = interpreter.context := by
  obtain ⟨queue, sink, same⟩ := interpreter.report_eq record
  rw [same]

@[simp]
theorem root_report (interpreter : Interpreter) (record : Diagnostic) :
    (interpreter.report record).root = interpreter.root := by
  obtain ⟨queue, sink, same⟩ := interpreter.report_eq record
  rw [same]

/-- Binding a name at the outermost level binds a variable of the machine and changes nothing
else. -/
theorem bindAt_of_setGlobal {interpreter after : Interpreter} {name : Symbol} {v : Value}
    (done : interpreter.setGlobal name v = .ok after) :
    ∃ machine, interpreter.machine.bindAt (interpreter.rootPlace name) name v = .ok machine ∧
      after = { interpreter with machine } := by
  rw [setGlobal] at done
  cases bound : interpreter.machine.bindAt (interpreter.rootPlace name) name v with
  | error defect =>
    rw [bound] at done
    cases done
  | ok machine =>
    rw [bound] at done
    cases done
    exact ⟨machine, rfl, rfl⟩

/-! ### Disciplines in a session -/

variable {context : Context} {base : FrameId}

/-- Everything in the interpreter is allowed, and so is what its host was given. -/
structure Fits (D : Discipline context base) (interpreter : Interpreter)
    (given : List (Layout × FrameId)) : Prop where
  same_context : interpreter.context = context
  same_root : interpreter.root = base
  machine : interpreter.machine.Fits D
  placed : D.places interpreter.machine.heap context.program.toplevel.body base
  given : ∀ c ∈ given, D.admits interpreter.machine.heap c.1 c.2

variable {D : Discipline context base} {interpreter : Interpreter}
variable {given : List (Layout × FrameId)}

namespace Fits

theorem admits_of_holds (fits : interpreter.Fits D given) {c : Layout × FrameId}
    (held : interpreter.Holds c) : D.admits interpreter.machine.heap c.1 c.2 := by
  rcases held with ⟨entry, member, inside⟩ | ⟨id, slot, v, own, bound, inside⟩
  · exact fits.machine.globals entry member c inside
  · rw [fits.same_root] at own
    exact fits.machine.slots id slot v (.inl own) bound c inside

/-- An honest host hands in what may be around. -/
theorem admits_of_honest (fits : interpreter.Fits D given) {request : Request}
    {rest : List Request} (honest : interpreter.Honest given (request :: rest)) :
    ∀ c ∈ request.closures, D.admits interpreter.machine.heap c.1 c.2 := by
  intro c handed
  rcases honest.1 c handed with known | held
  · exact fits.given c known
  · exact fits.admits_of_holds held

/-- An interpreter that only went on to a machine that follows still fits. -/
theorem of_follows (fits : interpreter.Fits D given) (after : Interpreter)
    (same_context : after.context = interpreter.context) (same_root : after.root = interpreter.root)
    (follows : D.Follows interpreter.machine after.machine) {answer : Except Stop Value}
    (admitted : ∀ v, answer = .ok v → D.Admits after.machine.heap v) :
    after.Fits D (given ++ closuresOfAnswer answer) where
  same_context := same_context.trans fits.same_context
  same_root := same_root.trans fits.same_root
  machine := follows.fits
  placed := D.places_mono follows.grows fits.placed
  given := by
    intro c member
    rcases List.mem_append.mp member with old | new
    -- Whatever was given before is still admitted, since frames stay.
    · exact D.admits_mono follows.grows (fits.given c old)
    · cases answer with
      | error stop => cases new
      | ok v => exact admitted v rfl c new

/-- A step that keeps the discipline leaves an interpreter that fits. -/
theorem perform (fits : interpreter.Fits D given) {step : EvalM Value}
    (ensured : D.Ensures step interpreter.machine fun v later => D.Admits later.heap v) :
    (interpreter.perform step).2.Fits D
      (given ++ closuresOfAnswer (interpreter.perform step).1) := by
  rw [Discipline.Ensures] at ensured
  rw [Interpreter.perform]
  split
  · next value machine eq =>
    rw [eq] at ensured
    refine fits.of_follows { interpreter with machine } rfl rfl ensured.1 fun v same => ?_
    cases same
    exact ensured.2
  · next e machine eq =>
    rw [eq] at ensured
    refine fits.of_follows ({ interpreter with machine }.report e.report) (context_report _ _)
      (root_report _ _) ?_ ?_
    · rw [machine_report]
      exact ensured
    · rintro _ ⟨⟩
  · next stop machine _ eq =>
    rw [eq] at ensured
    exact fits.of_follows { interpreter with machine } rfl rfl ensured fun _ same => by cases same

theorem setGlobal (fits : interpreter.Fits D given) {name : Symbol} {value : Value}
    {after : Interpreter} (admitted : D.Admits interpreter.machine.heap value)
    (done : interpreter.setGlobal name value = .ok after) : after.Fits D given := by
  have of_follows {machine : Machine} (follows : D.Follows interpreter.machine machine) :
      Interpreter.Fits D { interpreter with machine } given := by
    refine ⟨fits.same_context, fits.same_root, follows.fits, ?_, ?_⟩
    · exact D.places_mono follows.grows fits.placed
    · exact fun c known => D.admits_mono follows.grows (fits.given c known)
  obtain ⟨machine, bound, rfl⟩ := bindAt_of_setGlobal done
  exact of_follows (Discipline.follows_bindAt fits.machine admitted bound)

/-- The sub-parts of what an honest host hands in with a call may be around. -/
theorem admits_of_call (fits : interpreter.Fits D given) {depth : Nat} {callee : Value}
    {actuals : Parts} {rest : List Request}
    (honest : interpreter.Honest given (.call depth callee actuals :: rest)) :
    D.Admits interpreter.machine.heap callee ∧
      ∀ part ∈ actuals, D.Admits interpreter.machine.heap part.2 := by
  have admitted := fits.admits_of_honest honest
  refine ⟨fun c held => admitted c (List.mem_append_left _ held), fun part listed c held => ?_⟩
  exact admitted c (List.mem_append_right _ (List.mem_flatMap.mpr ⟨part, listed, held⟩))

/-- Running the program keeps the discipline. -/
theorem ensures_run (fits : interpreter.Fits D given) (handsOn : context.builtins.HandsOn)
    (depth : Nat) :
    D.Ensures (EvalM.eval interpreter.context depth interpreter.context.program.toplevel.body
      interpreter.root) interpreter.machine fun v later => D.Admits later.heap v := by
  rw [fits.same_context, fits.same_root]
  exact Discipline.sound_eval handsOn depth _ _ _ fits.machine fits.placed

/-- So does a call by an honest host. -/
theorem ensures_call (fits : interpreter.Fits D given) (handsOn : context.builtins.HandsOn)
    {depth : Nat} {callee : Value} {actuals : Parts} {rest : List Request}
    (honest : interpreter.Honest given (.call depth callee actuals :: rest)) :
    D.Ensures (EvalM.call interpreter.context (EvalM.eval interpreter.context depth) callee actuals
      none) interpreter.machine fun v later => D.Admits later.heap v := by
  obtain ⟨admitted, admitted_parts⟩ := fits.admits_of_call honest
  rw [fits.same_context]
  exact Discipline.ensures_call handsOn (Discipline.sound_eval handsOn depth) fits.machine admitted
    admitted_parts (fun _ _ _ _ _ site => by cases site) (fun _ _ _ _ _ site => by cases site)

/-- One request of an honest host keeps the discipline. -/
theorem serve (fits : interpreter.Fits D given) (handsOn : context.builtins.HandsOn)
    {request : Request} {rest : List Request}
    (honest : interpreter.Honest given (request :: rest)) :
    (interpreter.serve request).2.Fits D
      (given ++ closuresOfAnswer (interpreter.serve request).1) := by
  cases request with
  | run depth => exact fits.perform (fits.ensures_run handsOn depth)
  | call depth callee actuals => exact fits.perform (fits.ensures_call handsOn honest)
  | setGlobal name value =>
    have admitted : D.Admits interpreter.machine.heap value := fits.admits_of_honest honest
    unfold Interpreter.serve
    dsimp only
    split
    · next after done =>
      simpa [closuresOfAnswer] using fits.setGlobal admitted done
    · simpa [closuresOfAnswer] using fits

/-- The moments while a request of an honest host is served are allowed. -/
theorem allowed_of_serves (fits : interpreter.Fits D given) (handsOn : context.builtins.HandsOn)
    {request : Request} {rest : List Request}
    (honest : interpreter.Honest given (request :: rest)) {moment : Moment}
    (serves : interpreter.Serves request moment) : D.Allowed moment := by
  cases serves with
  | run visits =>
    rw [fits.same_context, fits.same_root] at visits
    exact Discipline.allowed_of_visits handsOn visits ⟨fits.machine, fits.placed⟩
  | call part visits =>
    rw [fits.same_context] at part visits
    obtain ⟨admitted, admitted_parts⟩ := fits.admits_of_call honest
    refine Discipline.allowed_of_visits handsOn visits ?_
    refine Discipline.allowed_of_callPart (Discipline.sound_eval handsOn _) fits.machine
      (admitted _ (List.mem_singleton_self _)) admitted_parts ?_ part
    -- A call of the host has no site, so that no binding is kept for it.
    rintro _ _ ⟨⟩

end Fits

/-- A discipline is kept throughout an honest session. What the host was given grows by the answer
to each request. -/
theorem fits_after_answers (handsOn : context.builtins.HandsOn) {requests : List Request}
    (fits : interpreter.Fits D given) (honest : interpreter.Honest given requests) :
    (interpreter.after requests).Fits D
      (given ++ (interpreter.answers requests).flatMap closuresOfAnswer) := by
  induction requests generalizing interpreter given with
  | nil => simpa [after, answers] using fits
  | cons request rest ih =>
    have later := ih (fits.serve handsOn honest) honest.2
    rw [List.append_assoc] at later
    exact later

theorem fits_after (handsOn : context.builtins.HandsOn) {requests : List Request}
    (fits : interpreter.Fits D given) (honest : interpreter.Honest given requests) :
    ∃ known, (interpreter.after requests).Fits D known :=
  ⟨_, fits_after_answers handsOn fits honest⟩

/-- All moments of an honest session are allowed. -/
theorem allowed_of_evaluates (handsOn : context.builtins.HandsOn) {requests : List Request}
    {moment : Moment} (fits : interpreter.Fits D given)
    (honest : interpreter.Honest given requests)
    (evaluates : interpreter.Evaluates requests moment) : D.Allowed moment := by
  induction requests generalizing interpreter given with
  | nil => exact evaluates.elim
  | cons request rest ih =>
    rcases evaluates with serves | later
    · exact fits.allowed_of_serves handsOn honest serves
    · exact ih (fits.serve handsOn honest) honest.2 later

/-- An interpreter that has just been built keeps any discipline that lets the program be
evaluated in its outermost frame, and that the guests and what the host has of them keep. -/
theorem fits_of_build_among {settings : Settings} {heap : Heap} {built : Interpreter}
    {D : Discipline built.context built.root} {given : List (Layout × FrameId)}
    (done : build settings heap = .ok built)
    (outermost : D.outermost built.context.program.toplevel)
    (frames : ∀ id frame, D.guests id → heap.frame? id = some frame →
      D.Founds built.machine.heap frame)
    (slots : ∀ id slot v, D.guests id → heap.get id slot = some v →
      D.Admits built.machine.heap v)
    (parents : ∀ id parent, D.guests id → heap.parent id = some parent →
      D.Own parent ∧ parent < id)
    (globals : ∀ entry ∈ settings.globals, D.Admits built.machine.heap entry.2)
    (placed : D.places built.machine.heap built.context.program.toplevel.body built.root)
    (admitted : ∀ c ∈ given, D.admits built.machine.heap c.1 c.2) : built.Fits D given := by
  obtain ⟨program, resolved, rfl⟩ := build_eq_ok done
  let later := (heap.allocate (.unbound program.toplevel none)).2
  -- The root frame comes first, and nothing is bound in it; all others are there already.
  have cases_of_own {id : FrameId} (own : D.Own id) :
      id = heap.frames.size ∨ heap.frame? id = none ∨ D.guests id := by
    rcases own with inside | guest
    · rcases Nat.eq_or_lt_of_le inside with same | after
      · exact .inl same.symm
      · exact .inr (.inl (Heap.frame_eq_none_iff.mpr (Nat.le_of_lt after)))
    · exact .inr (.inr guest)
  refine ⟨rfl, rfl, ⟨?begun, ?frames, ?slots, ?parents, ?globals, ?kept⟩, placed, admitted⟩
  case begun =>
    exact Heap.exists_frame_iff.mp ⟨_, (Heap.frame_allocate heap _ _).trans (if_pos rfl)⟩
  case frames =>
    intro id frame own found
    replace found : later.frame? id = some frame := found
    rw [Heap.frame_allocate] at found
    split at found
    · cases found
      exact ⟨List.length_replicate, fun _ => outermost, fun _ inside => by cases inside⟩
    · next old =>
      rcases cases_of_own own with new | absent | guest
      · exact absurd new old
      · rw [absent] at found
        cases found
      · exact frames id frame guest found
  case slots =>
    intro id slot v own bound
    obtain ⟨old, bound⟩ := Heap.get_of_get_allocate_unbound bound
    rcases cases_of_own own with new | absent | guest
    · exact absurd new old
    · rw [Heap.get_eq, absent] at bound
      cases bound
    · exact slots id slot v guest bound
  case parents =>
    intro id parent own known
    obtain ⟨old, known⟩ := Heap.parent_of_parent_allocate_unbound known
    rcases cases_of_own own with new | absent | guest
    · exact absurd new old
    · rw [Heap.parent, absent] at known
      cases known
    · exact parents id parent guest known
  case globals =>
    intro entry member
    -- A global is given by the host or a builtin.
    rcases mem_foldl_setEntry member with host | builtin
    · exact globals entry host
    · obtain ⟨visible, -, rfl⟩ := List.mem_map.mp builtin
      exact .of_eq_nil (Value.closures_builtin _ _)
  case kept =>
    intro cache kept entry member
    replace kept : (if settings.keepsBindings then some [] else none) = some cache := kept
    split at kept
    · cases kept
      cases member
    · cases kept

/-- So it does without guests. -/
theorem fits_of_build {settings : Settings} {heap : Heap} {built : Interpreter}
    {D : Discipline built.context built.root} (done : build settings heap = .ok built)
    (alone : ∀ id, ¬D.guests id) (outermost : D.outermost built.context.program.toplevel)
    (closed : ∀ entry ∈ settings.globals, entry.2.closures = [])
    (placed : D.places built.machine.heap built.context.program.toplevel.body built.root) :
    built.Fits D [] := by
  refine fits_of_build_among done outermost ?_ ?_ ?_ ?_ placed ?_
  · exact fun id _ guest => absurd guest (alone id)
  · exact fun id _ _ guest => absurd guest (alone id)
  · exact fun id _ guest => absurd guest (alone id)
  · exact fun entry member => .of_eq_nil (closed entry member)
  · exact fun _ held => (List.not_mem_nil held).elim

end Interpreter

end Vectorial
