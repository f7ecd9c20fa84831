import Vectorial.Proofs.Evaluation.Filling

/-!
# Parameters are bound when a body begins

A call of a closure fills in the defaults of the parameters that it leaves without a value, one
after the other, and only then begins the body. Defaults may do anything: call functions that
read the half-filled frame, or assign to parameters further on. Still every parameter is bound
when the body begins, and reading one in the body does not fail. A parameter is missing only while
defaults are filled in, and then it is one whose turn has not passed.

## Main definitions

* `ClosureCall`: calls of closures, once their actuals are evaluated;
* `ClosureCall.Fills`: the frame of a call when some of the defaults have been filled in;
* `ClosureCall.Awaits`: a default that is about to be evaluated;
* `ClosureCall.Reassigns`: assignments to a slot of the frame while defaults are filled in;
* `ClosureCall.Proper`: calls of functions that were resolved, bound as matching gives;
* `EvalM.Issues`: the call that a moment comes to.

## Main results

* `ClosureCall.Proper.bound`: when all defaults have been filled in, every parameter is bound;
* `ClosureCall.Proper.varargs`: what the varargs marker is bound to;
* `ClosureCall.Proper.exists_read`: in the body every parameter can be read;
* `ClosureCall.Proper.awaits_of_missing`: when a parameter is missing.
-/

namespace Vectorial

/-! ### Calls of closures -/

/-- A call of a closure, with the machine in which its actuals have been evaluated. A host calls
without a site. -/
structure ClosureCall where
  layout : Layout
  env : FrameId
  actuals : Parts
  site : Option Site
  machine : Machine

namespace ClosureCall

open EvalM

variable (call : ClosureCall)

/-- Whether the call has its frame and the defaults of the parameters before a position have been
filled in there. -/
def Fills (evaluate : Evaluator) (count : Nat) (frame : FrameId) (m : Machine) : Prop :=
  ∃ opened, entered call.layout call.env call.actuals call.site call.machine = .ok frame opened ∧
    (List.range count).forM (fillDefault evaluate call.layout frame) opened = .ok () m

/-- Whether the default of the parameter at a position is about to be evaluated in the frame of the
call. -/
structure Awaits (evaluate : Evaluator) (index : Nat) (e : Expr) (frame : FrameId) (m : Machine) :
    Prop where
  fills : call.Fills evaluate index frame m
  unbound : m.heap.get frame index = none
  default : call.layout.defaultFor index = some e

/-- Whether something that is evaluated for one of the first defaults assigns to a slot of the frame
of the call. -/
def Reassigns (context : Context) (depth count : Nat) (frame : FrameId) (slot : Nat) : Prop :=
  ∃ index e start reached inner, index < count ∧
    call.Awaits (eval context depth) index e frame start ∧
    Visits context depth ⟨e, frame, start⟩ reached ∧ reached.Sets (eval context inner) frame slot

/-- Whether the call is of a function that resolution laid out, and gets no other binding than the
one that matching gives. -/
structure Proper : Prop where
  resolved : call.layout.Resolved
  matched : ∀ binding later,
    call.machine.bindings call.site call.layout.callable (call.actuals.map Prod.fst) =
      .ok (binding, later) →
    Matching.matchCall call.layout.formals (call.actuals.map Prod.fst) = .ok binding

variable {call} {evaluate : Evaluator} {count : Nat} {frame : FrameId} {m later : Machine}

theorem fills_zero
    (opened : entered call.layout call.env call.actuals call.site call.machine = .ok frame m) :
    call.Fills evaluate 0 frame m :=
  ⟨m, opened, rfl⟩

theorem Fills.succ (fills : call.Fills evaluate count frame m)
    (filled : fillDefault evaluate call.layout frame count m = .ok () later) :
    call.Fills evaluate (count + 1) frame later := by
  obtain ⟨opened, entered, earlier⟩ := fills
  refine ⟨opened, entered, ?_⟩
  rw [List.range_succ, forM_append, bind_of_ok earlier]
  exact bind_of_ok filled

end ClosureCall

/-- The call of a closure that a moment comes to, once its callee and its actuals are evaluated. -/
inductive EvalM.Issues (context : Context) (depth : Nat) : Moment → ClosureCall → Prop where
  | mk {site : Site} {callee : Expr} {actuals : List (Option Symbol × Expr)} {frame env : FrameId}
      {layout : Layout} {parts : Parts} {m m₁ m₂ : Machine} :
      eval context depth callee frame m = .ok (.closure layout env) m₁ →
      evalActuals (eval context depth) frame actuals m₁ = .ok parts m₂ →
      Issues context depth ⟨.call site callee actuals, frame, m⟩ ⟨layout, env, parts, some site, m₂⟩

namespace ClosureCall

open EvalM

variable {call : ClosureCall} {context : Context} {depth count slot : Nat} {frame : FrameId}
variable {m later : Machine}

theorem Fills.layout (fills : call.Fills (eval context depth) count frame m) :
    m.heap.layout? frame = some call.layout := by
  obtain ⟨opened, entered, filled⟩ := fills
  obtain ⟨-, -, -, -, -, known, -⟩ := slots_of_entered entered
  exact (keeps_of_filled filled).grows.layout known

/-- A parameter that is unbound has a default that has not been filled in. -/
theorem Proper.exists_default (proper : call.Proper)
    (fills : call.Fills (eval context depth) count frame m)
    (declared : slot < call.layout.params.length) (unbound : m.heap.get frame slot = none) :
    count ≤ slot ∧ ∃ e, call.layout.defaultFor slot = some e := by
  obtain ⟨opened, entered, filled⟩ := fills
  obtain ⟨binding, bound, fresh, matched, -, -, slots⟩ := slots_of_entered entered
  have unbound_before := (keeps_of_filled filled).unbound unbound
  rw [slots slot declared] at unbound_before
  obtain ⟨e, known⟩ :=
    proper.resolved.exists_default (proper.matched _ _ matched) declared unbound_before
  refine ⟨Nat.le_of_not_lt fun before => ?_, e, known⟩
  have bound := bound_of_filled filled before known
  rw [unbound] at bound
  cases bound

/-- When all defaults have been filled in, every parameter is bound. -/
theorem Proper.bound (proper : call.Proper)
    (fills : call.Fills (eval context depth) call.layout.params.length frame m)
    (declared : slot < call.layout.params.length) : (m.heap.get frame slot).isSome := by
  cases unbound : m.heap.get frame slot with
  | some v => rfl
  | none =>
    have past := (proper.exists_default fills declared unbound).1
    exact absurd past (Nat.not_le_of_lt declared)

/-- A slot that is bound when the frame is made keeps its value while defaults are filled in,
unless it is assigned to. -/
theorem get_or_reassigns {opened : Machine} {v : Value}
    (entered : entered call.layout call.env call.actuals call.site call.machine = .ok frame opened)
    (filled : (List.range count).forM (fillDefault (eval context depth) call.layout frame) opened =
      .ok () m)
    (bound : opened.heap.get frame slot = some v) :
    m.heap.get frame slot = some v ∨ call.Reassigns context depth count frame slot := by
  by_cases assigned : call.Reassigns context depth count frame slot
  · exact .inr assigned
  -- Nothing that is evaluated for a default takes the value away, and no default is for this slot.
  refine .inl ?_
  have lasting := Heap.lasting_value frame slot v
  rw [← ending_of_ok filled]
  refine holds_ending_forM_fillDefault lasting bound fun index start e before filled unbound known
    kept => ?_
  let moment : Moment := ⟨e, frame, start⟩
  replace kept : moment.machine.heap.get frame slot = some v := kept
  have quiet (reached : Moment) (inner : Nat) (visits : Visits context depth moment reached)
      (id : FrameId) (other : Nat) (sets : reached.Sets (eval context inner) id other) :
      ¬(id = frame ∧ other = slot) := by
    rintro ⟨rfl, rfl⟩
    exact assigned ⟨index, e, start, reached, inner, before,
      ⟨⟨opened, entered, filled⟩, unbound, known⟩, visits, sets⟩
  have ended := holds_ending_eval lasting kept quiet
  exact ended

/-- The slot of the varargs marker has the list of what it absorbed, as long as no default assigns
to it. -/
theorem Proper.varargs (proper : call.Proper) {dots : Nat}
    (marker : call.layout.formals.dotsIndex = some dots)
    (fills : call.Fills (eval context depth) count frame m) :
    ∃ opened binding storage, call.Fills (eval context depth) 0 frame opened ∧
      Matching.matchCall call.layout.formals (call.actuals.map Prod.fst) = .ok binding ∧
      opened.heap.get frame dots =
        some (.ofParts storage (binding.dots.filterMap fun actual => call.actuals[actual]?)) ∧
      (m.heap.get frame dots = opened.heap.get frame dots ∨
        call.Reassigns context depth count frame dots) := by
  obtain ⟨opened, entered, filled⟩ := fills
  obtain ⟨binding, bound, storage, matched, -, -, slots⟩ := slots_of_entered entered
  have declared : dots < call.layout.params.length := by
    have named := Formals.getElem?_names_dotsIndex marker
    rw [call.layout.formals_names] at named
    simpa using (List.getElem?_eq_some_iff.mp named).1
  have listed := slots dots declared
  rw [Frame.initialSlot, if_pos marker] at listed
  refine ⟨opened, binding, storage, fills_zero entered, proper.matched _ _ matched, listed, ?_⟩
  -- From the start of the call on, only an assignment in a default can have changed the slot.
  rw [listed]
  exact get_or_reassigns entered filled listed

end ClosureCall

/-! ### Whose text is evaluated -/

/-- A moment in the frame of the call, in the text of a default or of the body that is evaluated
there. -/
inductive ClosureCall.Has (call : ClosureCall) (context : Context) (depth : Nat) :
    Moment → Prop where
  | mk {part moment : Moment} :
      EvalM.CallPart (EvalM.eval context depth) call.layout call.env call.actuals call.site
        call.machine part →
      EvalM.Visits context depth part moment → moment.frame = part.frame →
      part.expr.Within moment.expr → Has call context depth moment

namespace EvalM

variable {context : Context} {depth : Nat} {call : ClosureCall} {outer moment : Moment}

/-- A part of a moment is evaluated in the same frame and is in the same text, or is a part of the
call that the moment comes to. -/
theorem local_or_callPart {part : Moment} (inside : Part (eval context depth) outer part) :
    (part.frame = outer.frame ∧ part.expr ∈ outer.expr.parts) ∨
      ∃ call, Issues context depth outer call ∧
        CallPart (eval context depth) call.layout call.env call.actuals call.site call.machine
          part := by
  cases inside with
  | strict inOrder =>
    obtain ⟨listed, same⟩ := Likeness.of_inOrder inOrder
    exact .inl ⟨same, List.mem_append_left _ listed⟩
  | thenBranch => exact .inl ⟨rfl, List.mem_append_right _ List.mem_cons_self⟩
  | elseBranch => exact .inl ⟨rfl, List.mem_append_right _ (by simp [Expr.branches])⟩
  | call called given callPart => exact .inr ⟨_, .mk called given, callPart⟩

/-- Every moment of an evaluation is in the frame and the text of its beginning, or in those of a
call that the evaluation makes. -/
theorem local_or_issued (visits : Visits context depth outer moment) :
    (moment.frame = outer.frame ∧ outer.expr.Within moment.expr) ∨
      ∃ issuer inner call, Visits context depth outer issuer ∧
        Issues context inner issuer call ∧ call.Has context inner moment := by
  induction visits with
  | here => exact .inl ⟨rfl, .self⟩
  | inside inside visits ih =>
    rcases ih with ⟨same, within⟩ | ⟨issuer, inner, call, issued, issues, has⟩
    · rcases local_or_callPart inside with ⟨same_frame, listed⟩ | ⟨call, issues, callPart⟩
      · exact .inl ⟨same.trans same_frame, (Expr.Within.self.part listed).trans within⟩
      · exact .inr ⟨_, _, call, .here, issues, .mk callPart visits same within⟩
    · exact .inr ⟨issuer, inner, call, .inside inside issued, issues, has⟩

/-- What is bound when a call is evaluated is bound when its actuals have been. -/
theorem Issues.keeps (issues : Issues context depth moment call) :
    moment.machine.heap.Keeps call.machine.heap := by
  cases issues with
  | @mk site callee actuals frame env layout parts m m₁ m₂ called given =>
    have lasting := Heap.lasting_keeps m.heap
    change m.heap.Keeps m₂.heap
    rw [← ending_of_ok given]
    exact holds_ending_evalActuals (keeps_of_eval called) fun part _ =>
      holds_ending_eval_of_start lasting context depth part.expr part.frame part.machine

end EvalM

namespace ClosureCall

open EvalM

variable {call : ClosureCall} {context : Context} {depth inner : Nat} {frame : FrameId}
variable {m : Machine} {moment : Moment}

theorem Has.frame_eq (has : call.Has context depth moment) :
    moment.frame = call.machine.heap.frames.size := by
  obtain ⟨callPart, -, same, -⟩ := has
  rw [same]
  cases callPart with
  | default opened =>
    obtain ⟨_, _, _, -, fresh, -⟩ := slots_of_entered opened
    exact fresh
  | body opened =>
    obtain ⟨_, _, _, -, fresh, -⟩ := slots_of_entered opened
    exact fresh

/-- While a body is evaluated, what is evaluated in its frame is in its text. -/
theorem Fills.within_body {count : Nat} (fills : call.Fills (eval context depth) count frame m)
    (visits : Visits context inner ⟨call.layout.body, frame, m⟩ moment)
    (same : moment.frame = frame) : call.layout.body.Within moment.expr := by
  rcases local_or_issued visits with ⟨-, within⟩ | ⟨issuer, _, further, issued, issues, has⟩
  · exact within
  · -- The frame of a call that is made meanwhile is newer.
    have inside := Heap.lt_size_of_layout fills.layout
    have grows := ((keeps_of_visits issued).trans issues.keeps).grows
    have newer := grows.lt_size inside
    rw [← same, has.frame_eq] at newer
    exact absurd newer (Nat.lt_irrefl _)

/-- In its body a function can read each of its parameters. -/
theorem Proper.exists_read (proper : call.Proper)
    (fills : call.Fills (eval context depth) call.layout.params.length frame m) {site : Site}
    {name : Symbol} {later : Machine}
    (visits : Visits context inner ⟨call.layout.body, frame, m⟩ ⟨.ident site name, frame, later⟩)
    (param : name ∈ call.layout.params.map Prod.fst) : ∃ v, later.read name frame = .ok v := by
  obtain ⟨slot, declared⟩ := List.mem_iff_getElem?.mp param
  have within := fills.within_body visits rfl
  obtain ⟨outer, here⟩ :=
    proper.resolved.resolveRead_of_param Discipline.body_mem_ownText within declared
  have kept := keeps_of_visits visits
  have before : slot < call.layout.params.length := by
    simpa using (List.getElem?_eq_some_iff.mp declared).1
  exact Machine.exists_read_of_bound (kept.grows.layout fills.layout) here
    (kept.bound frame slot (proper.bound fills before))

/-- A parameter that is missing in the frame of a call is one whose default has not been filled
in. -/
theorem Proper.default_of_missing (proper : call.Proper) {count : Nat} {start : Machine}
    {name function missing : Symbol} (fills : call.Fills (eval context depth) count frame start)
    (kept : start.heap.Keeps m.heap)
    (failed : m.read name frame = .error (.missingArgument function missing)) :
    function = call.layout.name ∧ missing = name ∧ ∃ slot default, count ≤ slot ∧
      call.layout.params[slot]? = some (name, some default) ∧ m.heap.get frame slot = none := by
  obtain ⟨rfl, rfl, slot, declared, unbound⟩ :=
    Machine.missing_of_read proper.resolved (kept.grows.layout fills.layout) failed
  rw [List.getElem?_map] at declared
  obtain ⟨⟨_, default⟩, here, rfl⟩ := Option.map_eq_some_iff.mp declared
  obtain ⟨before, e, known⟩ := proper.exists_default fills
    (List.getElem?_eq_some_iff.mp here).1 (kept.unbound unbound)
  rw [Layout.defaultFor, here] at known
  cases known
  exact ⟨rfl, rfl, slot, e, before, here, unbound⟩

/-- So it is missing only while defaults of its call are filled in. -/
theorem Proper.awaits_of_missing (proper : call.Proper) {site : Site}
    {name function missing : Symbol} (has : call.Has context depth ⟨.ident site name, frame, m⟩)
    (failed : m.read name frame = .error (.missingArgument function missing)) :
    function = call.layout.name ∧ missing = name ∧ ∃ index e start slot default,
      call.Awaits (eval context depth) index e frame start ∧
      Visits context depth ⟨e, frame, start⟩ ⟨.ident site name, frame, m⟩ ∧ index ≤ slot ∧
      call.layout.params[slot]? = some (name, some default) ∧ m.heap.get frame slot = none := by
  obtain ⟨callPart, visits, same, -⟩ := has
  have kept := keeps_of_visits visits
  cases callPart with
  | @default _ opened start index e entered filled unbound known =>
    cases same
    have fills : call.Fills (eval context depth) index frame start := ⟨opened, entered, filled⟩
    obtain ⟨function_eq, missing_eq, slot, default, before, here, missing⟩ :=
      proper.default_of_missing fills kept failed
    exact ⟨function_eq, missing_eq, index, e, start, slot, default, ⟨fills, unbound, known⟩, visits,
      before, here, missing⟩
  | body entered filled =>
    -- No position comes after all of them.
    cases same
    obtain ⟨-, -, slot, default, before, here, -⟩ :=
      proper.default_of_missing ⟨_, entered, filled⟩ kept failed
    exact absurd (List.getElem?_eq_some_iff.mp here).1 (Nat.not_lt_of_le before)

end ClosureCall

end Vectorial
