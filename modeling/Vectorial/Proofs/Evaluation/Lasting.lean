import Vectorial.Proofs.Evaluation.Calls

/-!
# What lasts throughout an evaluation

Evaluation adds frames, binds slots and counts. A property of the heap that none of these takes
away lasts: what holds at a moment holds at every moment inside, and when the evaluation is over,
whether it gives a value, fails or is broken off. If an assignment to some slots would take it
away, it lasts as long as no moment inside assigns to them. Defaults are no danger to a slot that
is bound, since they are put into unbound slots only.

That a slot is bound is such a property. So no slot becomes unbound.

## Main definitions

* `Run.ending`: the state that a step leaves, however it ends;
* `Moment.Sets`: the slot that an assignment binds;
* `Heap.Lasting`: properties that last while some slots are not assigned;
* `Heap.Keeps`: heaps in which everything that was bound is bound.

## Main results

* `EvalM.holds_ending_eval`, `EvalM.holds_of_visits`: such properties last;
* `EvalM.holds_ending_of_visits`: what holds when a part is over holds at the end;
* `EvalM.keeps_of_visits`, `EvalM.keeps_ending_of_visits`: bound slots stay bound.
-/

namespace Vectorial

/-- The state that a step leaves, with a result or without. -/
def Run.ending {σ α : Type} (step : Run σ α) (state : σ) : σ :=
  match step state with
  | .ok _ later => later
  | .error _ later => later

/-- Whether the expression of a moment is an assignment that binds a slot, once it has the value
to be assigned. -/
inductive Moment.Sets (evaluate : EvalM.Evaluator) : Moment → FrameId → Nat → Prop where
  | assign {site : Site} {target : Symbol} {value : Expr} {frame : FrameId} {m later : Machine}
      {v : Value} {slot : Nat} :
      evaluate value frame m = .ok v later →
      ((later.heap.layout? frame).bind fun layout => layout.slotOf target) = some slot →
      Sets evaluate ⟨.assign site target value, frame, m⟩ frame slot
  | superAssign {site : Site} {target : Symbol} {value : Expr} {frame owner : FrameId}
      {m later : Machine} {v : Value} {slot : Nat} :
      evaluate value frame m = .ok v later → later.outerSlot target frame = some (owner, slot) →
      Sets evaluate ⟨.superAssign site target value, frame, m⟩ owner slot

namespace Heap

/-- A property that changes of the heap leave alone as long as no slot that it spares is set. The
slots that it spares are bound. -/
structure Lasting (holds : Heap → Prop) (spares : FrameId → Nat → Prop) : Prop where
  of_frame_eq {heap later : Heap} : holds heap → later.frame? = heap.frame? → holds later
  allocate {heap : Heap} (frame : Frame) : holds heap → holds (heap.allocate frame).2
  set {heap later : Heap} {id : FrameId} {slot : Nat} {v : Value} :
    holds heap → ¬spares id slot → heap.set id slot v = .ok later → holds later
  not_spares {heap : Heap} {id : FrameId} {slot : Nat} :
    holds heap → heap.get id slot = none → ¬spares id slot

/-- Every frame is still there, and what was bound still is. -/
structure Keeps (heap later : Heap) : Prop where
  grows : heap.Extends later
  bound : ∀ id slot, (heap.get id slot).isSome → (later.get id slot).isSome

variable {heap later : Heap}

/-- A new frame changes none of those that have a slot bound. -/
theorem get_allocate_of_bound (frame : Frame) {id : FrameId} {slot : Nat} {v : Value}
    (bound : heap.get id slot = some v) : (heap.allocate frame).2.get id slot = some v := by
  rw [get_allocate, if_neg, bound]
  rintro rfl
  rw [get_eq, frame_eq_none_iff.mpr (Nat.le_refl _)] at bound
  cases bound

namespace Keeps

theorem refl (heap : Heap) : heap.Keeps heap :=
  ⟨.refl heap, fun _ _ => id⟩

theorem trans {last : Heap} (first : heap.Keeps later) (second : later.Keeps last) :
    heap.Keeps last :=
  ⟨first.grows.trans second.grows,
    fun id slot bound => second.bound id slot (first.bound id slot bound)⟩

/-- What is unbound later was unbound before. -/
theorem unbound (keeps : heap.Keeps later) {id : FrameId} {slot : Nat}
    (unbound : later.get id slot = none) : heap.get id slot = none := by
  rw [← Option.not_isSome_iff_eq_none] at unbound ⊢
  exact fun bound => unbound (keeps.bound id slot bound)

theorem of_frame_eq (same : later.frame? = heap.frame?) : heap.Keeps later := by
  refine ⟨extends_of_frame_eq same, fun id slot bound => ?_⟩
  rwa [get_of_frame_eq (congrFun same id)]

theorem allocate (heap : Heap) (frame : Frame) : heap.Keeps (heap.allocate frame).2 := by
  refine ⟨extends_allocate heap frame, fun id slot bound => ?_⟩
  obtain ⟨v, bound⟩ := Option.isSome_iff_exists.mp bound
  rw [get_allocate_of_bound frame bound]
  rfl

theorem set {id : FrameId} {slot : Nat} {v : Value} (done : heap.set id slot v = .ok later) :
    heap.Keeps later := by
  refine ⟨extends_set done, fun other index bound => ?_⟩
  rw [get_set done]
  split
  · rfl
  · exact bound

end Keeps

/-- Whatever is set, what was bound stays so. -/
theorem lasting_keeps (heap : Heap) : Lasting heap.Keeps fun _ _ => False where
  of_frame_eq kept same := kept.trans (.of_frame_eq same)
  allocate frame kept := kept.trans (.allocate _ frame)
  set kept _ done := kept.trans (.set done)
  not_spares _ _ := id

/-- A slot has its value until it is assigned. -/
theorem lasting_value (id : FrameId) (slot : Nat) (v : Value) :
    Lasting (fun heap => heap.get id slot = some v) fun other index =>
      other = id ∧ index = slot where
  of_frame_eq bound same := (get_of_frame_eq (congrFun same id) slot).trans bound
  allocate frame bound := get_allocate_of_bound frame bound
  set bound other done := by
    rw [get_set done, if_neg, bound]
    rintro ⟨rfl, rfl⟩
    exact other ⟨rfl, rfl⟩
  not_spares bound unbound := by
    rintro ⟨rfl, rfl⟩
    rw [bound] at unbound
    cases unbound

end Heap

/-- Binding a slot of a machine binds it in the heap. -/
theorem Machine.set_of_setSlot {m later : Machine} {frame : FrameId} {slot : Nat} {v : Value}
    (bound : m.setSlot frame slot v = .ok later) : m.heap.set frame slot v = .ok later.heap := by
  obtain ⟨heap, changed, rfl⟩ := exists_of_setSlot bound
  exact changed

theorem Layout.lt_length_of_defaultFor (layout : Layout) {index : Nat} {e : Expr}
    (known : layout.defaultFor index = some e) : index < layout.params.length := by
  refine Nat.lt_of_not_le fun past => ?_
  simp [defaultFor, List.getElem?_eq_none past] at known

namespace EvalM

variable {α β : Type} {m later : Machine}

/-! ### Endings -/

theorem ending_of_ok {step : EvalM α} {a : α} (done : step m = .ok a later) :
    Run.ending step m = later := by
  rw [Run.ending, done]

theorem ending_of_error {step : EvalM α} {stop : Stop} (failed : step m = .error stop later) :
    Run.ending step m = later := by
  rw [Run.ending, failed]

theorem bind_of_ok {step : EvalM α} {next : α → EvalM β} {a : α} (done : step m = .ok a later) :
    (step >>= next) m = next a later := by
  simp only [bind, EStateM.bind, done]

theorem ending_bind_of_ok {step : EvalM α} {next : α → EvalM β} {a : α}
    (done : step m = .ok a later) : Run.ending (step >>= next) m = Run.ending (next a) later := by
  rw [Run.ending, bind_of_ok done, Run.ending]

theorem ending_bind_of_error {step : EvalM α} {next : α → EvalM β} {stop : Stop}
    (failed : step m = .error stop later) : Run.ending (step >>= next) m = later :=
  ending_of_error (error_bind_iff.mpr (.inl failed))

theorem ending_get_bind (next : Machine → EvalM α) :
    Run.ending (MonadState.get >>= next) m = Run.ending (next m) m :=
  rfl

theorem ending_amend (change : Machine → EvalError → EvalError) (step : EvalM α) :
    Run.ending (Run.amend change step) m = Run.ending step m := by
  unfold Run.ending
  rw [Run.amend]
  cases step m with
  | ok a later => rfl
  | error stop later => cases stop <;> rfl

theorem ending_located (span : Option Span) (step : EvalM α) :
    Run.ending (Run.located span step) m = Run.ending step m := by
  cases span with
  | none => rfl
  | some span => exact ending_amend _ step

theorem ending_ofExcept {ε : Type} (stops : ε → Stop) (result : Except ε α) :
    Run.ending (Run.ofExcept stops result) m = m := by
  cases result <;> rfl

/-! ### Steps that leave the frames alone -/

theorem frame_ending_attempt (attempt : Attempt α) :
    (Run.ending (onHeap (HeapM.attempt attempt)) m).heap.frame? = m.heap.frame? := by
  rw [Run.ending, onHeap, Run.within, Discipline.attempt_eq]
  have same := m.heap.frame_record (Metered.ticks attempt)
  rcases Metered.value attempt with (_ | _) | _ <;> exact same

theorem frame_ending_operate (operation : Operation α) :
    (Run.ending (onHeap (HeapM.operate operation)) m).heap.frame? = m.heap.frame? := by
  rw [Run.ending, onHeap, Run.within, Discipline.operate_eq, Discipline.attempt_eq]
  have same := m.heap.frame_record (Metered.ticks (operation m.heap.nextStorage))
  rcases Metered.value (operation m.heap.nextStorage) with (_ | _) | _ <;> exact same

theorem frame_ending_counted (mode : Mode) (v : Value) :
    (Run.ending (counted mode v) m).heap.frame? = m.heap.frame? := by
  rw [counted]
  split
  · exact m.heap.frame_addTrace v
  · rfl

theorem heap_ending_matchKnown (site : Option Site) (callee : Callee) (formals : Formals)
    (labels : List (Option Symbol)) :
    (Run.ending (matchKnown site callee formals labels) m).heap = m.heap := by
  rw [Run.ending, matchKnown_eq site ⟨callee, formals.function, formals⟩]
  cases bound : m.bindings site ⟨callee, formals.function, formals⟩ labels with
  | error cause => rfl
  | ok result =>
    obtain ⟨cache, same⟩ := Machine.eq_of_bindings bound
    dsimp only
    rw [same]

theorem heap_ending_enter (name : Symbol) (site : Option Site) :
    (Run.ending (enter name site) m).heap = m.heap := by
  rw [Run.ending, enter_eq]
  cases m.stack.push ⟨name, site.map Site.span⟩ <;> rfl

theorem heap_ending_leave : (Run.ending leave m).heap = m.heap := by
  rw [leave, ending_get_bind]
  cases m.stack.pop <;> rfl

/-- What is inside a call leaves the frames as it does by itself. -/
theorem heap_ending_inCall {name : Symbol} {site : Option Site} (step : EvalM α)
    (entered : enter name site m = .ok () later) :
    (Run.ending (inCall name site step) m).heap = (Run.ending step later).heap := by
  -- Leaving touches the stack alone, whether it succeeds or finds a defect.
  have left (after : Machine) (next : EvalM α) (stays : ∀ m, Run.ending next m = m) :
      (Run.ending (do leave; next) after).heap = after.heap := by
    cases done : leave after with
    | ok _ last => rw [ending_bind_of_ok done, stays, ← ending_of_ok done, heap_ending_leave]
    | error stop last => rw [ending_bind_of_error done, ← ending_of_error done, heap_ending_leave]
  rw [Run.ending, inCall_eq, entered]
  dsimp only
  cases outcome : step later with
  | ok a after =>
    rw [ending_of_ok outcome]
    exact left after _ fun _ => rfl
  | error stop after =>
    rw [ending_of_error outcome]
    cases stop with
    | error e => exact left after _ fun _ => rfl
    | defect defect => rfl
    | exhausted => rfl

/-! ### Properties that last -/

section

variable {holds : Heap → Prop} {spares : FrameId → Nat → Prop}

/-- After two steps in sequence, from what holds after the first. -/
theorem holds_bind {step : EvalM α} {next : α → EvalM β} (first : holds (Run.ending step m).heap)
    (second : ∀ a later, step m = .ok a later → holds later.heap →
      holds (Run.ending (next a) later).heap) :
    holds (Run.ending (step >>= next) m).heap := by
  cases outcome : step m with
  | ok a later =>
    rw [ending_of_ok outcome] at first
    rw [ending_bind_of_ok outcome]
    exact second a later outcome first
  | error stop later =>
    rw [ending_of_error outcome] at first
    rwa [ending_bind_of_error outcome]

/-- A step inside a call, from what is so before the call and after the step by itself. -/
theorem holds_ending_inCall {name : Symbol} {site : Option Site} {step : EvalM α}
    (start : holds m.heap)
    (inside : ∀ later, enter name site m = .ok () later → later.heap = m.heap →
      holds (Run.ending step later).heap) :
    holds (Run.ending (inCall name site step) m).heap := by
  have same := heap_ending_enter (m := m) name site
  cases entered : enter name site m with
  | error stop later =>
    rw [ending_of_error entered] at same
    rw [Run.ending, inCall_eq, entered]
    exact same.symm ▸ start
  | ok _ later =>
    rw [ending_of_ok entered] at same
    rw [heap_ending_inCall step entered]
    exact inside later entered same

theorem holds_ending_bindVariable {assign : Machine → Except Defect Machine} {v : Value}
    (start : holds m.heap) (assigns : ∀ later, assign m = .ok later → holds later.heap) :
    holds (Run.ending (bindVariable assign v) m).heap := by
  rw [bindVariable, ending_get_bind]
  cases done : assign m with
  | error defect => exact start
  | ok later => exact assigns later done

variable (lasting : Heap.Lasting holds spares)
include lasting

theorem holds_of_setSlot {frame : FrameId} {slot : Nat} {v : Value} (start : holds m.heap)
    (allowed : ¬spares frame slot) (bound : m.setSlot frame slot v = .ok later) :
    holds later.heap :=
  lasting.set start allowed (Machine.set_of_setSlot bound)

theorem holds_ending_putSlot {frame : FrameId} {slot : Nat} {v : Value} (start : holds m.heap)
    (allowed : ¬spares frame slot) :
    holds (Run.ending (do
      let m ← get
      let m ← Run.ofDefect (m.setSlot frame slot v)
      set m : EvalM Unit) m).heap := by
  change holds (Run.ending (Run.ofDefect (m.setSlot frame slot v) >>= fun m => set m : EvalM Unit)
    m).heap
  cases bound : m.setSlot frame slot v with
  | error defect => exact start
  | ok later => exact holds_of_setSlot lasting start allowed bound

theorem holds_of_entered {layout : Layout} {env frame : FrameId} {actuals : Parts}
    {site : Option Site} (start : holds m.heap)
    (entered : entered layout env actuals site m = .ok frame later) : holds later.heap := by
  obtain ⟨binding, bound, matched, -, opened⟩ := entered_iff.mp entered
  obtain ⟨cache, rfl⟩ := Machine.eq_of_bindings matched
  cases opened
  exact lasting.allocate _ (lasting.of_frame_eq start rfl)

/-! ### Functions -/

section

variable {evaluate : Evaluator} {layout : Layout} {frame : FrameId}

theorem holds_ending_fillDefault {index : Nat} (start : holds m.heap)
    (default : ∀ e, m.heap.get frame index = none → layout.defaultFor index = some e →
      holds (Run.ending (evaluate e frame) m).heap) :
    holds (Run.ending (fillDefault evaluate layout frame index) m).heap := by
  rw [fillDefault, ending_get_bind]
  split
  · next unbound =>
    have unbound := Option.isNone_iff_eq_none.mp unbound
    cases known : layout.defaultFor index with
    | none => exact start
    | some e =>
      -- The slot was unbound, so that it is none of those that are spared.
      exact holds_bind (default e unbound known) fun v later _ kept =>
        holds_ending_putSlot lasting kept (lasting.not_spares start unbound)
  · exact start

/-- Some defaults, in the order of the parameters. -/
theorem holds_ending_forM_fillDefault {count : Nat} (start : holds m.heap)
    (defaults : ∀ index later e, index < count →
      (List.range index).forM (fillDefault evaluate layout frame) m = .ok () later →
      later.heap.get frame index = none → layout.defaultFor index = some e → holds later.heap →
      holds (Run.ending (evaluate e frame) later).heap) :
    holds (Run.ending ((List.range count).forM (fillDefault evaluate layout frame)) m).heap := by
  induction count with
  | zero => exact start
  | succ count ih =>
    rw [List.range_succ, forM_append]
    refine holds_bind (ih fun index later e before => defaults index later e (by omega))
      fun _ later filled kept => ?_
    refine holds_bind ?_ fun _ _ _ kept => kept
    exact holds_ending_fillDefault lasting kept fun e unbound known =>
      defaults count later e (Nat.lt_succ_self count) filled unbound known kept

variable {env : FrameId} {actuals : Parts} {site : Option Site}

/-- At the parts of a call, if it lasts through those before. -/
theorem holds_of_callPart {part : Moment} (start : holds m.heap)
    (parts : ∀ part, CallPart evaluate layout env actuals site m part → holds part.machine.heap →
      holds (Run.ending (evaluate part.expr part.frame) part.machine).heap)
    (inside : CallPart evaluate layout env actuals site m part) : holds part.machine.heap := by
  have filled {frame : FrameId} {m₁ m₂ : Machine} {count : Nat}
      (entered : entered layout env actuals site m = .ok frame m₁)
      (filled : (List.range count).forM (fillDefault evaluate layout frame) m₁ = .ok () m₂) :
      holds m₂.heap := by
    rw [← ending_of_ok filled]
    refine holds_ending_forM_fillDefault lasting (holds_of_entered lasting start entered) ?_
    exact fun index later e _ filled unbound known =>
      parts _ (.default entered filled unbound known)
  cases inside with
  | default opened done => exact filled opened done
  | body opened done => exact filled opened done

theorem holds_ending_callClosure (start : holds m.heap)
    (parts : ∀ part, CallPart evaluate layout env actuals site m part → holds part.machine.heap →
      holds (Run.ending (evaluate part.expr part.frame) part.machine).heap) :
    holds (Run.ending (callClosure evaluate layout env actuals site) m).heap := by
  rw [callClosure_eq]
  refine holds_bind ?_ fun binding m₁ matched kept => ?_
  · rwa [backtraced, ending_amend, heap_ending_matchKnown]
  refine holds_ending_inCall kept fun m₂ enters _ => ?_
  -- Once the frame is made, the defaults and then the body are parts of the call.
  obtain ⟨frame, m₃, opened⟩ :
      ∃ frame m₃, newFrame layout binding actuals env m₂ = .ok frame m₃ := ⟨_, _, rfl⟩
  have entered := entered_of_steps matched enters opened
  rw [insideClosure, ending_bind_of_ok opened]
  refine holds_bind ?_ fun _ m₄ filled _ => ?_
  · refine holds_ending_forM_fillDefault lasting (holds_of_entered lasting start entered) ?_
    exact fun index later e _ filled unbound known =>
      parts _ (.default entered filled unbound known)
  · have body := CallPart.body entered filled
    exact parts _ body (holds_of_callPart lasting start parts body)

end

theorem holds_ending_callBuiltin {context : Context} {name : Symbol} {handle : Nat}
    {actuals : Parts} {site : Option Site} (start : holds m.heap) :
    holds (Run.ending (callBuiltin context name handle actuals site) m).heap := by
  cases known : context.builtins.get handle with
  | none =>
    simp only [callBuiltin, known]
    exact start
  | some builtin =>
    rw [callBuiltin_eq known]
    refine holds_bind ?_ fun binding m₁ _ kept => ?_
    · rwa [backtraced, ending_amend, heap_ending_matchKnown]
    refine holds_ending_inCall kept fun m₂ _ same => ?_
    refine holds_bind (lasting.of_frame_eq kept ?_) fun v m₃ _ kept => ?_
    · rw [frame_ending_operate, same]
    · exact lasting.of_frame_eq kept (frame_ending_counted _ v)

theorem holds_ending_call {context : Context} {evaluate : Evaluator} {callee : Value}
    {actuals : Parts} {site : Option Site} (start : holds m.heap)
    (parts : ∀ layout env part, callee = .closure layout env →
      CallPart evaluate layout env actuals site m part → holds part.machine.heap →
      holds (Run.ending (evaluate part.expr part.frame) part.machine).heap) :
    holds (Run.ending (call context evaluate callee actuals site) m).heap := by
  unfold call
  rw [ending_located]
  cases callee with
  | null => exact start
  | vector storage metadata => exact start
  | closure layout env => exact holds_ending_callClosure lasting start (parts layout env · rfl)
  | builtin name handle => exact holds_ending_callBuiltin lasting start

/-! ### One step -/

section

variable {evaluate : Evaluator} {frame : FrameId}

omit lasting in
theorem holds_of_inOrder {es : List Expr} {part : Moment} (start : holds m.heap)
    (parts : ∀ part, InOrder evaluate frame es m part → holds part.machine.heap →
      holds (Run.ending (evaluate part.expr part.frame) part.machine).heap)
    (inside : InOrder evaluate frame es m part) : holds part.machine.heap := by
  induction inside with
  | first => exact start
  | later done _ ih =>
    have first := parts _ .first start
    rw [ending_of_ok done] at first
    exact ih first fun part later => parts part (.later done later)

omit lasting in
theorem holds_ending_evalActuals {actuals : List (Option Symbol × Expr)} (start : holds m.heap)
    (parts : ∀ part, InOrder evaluate frame (actuals.map Prod.snd) m part →
      holds part.machine.heap →
      holds (Run.ending (evaluate part.expr part.frame) part.machine).heap) :
    holds (Run.ending (evalActuals evaluate frame actuals) m).heap := by
  induction actuals generalizing m with
  | nil => exact start
  | cons actual rest ih =>
    obtain ⟨name, value⟩ := actual
    rw [evalActuals]
    refine holds_bind (parts _ .first start) fun v later done kept => ?_
    exact holds_bind (ih kept fun part inside => parts part (.later done inside))
      fun _ _ _ kept => kept

omit lasting in
theorem holds_ending_evalBlock {body : List Expr} {last : Value} (start : holds m.heap)
    (parts : ∀ part, InOrder evaluate frame body m part → holds part.machine.heap →
      holds (Run.ending (evaluate part.expr part.frame) part.machine).heap) :
    holds (Run.ending (evalBlock evaluate frame last body) m).heap := by
  induction body generalizing m last with
  | nil => exact start
  | cons e rest ih =>
    rw [evalBlock]
    refine holds_bind (parts _ .first start) fun v later done kept => ?_
    exact ih kept fun part inside => parts part (.later done inside)

theorem holds_of_bindAt {place : Option (FrameId × Nat)} {name : Symbol} {v : Value}
    (start : holds m.heap)
    (allowed : ∀ owner slot, place = some (owner, slot) → ¬spares owner slot)
    (done : m.bindAt place name v = .ok later) : holds later.heap := by
  cases place with
  | some place => exact holds_of_setSlot lasting start (allowed place.1 place.2 rfl) done
  | none =>
    cases done
    exact start

theorem holds_ending_test (site : Site) (v : Value) (start : holds m.heap) :
    holds (Run.ending (test site v) m).heap := by
  rw [test, ending_located]
  exact lasting.of_frame_eq start (frame_ending_attempt _)

/-- After a condition has been tested, from what is so after the condition. -/
theorem holds_of_test {site : Site} {condition : Expr} {m₁ m₂ : Machine} {v : Value} {truth : Bool}
    (done : evaluate condition frame m = .ok v m₁) (tested : test site v m₁ = .ok truth m₂)
    (kept : holds (Run.ending (evaluate condition frame) m).heap) : holds m₂.heap := by
  rw [ending_of_ok done] at kept
  rw [← ending_of_ok tested]
  exact holds_ending_test lasting site v kept

theorem holds_ending_binary (mode : Mode) (site : Site) (op : BinaryOp) (l r : Value)
    (start : holds m.heap) :
    holds (Run.ending (do
      let value ← Run.located (some site.span) (onHeap (HeapM.attempt (Value.binary op l r)))
      counted mode value : EvalM Value) m).heap := by
  refine holds_bind ?_ fun v later _ kept => ?_
  · rw [ending_located]
    exact lasting.of_frame_eq start (frame_ending_attempt _)
  · exact lasting.of_frame_eq kept (frame_ending_counted mode v)

/-- At the parts of a moment, if it lasts through those before. -/
theorem holds_of_part {outer part : Moment} (start : holds outer.machine.heap)
    (parts : ∀ part, Part evaluate outer part → holds part.machine.heap →
      holds (Run.ending (evaluate part.expr part.frame) part.machine).heap)
    (inside : Part evaluate outer part) : holds part.machine.heap := by
  -- By what was evaluated before the part: other parts, a test, or the callee and the actuals.
  cases inside with
  | strict inOrder =>
    exact holds_of_inOrder start (fun part inOrder => parts part (.strict inOrder)) inOrder
  | thenBranch done tested =>
    exact holds_of_test lasting done tested (parts _ (.strict .first) start)
  | elseBranch done tested =>
    exact holds_of_test lasting done tested (parts _ (.strict .first) start)
  | call called given callPart =>
    have kept := parts _ (.strict .first) start
    rw [ending_of_ok called] at kept
    replace kept := holds_ending_evalActuals kept fun part inOrder =>
      parts part (.strict (.later called inOrder))
    rw [ending_of_ok given] at kept
    exact holds_of_callPart lasting kept
      (fun part inside => parts part (.call called given inside)) callPart

/-- After one step of evaluation, if it lasts through the parts and the step assigns to no slot that
is spared. -/
theorem holds_ending_step {context : Context} (moment : Moment)
    (start : holds moment.machine.heap)
    (parts : ∀ part, Part evaluate moment part → holds part.machine.heap →
      holds (Run.ending (evaluate part.expr part.frame) part.machine).heap)
    (allowed : ∀ id slot, moment.Sets evaluate id slot → ¬spares id slot) :
    holds (Run.ending (step context evaluate moment.expr moment.frame) moment.machine).heap := by
  obtain ⟨e, frame, m⟩ := moment
  have strict (part : Moment) (inOrder : InOrder evaluate frame e.strict m part) :=
    parts part (.strict inOrder)
  have reached (part : Moment) (inside : Part evaluate ⟨e, frame, m⟩ part) :=
    parts part inside (holds_of_part lasting start parts inside)
  -- One case for each form of expression; only assignments and calls do more than their parts.
  cases e with
  | literal site value => exact start
  | ident site name =>
    change holds (Run.ending (Run.located (some site.span) (readVariable name frame)) m).heap
    rw [ending_located, readVariable, ending_get_bind, Run.ofCause, ending_ofExcept]
    exact start
  | assign site target value =>
    refine holds_bind (reached _ (.strict .first)) fun v later done kept => ?_
    refine holds_ending_bindVariable kept fun last =>
      holds_of_bindAt lasting kept fun owner slot found => ?_
    obtain ⟨_, named, ⟨⟩⟩ := Option.map_eq_some_iff.mp found
    exact allowed frame slot (.assign done named)
  | superAssign site target value =>
    refine holds_bind (reached _ (.strict .first)) fun v later done kept => ?_
    refine holds_ending_bindVariable kept fun last =>
      holds_of_bindAt lasting kept fun owner slot named => ?_
    exact allowed owner slot (.superAssign done named)
  | function site params body =>
    dsimp only
    cases known : context.program.layout? site.id with
    | some layout =>
      rw [step_function_of_some evaluate params body frame known]
      exact start
    | none =>
      rw [step_function_of_none evaluate params body frame known, ending_located]
      exact start
  | call site callee actuals =>
    refine holds_bind (reached _ (.strict .first)) fun v m₁ called kept => ?_
    refine holds_bind (holds_ending_evalActuals kept fun part inOrder =>
      strict part (.later called inOrder)) fun given m₂ done kept => ?_
    refine holds_ending_call lasting kept ?_
    rintro layout env part rfl callPart
    exact parts part (.call called done callPart)
  | binary site op left right =>
    refine holds_bind (reached _ (.strict .first)) fun l m₁ done _ => ?_
    refine holds_bind (reached _ (.strict (.later done .first))) fun r m₂ _ kept => ?_
    exact holds_ending_binary lasting context.mode site op l r kept
  | branch site condition thenBranch elseBranch =>
    refine holds_bind (reached _ (.strict .first)) fun v m₁ done kept => ?_
    refine holds_bind (holds_ending_test lasting site v kept) fun truth m₂ tested kept => ?_
    cases truth with
    | true => exact reached _ (.thenBranch done tested)
    | false =>
      cases elseBranch with
      | some elseBranch => exact reached _ (.elseBranch done tested)
      | none => exact kept
  | block site body => exact holds_ending_evalBlock start strict

end

/-! ### Evaluation -/

variable {context : Context} {depth : Nat}

/-- It lasts throughout an evaluation in which no moment assigns to a slot that is spared. -/
theorem holds_ending_eval {moment : Moment} (start : holds moment.machine.heap)
    (quiet : ∀ reached inner, Visits context depth moment reached →
      ∀ id slot, reached.Sets (eval context inner) id slot → ¬spares id slot) :
    holds (Run.ending (eval context depth moment.expr moment.frame) moment.machine).heap := by
  induction depth generalizing moment with
  | zero => exact start
  | succ depth ih =>
    refine holds_ending_step lasting moment start (fun part inside kept => ?_)
      (quiet moment depth .here)
    exact ih kept fun reached inner visits => quiet reached inner (.inside inside visits)

/-- So it holds at every moment inside. -/
theorem holds_of_visits {outer moment : Moment} (start : holds outer.machine.heap)
    (quiet : ∀ reached inner, Visits context depth outer reached →
      ∀ id slot, reached.Sets (eval context inner) id slot → ¬spares id slot)
    (visits : Visits context depth outer moment) : holds moment.machine.heap := by
  induction visits with
  | here => exact start
  | inside inside _ ih =>
    refine ih ?_ fun reached inner visits => quiet reached inner (.inside inside visits)
    exact holds_of_part lasting start (fun part inside kept => holds_ending_eval lasting kept
      fun reached inner visits => quiet reached inner (.inside inside visits)) inside

end

/-! ### From a part to the end -/

section

variable {holds : Heap → Prop} {evaluate : Evaluator}
variable (lasting : Heap.Lasting holds fun _ _ => False)
variable (always : ∀ e frame m, holds m.heap → holds (Run.ending (evaluate e frame) m).heap)
include always

theorem holds_ending_evalActuals_of_inOrder {frame : FrameId}
    {actuals : List (Option Symbol × Expr)} {part : Moment}
    (inside : InOrder evaluate frame (actuals.map Prod.snd) m part)
    (kept : holds (Run.ending (evaluate part.expr part.frame) part.machine).heap) :
    holds (Run.ending (evalActuals evaluate frame actuals) m).heap := by
  induction actuals generalizing m with
  | nil => cases inside
  | cons actual rest ih =>
    obtain ⟨name, value⟩ := actual
    rw [evalActuals]
    cases inside with
    | first =>
      refine holds_bind kept fun v later _ kept => holds_bind ?_ fun _ _ _ kept => kept
      exact holds_ending_evalActuals kept fun part _ => always _ _ _
    | later done inside =>
      rw [ending_bind_of_ok done]
      exact holds_bind (ih inside) fun _ _ _ kept => kept

theorem holds_ending_evalBlock_of_inOrder {frame : FrameId} {body : List Expr} {last : Value}
    {part : Moment} (inside : InOrder evaluate frame body m part)
    (kept : holds (Run.ending (evaluate part.expr part.frame) part.machine).heap) :
    holds (Run.ending (evalBlock evaluate frame last body) m).heap := by
  induction body generalizing m last with
  | nil => cases inside
  | cons e rest ih =>
    rw [evalBlock]
    cases inside with
    | first =>
      exact holds_bind kept fun v later _ kept =>
        holds_ending_evalBlock kept fun part _ => always _ _ _
    | later done inside =>
      rw [ending_bind_of_ok done]
      exact ih inside

include lasting

theorem holds_ending_forM_fillDefault_of_start {layout : Layout} {frame : FrameId}
    (indices : List Nat) (start : holds m.heap) :
    holds (Run.ending (indices.forM (fillDefault evaluate layout frame)) m).heap := by
  induction indices generalizing m with
  | nil => exact start
  | cons index rest ih =>
    change holds (Run.ending (do
      fillDefault evaluate layout frame index
      rest.forM (fillDefault evaluate layout frame)) m).heap
    refine holds_bind ?_ fun _ later _ kept => ih kept
    exact holds_ending_fillDefault lasting start fun e _ _ => always e frame m start

/-- After a default its value is put into the frame, and the others are filled in. -/
theorem holds_ending_forM_fillDefault_of_default {layout : Layout} {frame : FrameId}
    {index count : Nat} {e : Expr}
    (filled : (List.range index).forM (fillDefault evaluate layout frame) m = .ok () later)
    (unbound : later.heap.get frame index = none) (known : layout.defaultFor index = some e)
    (kept : holds (Run.ending (evaluate e frame) later).heap) (before : index < count) :
    holds (Run.ending ((List.range count).forM (fillDefault evaluate layout frame)) m).heap := by
  obtain ⟨rest, split⟩ : ∃ rest, List.range count = List.range index ++ index :: rest := by
    obtain ⟨rest, total⟩ := Nat.exists_eq_add_of_lt before
    refine ⟨(List.range rest).map (index + 1 + ·), ?_⟩
    rw [total, Nat.add_right_comm, List.range_add, List.range_succ, List.append_assoc]
    rfl
  -- What comes before the default is done, and what comes after it takes nothing away.
  rw [split, forM_append, ending_bind_of_ok filled]
  change holds (Run.ending (do
    fillDefault evaluate layout frame index
    rest.forM (fillDefault evaluate layout frame)) later).heap
  refine holds_bind ?_ fun _ last _ kept =>
    holds_ending_forM_fillDefault_of_start lasting always rest kept
  rw [fillDefault, ending_get_bind, unbound, if_pos Option.isNone_none, known]
  exact holds_bind kept fun v last _ kept => holds_ending_putSlot lasting kept id

theorem holds_ending_callClosure_of_callPart {layout : Layout} {env : FrameId} {actuals : Parts}
    {site : Option Site} {part : Moment}
    (inside : CallPart evaluate layout env actuals site m part)
    (kept : holds (Run.ending (evaluate part.expr part.frame) part.machine).heap) :
    holds (Run.ending (callClosure evaluate layout env actuals site) m).heap := by
  have entering {frame : FrameId} {m₁ : Machine}
      (opened : entered layout env actuals site m = .ok frame m₁)
      (kept : holds (Run.ending (do
        fillDefaults evaluate layout frame
        evaluate layout.body frame) m₁).heap) :
      holds (Run.ending (callClosure evaluate layout env actuals site) m).heap := by
    -- Leaving the call at the end, with a result or without, changes no frame.
    obtain ⟨binding, bound, matched, opened⟩ := ok_of_bind opened
    obtain ⟨⟨⟩, within, enters, opened⟩ := ok_of_bind opened
    rw [callClosure_eq, ending_bind_of_ok matched, heap_ending_inCall _ enters, insideClosure,
      ending_bind_of_ok opened]
    exact kept
  cases inside with
  | default opened filled unbound known =>
    refine entering opened (holds_bind ?_ fun _ later _ kept => always _ _ _ kept)
    exact holds_ending_forM_fillDefault_of_default lasting always filled unbound known kept
      (layout.lt_length_of_defaultFor known)
  | body opened filled =>
    refine entering opened ?_
    rwa [ending_bind_of_ok filled]

/-- What holds when a part is over holds when the step is. -/
theorem holds_ending_step_of_part {context : Context} {outer part : Moment}
    (inside : Part evaluate outer part)
    (kept : holds (Run.ending (evaluate part.expr part.frame) part.machine).heap) :
    holds (Run.ending (step context evaluate outer.expr outer.frame) outer.machine).heap := by
  cases inside with
  | @strict e frame m part inOrder =>
    -- What follows a part in its expression begins with a heap in which it holds.
    cases e with
    | literal site value => cases inOrder
    | ident site name => cases inOrder
    | assign site target value =>
      cases inOrder with
      | first =>
        refine holds_bind kept fun v later _ kept => holds_ending_bindVariable kept fun last => ?_
        exact holds_of_bindAt lasting kept fun _ _ _ => id
      | later _ inOrder => cases inOrder
    | superAssign site target value =>
      cases inOrder with
      | first =>
        refine holds_bind kept fun v later _ kept => holds_ending_bindVariable kept fun last => ?_
        exact holds_of_bindAt lasting kept fun _ _ _ => id
      | later _ inOrder => cases inOrder
    | function site params body => cases inOrder
    | call site callee actuals =>
      have calling {v : Value} {given : Parts} {m : Machine} (kept : holds m.heap) :
          holds (Run.ending (call context evaluate v given (some site)) m).heap :=
        holds_ending_call lasting kept fun _ _ _ _ _ kept => always _ _ _ kept
      cases inOrder with
      | first =>
        refine holds_bind kept fun v m₁ _ kept => holds_bind ?_ fun given m₂ _ kept => calling kept
        exact holds_ending_evalActuals kept fun part _ => always _ _ _
      | later called inOrder =>
        rw [step, ending_bind_of_ok called]
        refine holds_bind ?_ fun given m₂ _ kept => calling kept
        exact holds_ending_evalActuals_of_inOrder always inOrder kept
    | binary site op left right =>
      cases inOrder with
      | first =>
        refine holds_bind kept fun l m₁ _ kept =>
          holds_bind (always _ _ _ kept) fun r m₂ _ kept => ?_
        exact holds_ending_binary lasting context.mode site op l r kept
      | later done inOrder =>
        cases inOrder with
        | first =>
          rw [step, ending_bind_of_ok done]
          exact holds_bind kept fun r m₂ _ kept =>
            holds_ending_binary lasting context.mode site op _ r kept
        | later _ inOrder => cases inOrder
    | branch site condition thenBranch elseBranch =>
      cases inOrder with
      | first =>
        refine holds_bind kept fun v m₁ _ kept => ?_
        refine holds_bind (holds_ending_test lasting site v kept) fun truth m₂ _ kept => ?_
        cases truth with
        | true => exact always _ _ _ kept
        | false =>
          cases elseBranch with
          | some elseBranch => exact always _ _ _ kept
          | none => exact kept
      | later _ inOrder => cases inOrder
    | block site body => exact holds_ending_evalBlock_of_inOrder always inOrder kept
  | @thenBranch site condition thenBranch elseBranch frame m m₁ m₂ v done tested =>
    change holds (Run.ending (evaluate condition frame >>= _) m).heap
    rw [ending_bind_of_ok done]
    change holds (Run.ending (test site v >>= _) m₁).heap
    rw [ending_bind_of_ok tested]
    exact kept
  | @elseBranch site condition thenBranch elseBranch frame m m₁ m₂ v done tested =>
    change holds (Run.ending (evaluate condition frame >>= _) m).heap
    rw [ending_bind_of_ok done]
    change holds (Run.ending (test site v >>= _) m₁).heap
    rw [ending_bind_of_ok tested]
    exact kept
  | call called given callPart =>
    change holds (Run.ending (evaluate _ _ >>= _) _).heap
    rw [ending_bind_of_ok called, ending_bind_of_ok given]
    unfold call
    rw [ending_located]
    exact holds_ending_callClosure_of_callPart lasting always callPart kept

omit always in
/-- What no assignment takes away holds after an evaluation if it holds before. -/
theorem holds_ending_eval_of_start (context : Context) (depth : Nat) (e : Expr) (frame : FrameId)
    (m : Machine) (start : holds m.heap) :
    holds (Run.ending (eval context depth e frame) m).heap := by
  let moment : Moment := ⟨e, frame, m⟩
  have start : holds moment.machine.heap := start
  exact holds_ending_eval lasting start fun _ _ _ _ _ _ => id

omit always in
/-- What holds when a moment inside an evaluation is over holds at the end of the evaluation. -/
theorem holds_ending_of_visits {context : Context} {depth : Nat} {outer moment : Moment}
    (visits : Visits context depth outer moment) (kept : holds moment.machine.heap) :
    holds (Run.ending (eval context depth outer.expr outer.frame) outer.machine).heap := by
  have always := holds_ending_eval_of_start lasting context
  induction visits with
  | here => exact always _ _ _ _ kept
  | inside inside _ ih => exact holds_ending_step_of_part lasting (always _) inside (ih kept)

end

/-! ### Bound slots -/

variable {context : Context} {depth : Nat} {outer moment : Moment}

/-- What is bound at the beginning of an evaluation is bound at every moment inside. -/
theorem keeps_of_visits (visits : Visits context depth outer moment) :
    outer.machine.heap.Keeps moment.machine.heap :=
  holds_of_visits (Heap.lasting_keeps _) (.refl _) (fun _ _ _ _ _ _ => id) visits

/-- What is bound at a moment inside an evaluation is bound at its end. -/
theorem keeps_ending_of_visits (visits : Visits context depth outer moment) :
    moment.machine.heap.Keeps
      (Run.ending (eval context depth outer.expr outer.frame) outer.machine).heap :=
  holds_ending_of_visits (Heap.lasting_keeps _) visits (.refl _)

end EvalM

end Vectorial
