import Vectorial.Proofs.Builtin.Safety
import Vectorial.Proofs.Evaluation.Calls
import Vectorial.Proofs.Evaluation.OuterAssignment

/-!
# Evaluation violates no precondition

A machine whose variables have well-formed values is led by every step to such a machine,
and what the step delivers is well formed. No step on the way finds a precondition violated:
the slots that are bound are slots of their frames, the calls that are left have been
entered, and operators and builtins are safe on well-formed values.

Which slots a frame has and where addresses lead is known from the discipline that the
machine keeps; this is an invariant of its own.

## Main definitions

* `Machine.WellFormed`: machines whose variables have well-formed values;
* `EvalM.Safe`: a step that ends safely in such a machine;
* `Discipline.LeadsToSlots`: disciplines under which every assignment has its slot;
* `Discipline.Secures`: evaluators that are safe wherever the discipline lets them be used;
* `Discipline.Trusts`: what is needed of an evaluator to evaluate with its help.

## Main results

* `Discipline.trusts_eval`: evaluation is safe to any depth;
* `Discipline.safe_call`: so is a call from outside;
* `Discipline.mirroring_leadsToSlots`: nested frames have a slot for every assignment.
-/

namespace Vectorial

variable {α β : Type} {own : FrameId → Prop} {m later : Machine}

/-! ### Machines -/

/-- Whether the values in the slots of some frames and in the global variables are well
formed. -/
structure Machine.WellFormed (own : FrameId → Prop) (m : Machine) : Prop where
  slots : ∀ id slot v, own id → m.heap.get id slot = some v → v.WellFormed
  globals : ∀ entry ∈ m.globals, entry.2.WellFormed

namespace Machine.WellFormed

theorem of_hasVariable (sound : m.WellFormed own) {v : Value} (held : m.HasVariable own v) :
    v.WellFormed := by
  cases held with
  | slot inside bound => exact sound.slots _ _ v inside bound
  | global listed => exact sound.globals _ listed

theorem of_frame_eq (sound : m.WellFormed own) {heap : Heap} (same : heap.frame? = m.heap.frame?) :
    Machine.WellFormed own { m with heap } := by
  refine ⟨fun id slot v inside bound => sound.slots id slot v inside ?_, sound.globals⟩
  rw [Heap.get_eq, ← same, ← Heap.get_eq]
  exact bound

theorem setSlot (sound : m.WellFormed own) {frame : FrameId} {slot : Nat} {v : Value}
    (well : v.WellFormed) (bound : m.setSlot frame slot v = .ok later) : later.WellFormed own := by
  obtain ⟨heap, changed, rfl⟩ := Machine.exists_of_setSlot bound
  refine ⟨fun id index w inside read => ?_, sound.globals⟩
  rw [Heap.get_set changed] at read
  split at read
  · cases read
    exact well
  · exact sound.slots id index w inside read

theorem setGlobal (sound : m.WellFormed own) (name : Symbol) {v : Value} (well : v.WellFormed) :
    (m.setGlobal name v).WellFormed own := by
  refine ⟨sound.slots, fun entry member => ?_⟩
  rcases mem_setEntry member with rfl | old
  · exact well
  · exact sound.globals entry old

theorem bindAt (sound : m.WellFormed own) {place : Option (FrameId × Nat)} {name : Symbol}
    {v : Value} (well : v.WellFormed) (done : m.bindAt place name v = .ok later) :
    later.WellFormed own := by
  cases place with
  | some place => exact sound.setSlot well done
  | none =>
    cases done
    exact sound.setGlobal name well

end Machine.WellFormed

/-- What the slots of a new frame are bound to is well formed if the actuals are. -/
theorem Frame.wellFormed_ofCall {layout : Layout} {binding : Binding} {actuals : Parts}
    {storage : StorageId} {env : FrameId} (given : actuals.WellFormed) {slot : Nat} {v : Value}
    (bound : (Frame.ofCall layout binding actuals storage env).slots[slot]?.join = some v) :
    v.WellFormed := by
  have member := List.mem_of_getElem? (Option.join_eq_some_iff.mp bound)
  rcases List.mem_append.mp member with initial | rest
  · obtain ⟨index, -, initial⟩ := List.mem_map.mp initial
    rw [Frame.initialSlot] at initial
    split at initial
    · cases initial
      refine Value.wellFormed_ofParts storage fun part listed => ?_
      obtain ⟨position, -, found⟩ := List.mem_filterMap.mp listed
      exact given part (List.mem_of_getElem? found)
    · obtain ⟨actual, -, known⟩ := Option.bind_eq_some_iff.mp initial
      obtain ⟨part, found, rfl⟩ := Option.map_eq_some_iff.mp known
      exact given part (List.mem_of_getElem? found)
  · cases List.eq_of_mem_replicate rest

/-! ### Steps -/

namespace EvalM

/-- From `m` the step ends safely, in a machine whose variables have well-formed values. -/
def Safe (own : FrameId → Prop) (step : EvalM α) (m : Machine) (Q : α → Prop) : Prop :=
  match step m with
  | .ok a later => later.WellFormed own ∧ Q a
  | .error stop later => later.WellFormed own ∧ stop.IsHarmless

namespace Safe

variable {step : EvalM α} {Q : α → Prop} {R : β → Prop}

theorem pure (sound : m.WellFormed own) {a : α} (holds : Q a) : Safe own (Pure.pure a) m Q :=
  ⟨sound, holds⟩

theorem stop (sound : m.WellFormed own) {stop : Stop} (harmless : stop.IsHarmless) :
    Safe own (throw stop : EvalM α) m Q :=
  ⟨sound, harmless⟩

theorem fail (sound : m.WellFormed own) (cause : Cause) :
    Safe own (Run.fail cause : EvalM α) m Q :=
  .stop sound .intro

/-- The second step starts where the first one ends. -/
theorem bind {next : α → EvalM β} (first : Safe own step m Q)
    (second : ∀ a later, step m = .ok a later → later.WellFormed own → Q a →
      Safe own (next a) later R) : Safe own (step >>= next) m R := by
  unfold Safe at first ⊢
  change (match EStateM.bind step next m with | .ok _ _ => _ | .error _ _ => _)
  rw [EStateM.bind]
  cases outcome : step m with
  | error stop later =>
    rw [outcome] at first
    exact first
  | ok a later =>
    rw [outcome] at first
    exact second a later outcome first.1 first.2

theorem get {next : Machine → EvalM α} (safe : Safe own (next m) m Q) :
    Safe own (MonadState.get >>= next) m Q :=
  safe

theorem amend {change : Machine → EvalError → EvalError} (safe : Safe own step m Q) :
    Safe own (Run.amend change step) m Q := by
  unfold Safe at safe ⊢
  rw [Run.amend]
  cases outcome : step m with
  | ok a later => simpa only [outcome] using safe
  | error stop later =>
    rw [outcome] at safe
    cases stop <;> exact safe

theorem located {span : Option Span} (safe : Safe own step m Q) :
    Safe own (Run.located span step) m Q := by
  cases span with
  | none => exact safe
  | some span => exact safe.amend

theorem ofCause (sound : m.WellFormed own) {result : Except Cause α}
    (holds : ∀ a, result = .ok a → Q a) : Safe own (Run.ofCause result) m Q := by
  cases result with
  | ok a => exact .pure sound (holds a rfl)
  | error cause => exact .fail sound cause

/-! ### Work on the heap -/

/-- An attempt that is safe is a safe step. -/
theorem attempt (sound : m.WellFormed own) {attempt : Attempt α} (safe : attempt.IsSafe Q) :
    Safe own (onHeap (HeapM.attempt attempt)) m Q := by
  rw [Safe, onHeap, Run.within, Discipline.attempt_eq]
  have stays := sound.of_frame_eq (m.heap.frame_record (Metered.ticks attempt))
  obtain ⟨value, ticks⟩ := attempt
  rcases value with (cause | violated) | a
  · exact ⟨stays, .intro⟩
  · exact ⟨stays, safe⟩
  · exact ⟨stays, safe⟩

/-- So is an operation that is. -/
theorem operate (sound : m.WellFormed own) {operation : Operation α} (safe : operation.IsSafe Q) :
    Safe own (onHeap (HeapM.operate operation)) m Q := by
  rw [Safe, onHeap, Run.within, Discipline.operate_eq, Discipline.attempt_eq]
  have safe_here := safe m.heap.nextStorage
  have stays := m.heap.frame_record (Metered.ticks (operation m.heap.nextStorage))
  generalize operation m.heap.nextStorage = attempt at safe_here stays
  obtain ⟨value, ticks⟩ := attempt
  rcases value with (cause | violated) | ⟨a, next⟩
  · exact ⟨sound.of_frame_eq stays, .intro⟩
  · exact ⟨sound.of_frame_eq stays, safe_here⟩
  · exact ⟨sound.of_frame_eq stays, safe_here⟩

theorem counted (sound : m.WellFormed own) (mode : Mode) {v : Value} (well : v.WellFormed) :
    Safe own (counted mode v) m Value.WellFormed := by
  rw [EvalM.counted]
  split
  · exact ⟨sound.of_frame_eq (m.heap.frame_addTrace v), well.addTrace m.heap⟩
  · exact .pure sound well

/-! ### Inside a call -/

theorem matchKnown (sound : m.WellFormed own) (site : Option Site) (f : Callable)
    (labels : List (Option Symbol)) :
    Safe own (matchKnown site f.key f.formals labels) m fun _ => True := by
  rw [Safe, matchKnown_eq]
  cases bound : m.bindings site f labels with
  | error cause => exact ⟨sound, .intro⟩
  | ok result =>
    obtain ⟨binding, later⟩ := result
    obtain ⟨cache, rfl⟩ := Machine.eq_of_bindings bound
    exact ⟨⟨sound.slots, sound.globals⟩, .intro⟩

/-- A call that is entered can be left, as everything inside leaves the stack as it was. -/
theorem inCall (sound : m.WellFormed own) (balanced : Balanced step) (name : Symbol)
    (site : Option Site)
    (inside : ∀ later, later.heap = m.heap → later.globals = m.globals → later.cache = m.cache →
      later.WellFormed own → Safe own step later Q) : Safe own (inCall name site step) m Q := by
  rw [Safe, inCall_of_balanced balanced]
  by_cases full : m.stack.isFull
  · rw [if_pos full]
    exact ⟨sound, .intro⟩
  · rw [if_neg full]
    -- Inside the call only the stack is different, of which a well-formed machine asks nothing.
    have safe := inside (m.within ⟨name, site.map Site.span⟩) rfl rfl rfl
      ⟨sound.slots, sound.globals⟩
    rw [Safe] at safe
    cases outcome : step (m.within ⟨name, site.map Site.span⟩) with
    | ok a later =>
      rw [outcome] at safe
      exact ⟨⟨safe.1.slots, safe.1.globals⟩, safe.2⟩
    | error stop later =>
      rw [outcome] at safe
      cases stop <;> exact ⟨⟨safe.1.slots, safe.1.globals⟩, safe.2⟩

end Safe

theorem wellFormed_literalValue (value : Literal) : (literalValue value).WellFormed := by
  cases value with
  | null => exact .null
  | _ => exact Value.wellFormed_ofAtoms _ _

end EvalM

namespace Discipline

open EvalM

variable {context : Context} {base : FrameId} {D : Discipline context base}

/-! ### Slots -/

/-- Whether the frame that an assignment outward leads to has the slot. -/
def LeadsToSlots (D : Discipline context base) : Prop :=
  ∀ (m : Machine) name frame owner slot, m.Fits D → D.Own frame →
    m.outerSlot name frame = some (owner, slot) → slot < (m.heap.slots owner).length

/-- A frame has as many slots as its function has local names. -/
theorem length_slots (fits : m.Fits D) {id : FrameId} (inside : D.Own id) {layout : Layout}
    (known : m.heap.layout? id = some layout) : (m.heap.slots id).length = layout.frameSize := by
  obtain ⟨frame, found, rfl⟩ := Option.map_eq_some_iff.mp known
  rw [Heap.slots, found]
  exact (fits.frames id frame inside found).sized

/-- It has those of its local names. -/
theorem lt_length_of_slotOf (fits : m.Fits D) {id : FrameId} (inside : D.Own id) {layout : Layout}
    (known : m.heap.layout? id = some layout) {name : Symbol} {slot : Nat}
    (named : layout.slotOf name = some slot) : slot < (m.heap.slots id).length := by
  rw [length_slots fits inside known]
  exact Layout.slotOf_lt named

/-- The first ones are those of the parameters. -/
theorem lt_length_of_parameter (fits : m.Fits D) {id : FrameId} (inside : D.Own id)
    {layout : Layout} (known : m.heap.layout? id = some layout) {index : Nat}
    (declared : index < layout.params.length) : index < (m.heap.slots id).length := by
  rw [length_slots fits inside known]
  exact Nat.lt_of_lt_of_le declared layout.length_params_le

/-- A slot that the frame has can be bound. -/
theorem exists_setSlot {id : FrameId} {slot : Nat} (room : slot < (m.heap.slots id).length)
    (v : Value) : ∃ later, m.setSlot id slot v = .ok later :=
  ⟨_, congrArg (Except.map _) (if_pos room)⟩

/-- A variable can be bound if its place is a slot that the frame has. -/
theorem exists_bindAt {place : Option (FrameId × Nat)}
    (room : ∀ owner slot, place = some (owner, slot) → slot < (m.heap.slots owner).length)
    (name : Symbol) (v : Value) : ∃ later, m.bindAt place name v = .ok later := by
  cases place with
  | some place => exact exists_setSlot (room place.1 place.2 rfl) v
  | none => exact ⟨_, rfl⟩

theorem lt_length_of_localSlot (fits : m.Fits D) {frame : FrameId} (inside : D.Own frame)
    (name : Symbol) (owner : FrameId) (slot : Nat)
    (found : m.localSlot name frame = some (owner, slot)) :
    slot < (m.heap.slots owner).length := by
  obtain ⟨_, named, ⟨⟩⟩ := Option.map_eq_some_iff.mp found
  obtain ⟨layout, known, named⟩ := Option.bind_eq_some_iff.mp named
  exact lt_length_of_slotOf fits inside known named

theorem safe_bindVariable {v : Value} {assign : Machine → Except Defect Machine}
    (well : v.WellFormed) (succeeds : ∃ later, assign m = .ok later)
    (keeps : ∀ later, assign m = .ok later → later.WellFormed own) :
    Safe own (bindVariable assign v) m Value.WellFormed := by
  obtain ⟨later, done⟩ := succeeds
  have bound : bindVariable assign v m = .ok v later := by
    change (do let m ← Run.ofDefect (assign m); set m; pure v : EvalM Value) m = _
    rw [done]
    rfl
  rw [Safe, bound]
  exact ⟨keeps later done, well⟩

/-! ### Calls -/

/-- Evaluators that are safe wherever the discipline lets them be used. -/
def Secures (D : Discipline context base) (evaluate : Evaluator) : Prop :=
  ∀ e frame m, m.Fits D → D.places m.heap e frame → m.WellFormed D.Own →
    Safe D.Own (evaluate e frame) m Value.WellFormed

/-- What is needed of an evaluator to evaluate with its help. -/
structure Trusts (D : Discipline context base) (evaluate : Evaluator) : Prop where
  sound : D.Sound evaluate
  balanced : ∀ e frame, Balanced (evaluate e frame)
  secures : D.Secures evaluate

variable {evaluate : Evaluator}

/-- What comes after an expression is evaluated where the discipline lets it be used. -/
theorem Trusts.bind (trusts : D.Trusts evaluate) (fits : m.Fits D) {e : Expr} {frame : FrameId}
    (placed : D.places m.heap e frame) (sound : m.WellFormed D.Own) {next : Value → EvalM β}
    {R : β → Prop} (rest : ∀ v later, D.Follows m later → D.Admits later.heap v →
      later.WellFormed D.Own → v.WellFormed → Safe D.Own (next v) later R) :
    Safe D.Own (evaluate e frame >>= next) m R :=
  (trusts.secures e frame m fits placed sound).bind fun v later done sound well =>
    have ⟨follows, admitted⟩ := (trusts.sound e frame m fits placed).ok done
    rest v later follows admitted sound well

/-- The frame of a call is one of those that may be reached, and is of the function called. -/
theorem newFrame_spec {layout : Layout} {binding : Binding} {actuals : Parts} {env frame : FrameId}
    (fits : m.Fits D) (done : newFrame layout binding actuals env m = .ok frame later) :
    D.Own frame ∧ later.heap.layout? frame = some layout := by
  cases done
  refine ⟨.inl (Nat.le_of_lt fits.begun), ?_⟩
  exact Heap.layout_of_frame ((Heap.frame_allocate _ _ _).trans (if_pos rfl))

theorem safe_newFrame {layout : Layout} {binding : Binding} {actuals : Parts} {env : FrameId}
    (sound : m.WellFormed own) (given : actuals.WellFormed) :
    Safe own (newFrame layout binding actuals env) m fun _ => True := by
  refine ⟨⟨fun id slot v inside bound => ?_, sound.globals⟩, .intro⟩
  replace bound : (m.heap.newStorage.2.allocate _).2.get id slot = some v := bound
  rw [Heap.get_allocate] at bound
  split at bound
  · exact Frame.wellFormed_ofCall given bound
  · exact sound.slots id slot v inside bound

theorem safe_fillDefault (trusts : D.Trusts evaluate) (fits : m.Fits D) {layout : Layout}
    {frame : FrameId} (inside : D.Own frame) (known : m.heap.layout? frame = some layout)
    (home : ∀ e ∈ ownText layout.params layout.body, D.places m.heap e frame)
    (sound : m.WellFormed D.Own) {index : Nat} (declared : index < layout.params.length) :
    Safe D.Own (fillDefault evaluate layout frame index) m fun _ => True := by
  rw [fillDefault]
  refine .get ?_
  split
  · split
    · exact .pure sound .intro
    · next default given =>
      have placed := home default (mem_ownText_of_default given)
      refine trusts.bind fits placed sound fun v later follows _ sound well => ?_
      -- The default may have changed much, but not the layout of the frame nor its number of slots.
      have room := lt_length_of_parameter follows.fits inside (follows.grows.layout known) declared
      obtain ⟨last, bound⟩ := exists_setSlot room v
      refine .get ?_
      rw [bound]
      exact ⟨sound.setSlot well bound, .intro⟩
  · exact .pure sound .intro

theorem safe_fillDefaults (trusts : D.Trusts evaluate) (fits : m.Fits D) {layout : Layout}
    {frame : FrameId} (inside : D.Own frame) (known : m.heap.layout? frame = some layout)
    (home : ∀ e ∈ ownText layout.params layout.body, D.places m.heap e frame)
    (sound : m.WellFormed D.Own) {indices : List Nat}
    (declared : ∀ index ∈ indices, index < layout.params.length) :
    Safe D.Own (indices.forM (fillDefault evaluate layout frame)) m fun _ => True := by
  induction indices generalizing m with
  | nil => exact .pure sound .intro
  | cons index rest ih =>
    change Safe D.Own (do fillDefault evaluate layout frame index
                          rest.forM (fillDefault evaluate layout frame)) m _
    refine (safe_fillDefault trusts fits inside known home sound
      (declared index List.mem_cons_self)).bind fun _ later done sound _ => ?_
    have follows := ((ensures_fillDefault trusts.sound fits home index).ok done).1
    exact ih follows.fits (follows.grows.layout known)
      (fun e own => D.places_mono follows.grows (home e own)) sound
      fun other later => declared other (List.mem_cons_of_mem _ later)

theorem safe_insideClosure (trusts : D.Trusts evaluate) (fits : m.Fits D) {layout : Layout}
    {env : FrameId} {actuals : Parts} (binding : Binding) (admitted : D.admits m.heap layout env)
    (given : ∀ part ∈ actuals, D.Admits m.heap part.2) (sound : m.WellFormed D.Own)
    (well : actuals.WellFormed) :
    Safe D.Own (insideClosure evaluate layout binding actuals env) m Value.WellFormed := by
  refine (safe_newFrame sound well).bind fun frame m₁ opened sound _ => ?_
  obtain ⟨follows₁, home⟩ := (ensures_newFrame fits admitted given).ok opened
  obtain ⟨inside, known⟩ := newFrame_spec fits opened
  refine (safe_fillDefaults trusts follows₁.fits inside known home sound fun index =>
    List.mem_range.mp).bind fun _ m₂ filled sound _ => ?_
  have follows₂ := ((ensures_forM_fillDefault trusts.sound _ follows₁.fits home).ok filled).1
  exact trusts.secures _ _ _ follows₂.fits
    (D.places_mono follows₂.grows (home _ body_mem_ownText)) sound

theorem safe_insideBuiltin {builtin : Builtin} (safe : builtin.IsSafe) {actuals : Parts}
    (binding : Binding) (sound : m.WellFormed own) (well : actuals.WellFormed) :
    Safe own (insideBuiltin context builtin binding actuals) m Value.WellFormed :=
  (Safe.operate sound (safe ⟨builtin.formals, binding, actuals⟩ rfl well)).bind
    fun _ _ _ sound well => .counted sound context.mode well

theorem safe_callClosure (trusts : D.Trusts evaluate) (fits : m.Fits D) {layout : Layout}
    {env : FrameId} {actuals : Parts} {site : Option Site} (admitted : D.admits m.heap layout env)
    (given : ∀ part ∈ actuals, D.Admits m.heap part.2)
    (allowed : ∀ s binding, site = some s →
      Matching.matchCall layout.formals (actuals.map Prod.fst) = .ok binding →
      D.binds s.id (.literal layout.literal) binding)
    (sound : m.WellFormed D.Own) (well : actuals.WellFormed) :
    Safe D.Own (callClosure evaluate layout env actuals site) m Value.WellFormed := by
  rw [callClosure_eq]
  refine (Safe.matchKnown sound site layout.callable _).amend.bind
    fun binding m₁ matched sound _ => ?_
  obtain ⟨follows₁, same₁⟩ := (Ensures.amend (ensures_matchKnown fits allowed)).ok matched
  refine .inCall sound (balanced_insideClosure trusts.balanced layout binding actuals env) _ _
    fun m₂ heap globals cache sound => ?_
  have same : m₂.heap = m.heap := heap.trans same₁
  rw [← same] at admitted given
  exact safe_insideClosure trusts (follows_of_heap_eq follows₁.fits heap globals cache).fits binding
    admitted given sound well

theorem safe_callBuiltin (safe : context.builtins.IsSafe) {name : Symbol} {handle : Nat}
    {actuals : Parts} {site : Option Site} (sound : m.WellFormed own) (well : actuals.WellFormed) :
    Safe own (callBuiltin context name handle actuals site) m Value.WellFormed := by
  cases known : context.builtins.get handle with
  | none =>
    rw [callBuiltin, known]
    exact .fail sound _
  | some builtin =>
    rw [callBuiltin_eq known]
    have safe := safe builtin (List.mem_of_getElem? known)
    refine (Safe.matchKnown sound site ⟨.builtin handle, name, builtin.formals⟩ _).amend.bind
      fun binding _ _ sound _ => ?_
    exact .inCall sound (balanced_insideBuiltin builtin binding actuals) _ _
      fun _ _ _ _ sound => safe_insideBuiltin safe binding sound well

/-- A call of anything that may be around is safe. -/
theorem safe_call (safe : context.builtins.IsSafe) (trusts : D.Trusts evaluate) (fits : m.Fits D)
    {callee : Value} {actuals : Parts} {site : Option Site} (admitted : D.Admits m.heap callee)
    (given : ∀ part ∈ actuals, D.Admits m.heap part.2)
    (closure : ∀ layout env s binding, callee = .closure layout env → site = some s →
      Matching.matchCall layout.formals (actuals.map Prod.fst) = .ok binding →
      D.binds s.id (.literal layout.literal) binding)
    (sound : m.WellFormed D.Own) (well : actuals.WellFormed) :
    Safe D.Own (call context evaluate callee actuals site) m Value.WellFormed := by
  refine Safe.located ?_
  split
  · next layout env =>
    exact safe_callClosure trusts fits (admitted (layout, env) (List.mem_singleton_self _)) given
      (fun s binding => closure layout env s binding rfl) sound well
  · exact safe_callBuiltin safe sound well
  · exact (Safe.fail sound _).amend

/-! ### One step -/

theorem safe_evalActuals (trusts : D.Trusts evaluate) {frame : FrameId}
    (actuals : List (Option Symbol × Expr)) (fits : m.Fits D)
    (placed : ∀ actual ∈ actuals, D.places m.heap actual.2 frame) (sound : m.WellFormed D.Own) :
    Safe D.Own (evalActuals evaluate frame actuals) m Parts.WellFormed := by
  induction actuals generalizing m with
  | nil => exact .pure sound fun _ held => (List.not_mem_nil held).elim
  | cons actual rest ih =>
    obtain ⟨name, value⟩ := actual
    rw [evalActuals]
    refine trusts.bind fits (placed _ List.mem_cons_self) sound fun v m₁ follows _ sound well => ?_
    refine (ih follows.fits (fun actual later => D.places_mono follows.grows
      (placed actual (List.mem_cons_of_mem _ later))) sound).bind fun parts m₂ _ sound others => ?_
    exact .pure sound (List.forall_mem_cons.mpr ⟨well, others⟩)

theorem safe_evalBlock (trusts : D.Trusts evaluate) {frame : FrameId} (body : List Expr)
    (fits : m.Fits D) {last : Value} (well : last.WellFormed)
    (placed : ∀ e ∈ body, D.places m.heap e frame) (sound : m.WellFormed D.Own) :
    Safe D.Own (evalBlock evaluate frame last body) m Value.WellFormed := by
  induction body generalizing m last with
  | nil => exact .pure sound well
  | cons e rest ih =>
    rw [evalBlock]
    refine trusts.bind fits (placed e List.mem_cons_self) sound fun v m₁ follows _ sound well => ?_
    exact ih follows.fits well (fun e member =>
      D.places_mono follows.grows (placed e (List.mem_cons_of_mem _ member))) sound

/-- If the evaluation of parts is safe, evaluation is. -/
theorem secures_step (safe : context.builtins.IsSafe) (leads : D.LeadsToSlots)
    (trusts : D.Trusts evaluate) : D.Secures (step context evaluate) := by
  intro e frame m fits placed sound
  have inside := (D.places_frame placed).1
  have part {p : Expr} (member : p ∈ e.parts) : D.places m.heap p frame :=
    D.places_part placed member
  -- One case for each form of expression.
  cases e with
  | literal site value => exact .pure sound (wellFormed_literalValue value)
  | ident site name =>
    change Safe D.Own (Run.located (some site.span) (readVariable name frame)) m _
    refine .located (.get (.ofCause sound fun v done => ?_))
    exact sound.of_hasVariable (fits.hasVariable_of_read inside done)
  | assign site target value =>
    have valued := part (p := value) (by simp [Expr.parts, Expr.strict])
    refine trusts.bind fits valued sound fun v later follows _ sound well => ?_
    have room := lt_length_of_localSlot follows.fits inside target
    exact safe_bindVariable well (exists_bindAt room target v) fun _ => sound.bindAt well
  | superAssign site target value =>
    have valued := part (p := value) (by simp [Expr.parts, Expr.strict])
    refine trusts.bind fits valued sound fun v later follows _ sound well => ?_
    have room := fun owner slot => leads later target frame owner slot follows.fits inside
    exact safe_bindVariable well (exists_bindAt room target v) fun _ => sound.bindAt well
  | function site params body =>
    cases known : context.program.layout? site.id with
    | some layout =>
      rw [step_function_of_some evaluate params body frame known]
      exact .pure sound (.closure layout frame)
    | none =>
      rw [step_function_of_none evaluate params body frame known]
      exact .located (.fail sound _)
  | call site callee actuals =>
    have called := part (p := callee) (by simp [Expr.parts, Expr.strict])
    refine trusts.bind fits called sound fun v m₁ follows₁ admitted sound _ => ?_
    have placed₁ : ∀ actual ∈ actuals, D.places m₁.heap actual.2 frame := fun actual member =>
      D.places_mono follows₁.grows
        (part (List.mem_append_left _ (List.mem_cons_of_mem _ (List.mem_map_of_mem member))))
    refine (safe_evalActuals trusts actuals follows₁.fits placed₁ sound).bind
      fun parts m₂ evaluated sound well => ?_
    obtain ⟨follows₂, given, labels⟩ :=
      (ensures_evalActuals trusts.sound actuals follows₁.fits placed₁).ok evaluated
    have admitted₂ := admitted.mono follows₂.grows
    refine safe_call safe trusts follows₂.fits admitted₂ given ?_ sound well
    rintro layout env _ binding rfl ⟨⟩ matched
    rw [labels] at matched
    exact D.binds_closure (D.places_mono (follows₁.grows.trans follows₂.grows) placed)
      (admitted₂ (layout, env) (List.mem_singleton_self _)) matched
  | binary site op left right =>
    have first := part (p := left) (by simp [Expr.parts, Expr.strict])
    have second := part (p := right) (by simp [Expr.parts, Expr.strict])
    refine trusts.bind fits first sound fun l m₁ follows _ sound _ => ?_
    refine trusts.bind follows.fits (D.places_mono follows.grows second) sound
      fun r m₂ _ _ sound _ => ?_
    refine (Safe.located (.attempt sound (Value.binary_isSafe op l r))).bind
      fun v m₃ _ sound well => ?_
    exact .counted sound context.mode well
  | branch site condition thenBranch elseBranch =>
    have tested := part (p := condition) (by simp [Expr.parts, Expr.strict])
    refine trusts.bind fits tested sound fun v m₁ follows₁ _ sound _ => ?_
    refine (Safe.located (.attempt sound (truthOf_isSafe v))).bind fun holds m₂ known sound _ => ?_
    have follows₂ := ((ensures_test follows₁.fits site v).ok known).1
    have grows := follows₁.grows.trans follows₂.grows
    split
    · exact trusts.secures _ _ _ follows₂.fits (D.places_mono grows
        (part (by simp [Expr.parts, Expr.branches]))) sound
    · split
      · exact trusts.secures _ _ _ follows₂.fits (D.places_mono grows
          (part (by simp [Expr.parts, Expr.branches]))) sound
      · exact .pure sound .null
  | block site body =>
    exact safe_evalBlock trusts body fits .null
      (fun e member => part (List.mem_append_left _ member)) sound

/-- Evaluation to any depth is safe. -/
theorem trusts_eval (handsOn : context.builtins.HandsOn) (safe : context.builtins.IsSafe)
    (leads : D.LeadsToSlots) (depth : Nat) : D.Trusts (eval context depth) := by
  refine ⟨sound_eval handsOn depth, balanced_eval context depth, ?_⟩
  induction depth with
  | zero => exact fun _ _ _ _ _ sound => .stop sound .intro
  | succ depth ih =>
    exact secures_step safe leads ⟨sound_eval handsOn depth, balanced_eval context depth, ih⟩

/-! ### Nested frames -/

/-- Where frames are nested as the functions are, assignments outward lead to slots. -/
theorem mirroring_leadsToSlots {top : Expr} {guests : FrameId → Prop} {edition : Nat}
    {resolved : Program.resolve edition top = .ok context.program} {once : top.literals.Nodup} :
    (mirroring context base top guests edition resolved once).LeadsToSlots := by
  intro m name frame owner slot fits inside found
  simp only [Machine.outerSlot, Option.bind_eq_bind, Option.bind_eq_some_iff] at found
  obtain ⟨layout, known, resolution, supers, address, further, other, climbed, ⟨⟩⟩ := found
  have consults : layout.Consults address := by
    cases resolution with
    | enclosing _ =>
      cases further
      exact .assigned supers
    | _ => cases further
  obtain ⟨_, around, climbed', around_known, named⟩ :=
    fits.mirrors.owner_of_consults once resolved inside known consults
  cases climbed.symm.trans climbed'
  exact lt_length_of_slotOf fits (fits.ancestor inside climbed) around_known named

end Discipline

end Vectorial
