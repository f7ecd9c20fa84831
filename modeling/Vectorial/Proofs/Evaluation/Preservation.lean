import Vectorial.Proofs.Evaluation.Discipline

/-!
# Evaluation keeps every discipline

One step of evaluation keeps a discipline if the evaluation of the parts does, and so
evaluation to any depth does. Every moment of an evaluation is then one at which the
machine fits and the expression may be evaluated in its frame.

## Main definitions

* `Discipline.Sound`: evaluators that keep a discipline;
* `Discipline.Allowed`: moments at which everything is allowed.

## Main results

* `Discipline.sound_step`, `Discipline.sound_eval`: evaluation keeps a discipline;
* `Discipline.ensures_call`: so does a call from outside;
* `Discipline.allowed_of_visits`: every moment of an allowed evaluation is allowed.
-/

namespace Vectorial.Discipline

open EvalM

variable {context : Context} {base : FrameId} {D : Discipline context base} {α : Type}
variable {m later : Machine}

theorem Ensures.get {next : Machine → EvalM α} {Q : α → Machine → Prop}
    (ensured : D.Ensures (next m) m Q) : D.Ensures (MonadState.get >>= next) m Q :=
  ensured

/-- A machine fits if one with the same heap, global variables and kept bindings does. -/
theorem follows_of_heap_eq (fits : m.Fits D) (heap : later.heap = m.heap)
    (globals : later.globals = m.globals) (cache : later.cache = m.cache) : D.Follows m later := by
  refine ⟨⟨?begun, ?frames, ?slots, ?parents, ?globals, ?kept⟩, ?grows⟩
  case begun => rw [heap]; exact fits.begun
  case frames => rw [heap]; exact fits.frames
  case slots => rw [heap]; exact fits.slots
  case parents => rw [heap]; exact fits.parents
  case globals => rw [heap, globals]; exact fits.globals
  case kept => rw [cache]; exact fits.kept
  case grows => rw [heap]; exact .refl _

/-! ### Matching and the stack -/

theorem ensures_matchKnown (fits : m.Fits D) {site : Option Site} {callee : Callee}
    {formals : Formals} {labels : List (Option Symbol)}
    (allowed : ∀ s binding, site = some s → Matching.matchCall formals labels = .ok binding →
      D.binds s.id callee binding) :
    D.Ensures (matchKnown site callee formals labels) m fun _ later => later.heap = m.heap := by
  rw [matchKnown]
  refine .get ?_
  split
  · next cache s known =>
    dsimp only
    split
    -- A binding that is kept already; otherwise the one just found is kept too.
    · exact .pure fits rfl
    · refine Ensures.afterExcept fits fun binding matched => ?_
      refine ⟨⟨⟨fits.begun, fits.frames, fits.slots, fits.parents, fits.globals, ?_⟩,
        .refl _⟩, rfl⟩
      rintro _ ⟨⟩ entry (_ | ⟨_, old⟩)
      · exact allowed s binding rfl matched
      · exact fits.kept cache known entry old
  · exact .ofExcept fits fun _ _ => rfl

theorem ensures_enter (fits : m.Fits D) (name : Symbol) (site : Option Site) :
    D.Ensures (enter name site) m fun _ later => later.heap = m.heap := by
  rw [enter]
  refine .get ?_
  refine (Ensures.amend (Ensures.ofExcept (Q := fun _ later => later = m) fits
    fun _ _ => rfl)).bind ?_
  rintro stack _ - rfl
  exact ⟨follows_of_heap_eq fits rfl rfl rfl, rfl⟩

theorem ensures_leave (fits : m.Fits D) :
    D.Ensures leave m fun _ later => later.heap = m.heap := by
  rw [leave]
  refine .get ?_
  refine Ensures.afterExcept fits fun stack _ => ?_
  exact ⟨follows_of_heap_eq fits rfl rfl rfl, rfl⟩

/-- A step inside a call, if its result does not depend on the stack. -/
theorem ensures_inCall (fits : m.Fits D) {name : Symbol} {site : Option Site} {step : EvalM α}
    {P : α → Heap → Prop}
    (inside : ∀ later, D.Follows m later → later.heap = m.heap →
      D.Ensures step later fun a last => P a last.heap) :
    D.Ensures (inCall name site step) m fun a last => P a last.heap := by
  rw [inCall]
  refine (ensures_enter fits name site).bind fun _ later follows same => ?_
  have ensured : D.Ensures (Run.amend (fun m e => m.stack.attach e) step) later
      fun a last => P a last.heap := (inside later follows same).amend
  unfold Ensures at ensured ⊢
  dsimp only
  rw [backtraced]
  -- The call is left after a result and after an error, and a defect leaves nothing.
  cases outcome : Run.amend (fun m e => m.stack.attach e) step later with
  | ok a last =>
    rw [outcome] at ensured
    have left := (ensures_leave ensured.1.fits).bind fun _ final follows'
        (same' : final.heap = last.heap) =>
      Ensures.pure (Q := fun a last => P a last.heap) (a := a) follows'.fits
        (by rw [same']; exact ensured.2)
    rw [Ensures] at left
    dsimp only
    split
    · next eq => rw [eq] at left; exact ⟨ensured.1.trans left.1, left.2⟩
    · next eq => rw [eq] at left; exact ensured.1.trans left
  | error stop last =>
    rw [outcome] at ensured
    cases stop with
    | error e =>
      have left := (ensures_leave ensured.fits).bind fun _ final follows' _ =>
        Ensures.stop (Q := fun (_ : α) _ => False) follows'.fits (.error e)
      rw [Ensures] at left
      dsimp only
      split
      · next eq => rw [eq] at left; exact left.2.elim
      · next eq => rw [eq] at left; exact ensured.trans left
    | defect defect => exact ensured
    | exhausted => exact ensured

/-! ### Frames of calls -/

/-- What the slots of a new frame are bound to was among the actuals. -/
theorem closures_of_initialSlot {layout : Layout} {binding : Binding} {actuals : Parts}
    {storage : StorageId} {index : Nat} {v : Value}
    (bound : Frame.initialSlot layout binding actuals storage index = some v) :
    v.closures ⊆ actuals.closures := by
  rw [Frame.initialSlot] at bound
  split at bound
  · cases bound
    -- The varargs parameter: its list holds what the absorbed actuals hold.
    rw [Value.closures_ofParts]
    intro c held
    obtain ⟨part, listed, inside⟩ := List.mem_flatMap.mp held
    obtain ⟨position, -, found⟩ := List.mem_filterMap.mp listed
    exact List.mem_flatMap.mpr ⟨part, List.mem_of_getElem? found, inside⟩
  · obtain ⟨actual, -, known⟩ := Option.bind_eq_some_iff.mp bound
    obtain ⟨part, found, rfl⟩ := Option.map_eq_some_iff.mp known
    intro c held
    exact List.mem_flatMap.mpr ⟨part, List.mem_of_getElem? found, held⟩

theorem closures_of_ofCall {layout : Layout} {binding : Binding} {actuals : Parts}
    {storage : StorageId} {env : FrameId} {slot : Nat} {v : Value}
    (bound : (Frame.ofCall layout binding actuals storage env).slots[slot]?.join = some v) :
    v.closures ⊆ actuals.closures := by
  have member := List.mem_of_getElem? (Option.join_eq_some_iff.mp bound)
  rcases List.mem_append.mp member with initial | rest
  · obtain ⟨index, -, initial⟩ := List.mem_map.mp initial
    exact closures_of_initialSlot initial
  · cases List.eq_of_mem_replicate rest

/-- The frame of a call has the slots of its layout. -/
theorem length_slots_ofCall {layout : Layout} {binding : Binding} {actuals : Parts}
    {storage : StorageId} {env : FrameId} :
    (Frame.ofCall layout binding actuals storage env).slots.length = layout.frameSize := by
  have params : layout.formals.length = layout.params.length := by
    have := congrArg List.length layout.formals_names
    simpa [Formals.names, Formals.length] using this
  have leading := layout.length_params_le
  simp only [Frame.ofCall, List.length_append, List.length_map,
    List.length_range, List.length_replicate]
  omega

theorem admits_of_parts {heap : Heap} {parts : Parts} {v : Value}
    (admitted : ∀ part ∈ parts, D.Admits heap part.2) (held : v.closures ⊆ parts.closures) :
    D.Admits heap v := by
  intro c member
  obtain ⟨part, listed, inside⟩ := List.mem_flatMap.mp (held member)
  exact admitted part listed c inside

theorem ensures_newFrame (fits : m.Fits D) {layout : Layout} {binding : Binding}
    {actuals : Parts} {env : FrameId} (admitted : D.admits m.heap layout env)
    (given : ∀ part ∈ actuals, D.Admits m.heap part.2) :
    D.Ensures (newFrame layout binding actuals env) m fun id later =>
      ∀ e ∈ ownText layout.params layout.body, D.places later.heap e id := by
  -- Besides the frame an identity is taken, for the list of absorbed actuals.
  let frame := Frame.ofCall layout binding actuals m.heap.nextStorage env
  let heap : Heap := m.heap.newStorage.2
  have grows : m.heap.Extends (heap.allocate frame).2 := heap.extends_allocate frame
  have env_own := D.admits_env admitted
  refine ⟨⟨⟨grows.lt_size fits.begun, ?frames, ?slots, ?parents, ?globals, fits.kept⟩, grows⟩,
    ?home⟩
  case frames =>
    intro id inner own found
    replace found : (heap.allocate frame).2.frame? id = some inner := found
    rw [Heap.frame_allocate] at found
    split at found
    · cases found
      refine ⟨length_slots_ofCall, (fun alone => by cases alone), ?_⟩
      rintro _ ⟨⟩
      exact D.admits_mono grows admitted
    · exact (fits.frames id inner own found).of_extends grows rfl rfl rfl
  case slots =>
    intro id slot v own bound
    replace bound : (heap.allocate frame).2.get id slot = some v := bound
    rw [Heap.get_allocate] at bound
    split at bound
    · exact (admits_of_parts given (closures_of_ofCall bound)).mono grows
    · exact (fits.slots id slot v own bound).mono grows
  case parents =>
    intro id parent own known
    replace known : (heap.allocate frame).2.parent id = some parent := known
    rw [Heap.parent, Heap.frame_allocate] at known
    split at known
    · next new =>
      cases known
      rw [new]
      -- The new frame lies inside the frame of the closure, which is older.
      exact env_own
    · exact fits.parents id parent own known
  case globals => exact fun entry member => (fits.globals entry member).mono grows
  case home =>
    intro e own
    have entered : (heap.allocate frame).2.frame? m.heap.frames.size = some frame :=
      (heap.frame_allocate frame _).trans (if_pos rfl)
    exact D.places_entered admitted grows entered rfl rfl (Nat.le_of_lt fits.begun) own

/-! ### Calls -/

theorem mem_ownText_of_default {layout : Layout} {index : Nat} {e : Expr}
    (known : layout.defaultFor index = some e) : e ∈ ownText layout.params layout.body := by
  obtain ⟨entry, found, same⟩ := Option.map_eq_some_iff.mp (Option.join_eq_some_iff.mp known)
  exact List.mem_append_left _ (List.mem_filterMap.mpr ⟨entry, List.mem_of_getElem? found, same⟩)

theorem body_mem_ownText {layout : Layout} : layout.body ∈ ownText layout.params layout.body :=
  List.mem_append_right _ (List.mem_singleton_self _)

/-- Evaluators that keep the discipline wherever it lets them be used. -/
def Sound (D : Discipline context base) (evaluate : Evaluator) : Prop :=
  ∀ e frame m, m.Fits D → D.places m.heap e frame →
    D.Ensures (evaluate e frame) m fun v later => D.Admits later.heap v

variable {evaluate : Evaluator}

theorem ensures_fillDefault (sound : D.Sound evaluate) (fits : m.Fits D) {layout : Layout}
    {frame : FrameId} (home : ∀ e ∈ ownText layout.params layout.body, D.places m.heap e frame)
    (index : Nat) :
    D.Ensures (fillDefault evaluate layout frame index) m fun _ _ => True := by
  rw [fillDefault]
  refine .get ?_
  split
  · split
    · exact .pure fits trivial
    · next default known =>
      refine (sound default frame m fits (home default (mem_ownText_of_default known))).bind
        fun v later follows admitted => ?_
      refine .get ?_
      refine Ensures.afterExcept follows.fits fun changed done => ?_
      exact ⟨follows_setSlot follows.fits admitted done, trivial⟩
  · exact .pure fits trivial

theorem ensures_forM_fillDefault (sound : D.Sound evaluate) {layout : Layout} {frame : FrameId}
    (indices : List Nat) (fits : m.Fits D)
    (home : ∀ e ∈ ownText layout.params layout.body, D.places m.heap e frame) :
    D.Ensures (indices.forM (fillDefault evaluate layout frame)) m fun _ _ => True := by
  induction indices generalizing m with
  | nil => exact .pure fits trivial
  | cons index rest ih =>
    change D.Ensures (do fillDefault evaluate layout frame index
                         rest.forM (fillDefault evaluate layout frame)) m _
    refine (ensures_fillDefault sound fits home index).bind fun _ later follows _ => ?_
    exact ih follows.fits fun e own => D.places_mono follows.grows (home e own)

theorem ensures_callClosure (sound : D.Sound evaluate) (fits : m.Fits D) {layout : Layout}
    {env : FrameId} {actuals : Parts} {site : Option Site}
    (admitted : D.admits m.heap layout env) (given : ∀ part ∈ actuals, D.Admits m.heap part.2)
    (allowed : ∀ s binding, site = some s →
      Matching.matchCall layout.formals (actuals.map Prod.fst) = .ok binding →
      D.binds s.id (.literal layout.literal) binding) :
    D.Ensures (callClosure evaluate layout env actuals site) m
      fun v later => D.Admits later.heap v := by
  rw [callClosure]
  refine (Ensures.amend (ensures_matchKnown fits allowed)).bind fun binding m₁ follows₁ same₁ => ?_
  -- Matching and entering the call leave the heap alone, so that the closure and the actuals may
  -- still be around.
  refine ensures_inCall (P := fun v heap => D.Admits heap v) follows₁.fits
    fun m₂ follows₂ same₂ => ?_
  have same : m₂.heap = m.heap := same₂.trans same₁
  rw [← same] at admitted given
  refine (ensures_newFrame follows₂.fits admitted given).bind fun frame m₃ follows₃ home => ?_
  refine (ensures_forM_fillDefault sound _ follows₃.fits home).bind fun _ m₄ follows₄ _ => ?_
  exact sound _ _ _ follows₄.fits (D.places_mono follows₄.grows (home _ body_mem_ownText))

theorem ensures_callBuiltin (handsOn : context.builtins.HandsOn) (fits : m.Fits D) {name : Symbol}
    {handle : Nat} {actuals : Parts} {site : Option Site}
    (given : ∀ part ∈ actuals, D.Admits m.heap part.2)
    (allowed : ∀ builtin s binding, context.builtins.get handle = some builtin → site = some s →
      Matching.matchCall builtin.formals (actuals.map Prod.fst) = .ok binding →
      D.binds s.id (.builtin handle) binding) :
    D.Ensures (callBuiltin context name handle actuals site) m
      fun v later => D.Admits later.heap v := by
  rw [callBuiltin]
  split
  · exact .stop fits _
  · next builtin known =>
    refine (Ensures.amend (ensures_matchKnown fits (allowed builtin · · known))).bind
      fun binding m₁ follows₁ same₁ => ?_
    refine ensures_inCall (P := fun v heap => D.Admits heap v) follows₁.fits
      fun m₂ follows₂ same₂ => ?_
    have same : m₂.heap = m.heap := same₂.trans same₁
    rw [← same] at given
    have delivers := handsOn builtin (List.mem_of_getElem? known)
      ⟨builtin.formals, binding, actuals⟩
    refine (ensures_operate follows₂.fits delivers).bind fun v m₃ follows₃ held => ?_
    refine (ensures_counted follows₃.fits context.mode v).mono fun w m₄ follows₄ kept => ?_
    refine ((admits_of_parts given ?_).mono follows₃.grows).mono follows₄.grows
    -- The result holds closures of the actuals only, which may still be around.
    rw [kept]
    exact held

/-- A call of anything that may be around. -/
theorem ensures_call (handsOn : context.builtins.HandsOn) (sound : D.Sound evaluate)
    (fits : m.Fits D) {callee : Value} {actuals : Parts} {site : Option Site}
    (admitted : D.Admits m.heap callee) (given : ∀ part ∈ actuals, D.Admits m.heap part.2)
    (closure : ∀ layout env s binding, callee = .closure layout env → site = some s →
      Matching.matchCall layout.formals (actuals.map Prod.fst) = .ok binding →
      D.binds s.id (.literal layout.literal) binding)
    (builtin : ∀ handle builtin s binding, context.builtins.get handle = some builtin →
      site = some s → Matching.matchCall builtin.formals (actuals.map Prod.fst) = .ok binding →
      D.binds s.id (.builtin handle) binding) :
    D.Ensures (call context evaluate callee actuals site) m
      fun v later => D.Admits later.heap v := by
  refine Ensures.located ?_
  split
  · next layout env =>
    exact ensures_callClosure sound fits (admitted (layout, env) (List.mem_singleton_self _)) given
      fun s binding => closure layout env s binding rfl
  · next name handle => exact ensures_callBuiltin handsOn fits given (builtin handle)
  · exact Ensures.amend (.stop fits _)

/-! ### One step -/

theorem ensures_evalActuals (sound : D.Sound evaluate) {frame : FrameId}
    (actuals : List (Option Symbol × Expr)) (fits : m.Fits D)
    (placed : ∀ actual ∈ actuals, D.places m.heap actual.2 frame) :
    D.Ensures (evalActuals evaluate frame actuals) m fun parts later =>
      (∀ part ∈ parts, D.Admits later.heap part.2) ∧
        parts.map Prod.fst = actuals.map Prod.fst := by
  -- What the first actuals gave stays allowed while the others are evaluated.
  induction actuals generalizing m with
  | nil => exact .pure fits ⟨fun _ held => (List.not_mem_nil held).elim, rfl⟩
  | cons actual rest ih =>
    obtain ⟨name, value⟩ := actual
    rw [evalActuals]
    refine (sound value frame m fits (placed _ List.mem_cons_self)).bind
      fun v m₁ follows₁ admitted => ?_
    refine (ih follows₁.fits fun actual later => D.places_mono follows₁.grows
      (placed actual (List.mem_cons_of_mem _ later))).bind fun parts m₂ follows₂ others => ?_
    refine .pure follows₂.fits ⟨?_, by simp [others.2]⟩
    intro part member
    rcases List.mem_cons.mp member with rfl | later
    · exact admitted.mono follows₂.grows
    · exact others.1 part later

theorem ensures_evalBlock (sound : D.Sound evaluate) {frame : FrameId} (body : List Expr)
    (fits : m.Fits D) {last : Value} (admitted : D.Admits m.heap last)
    (placed : ∀ e ∈ body, D.places m.heap e frame) :
    D.Ensures (evalBlock evaluate frame last body) m fun v later => D.Admits later.heap v := by
  induction body generalizing m last with
  | nil => exact .pure fits admitted
  | cons e rest ih =>
    rw [evalBlock]
    refine (sound e frame m fits (placed e List.mem_cons_self)).bind
      fun v later follows admitted => ?_
    exact ih follows.fits admitted fun e member =>
      D.places_mono follows.grows (placed e (List.mem_cons_of_mem _ member))

theorem ensures_bindVariable (fits : m.Fits D) {v : Value}
    {assign : Machine → Except Defect Machine} (admitted : D.Admits m.heap v)
    (keeps : ∀ later, assign m = .ok later → D.Follows m later) :
    D.Ensures (bindVariable assign v) m fun v later => D.Admits later.heap v := by
  rw [bindVariable]
  refine .get ?_
  refine Ensures.afterExcept fits fun changed done => ?_
  exact ⟨keeps changed done, admitted.mono (keeps changed done).grows⟩

theorem ensures_test (fits : m.Fits D) (site : Site) (v : Value) :
    D.Ensures (test site v) m fun _ _ => True :=
  .located (ensures_attempt fits (.trivial _))

/-- If the evaluation of parts keeps the discipline, evaluation does. -/
theorem sound_step (handsOn : context.builtins.HandsOn) (sound : D.Sound evaluate) :
    D.Sound (step context evaluate) := by
  intro e frame m fits placed
  have part {p : Expr} (member : p ∈ e.parts) : D.places m.heap p frame :=
    D.places_part placed member
  -- One case for each form of expression; the parts are allowed where the expression is.
  have own := (D.places_frame placed).1
  cases e with
  | literal site value =>
    refine .pure fits (.of_eq_nil ?_)
    cases value <;> rfl
  | ident site name =>
    change D.Ensures (Run.located (some site.span) (readVariable name frame)) m _
    refine .located ?_
    exact .get (.ofExcept fits fun v done => fits.read own done)
  | assign site target value =>
    refine (sound value frame m fits (part (by simp [Expr.parts, Expr.strict]))).bind
      fun v later follows admitted => ?_
    exact ensures_bindVariable follows.fits admitted fun _ => follows_bindAt follows.fits admitted
  | superAssign site target value =>
    refine (sound value frame m fits (part (by simp [Expr.parts, Expr.strict]))).bind
      fun v later follows admitted => ?_
    exact ensures_bindVariable follows.fits admitted fun _ => follows_bindAt follows.fits admitted
  | function site params body =>
    cases known : context.program.layout? site.id with
    | some layout =>
      rw [step_function_of_some evaluate params body frame known]
      refine .pure fits fun c held => ?_
      cases List.mem_singleton.mp held
      exact D.admits_function placed known
    | none =>
      rw [step_function_of_none evaluate params body frame known]
      exact .located (.stop fits _)
  | call site callee actuals =>
    refine (sound callee frame m fits (part (by simp [Expr.parts, Expr.strict]))).bind
      fun v m₁ follows₁ admitted => ?_
    refine (ensures_evalActuals sound actuals follows₁.fits fun actual member => ?_).bind
      fun parts m₂ follows₂ given => ?_
    · refine D.places_mono follows₁.grows (part ?_)
      exact List.mem_append_left _ (List.mem_cons_of_mem _ (List.mem_map_of_mem member))
    -- The labels of the evaluated actuals are those of the call site.
    · have grows := follows₁.grows.trans follows₂.grows
      refine ensures_call handsOn sound follows₂.fits (admitted.mono follows₂.grows) given.1 ?_ ?_
      · rintro layout env _ binding rfl ⟨⟩ matched
        rw [given.2] at matched
        exact D.binds_closure (D.places_mono grows placed)
          (admitted.mono follows₂.grows (layout, env) (List.mem_singleton_self _)) matched
      · rintro handle builtin _ binding known ⟨⟩ matched
        rw [given.2] at matched
        exact D.binds_builtin (D.places_mono grows placed) known matched
  | binary site op left right =>
    refine (sound left frame m fits (part (by simp [Expr.parts, Expr.strict]))).bind
      fun l m₁ follows₁ _ => ?_
    refine (sound right frame m₁ follows₁.fits (D.places_mono follows₁.grows
      (part (by simp [Expr.parts, Expr.strict])))).bind fun r m₂ follows₂ _ => ?_
    refine (Ensures.located (ensures_attempt follows₂.fits (Value.closures_binary op l r))).bind
      fun v m₃ follows₃ none_held => ?_
    refine (ensures_counted follows₃.fits context.mode v).mono fun w m₄ _ kept => ?_
    exact .of_eq_nil (kept.trans none_held)
  | branch site condition thenBranch elseBranch =>
    refine (sound condition frame m fits (part (by simp [Expr.parts, Expr.strict]))).bind
      fun v m₁ follows₁ _ => ?_
    refine (ensures_test follows₁.fits site v).bind fun holds m₂ follows₂ _ => ?_
    have grows := follows₁.grows.trans follows₂.grows
    split
    · exact sound _ _ _ follows₂.fits (D.places_mono grows
        (part (by simp [Expr.parts, Expr.branches])))
    · split
      · exact sound _ _ _ follows₂.fits (D.places_mono grows
          (part (by simp [Expr.parts, Expr.branches])))
      · exact .pure follows₂.fits (.of_eq_nil rfl)
  | block site body =>
    exact ensures_evalBlock sound body fits (.of_eq_nil rfl) fun e member =>
      part (List.mem_append_left _ member)

/-- Evaluation to any depth keeps every discipline. -/
theorem sound_eval (handsOn : context.builtins.HandsOn) (depth : Nat) :
    D.Sound (eval context depth) := by
  induction depth with
  | zero => exact fun _ _ _ fits _ => .stop fits _
  | succ depth ih => exact sound_step handsOn ih

/-! ### Moments -/

/-- A moment at which everything is allowed. -/
structure Allowed (D : Discipline context base) (moment : Moment) : Prop where
  fits : moment.machine.Fits D
  placed : D.places moment.machine.heap moment.expr moment.frame

theorem allowed_of_inOrder (sound : D.Sound evaluate) {frame : FrameId} {es : List Expr}
    {moment : Moment} (visited : InOrder evaluate frame es m moment) (fits : m.Fits D)
    (placed : ∀ e ∈ es, D.places m.heap e frame) : D.Allowed moment := by
  -- Each expression is evaluated in the machine that the one before it left.
  induction visited with
  | first => exact ⟨fits, placed _ List.mem_cons_self⟩
  | later done _ ih =>
    have follows := ((sound _ frame _ fits (placed _ List.mem_cons_self)).ok done).1
    exact ih follows.fits fun e member =>
      D.places_mono follows.grows (placed e (List.mem_cons_of_mem _ member))

theorem ensures_entered (fits : m.Fits D) {layout : Layout} {env : FrameId} {actuals : Parts}
    {site : Option Site} (admitted : D.admits m.heap layout env)
    (given : ∀ part ∈ actuals, D.Admits m.heap part.2)
    (allowed : ∀ s binding, site = some s →
      Matching.matchCall layout.formals (actuals.map Prod.fst) = .ok binding →
      D.binds s.id (.literal layout.literal) binding) :
    D.Ensures (entered layout env actuals site) m fun id later =>
      ∀ e ∈ ownText layout.params layout.body, D.places later.heap e id := by
  rw [entered]
  refine (Ensures.amend (ensures_matchKnown fits allowed)).bind fun binding m₁ follows₁ same₁ => ?_
  refine (ensures_enter follows₁.fits layout.name site).bind fun _ m₂ follows₂ same₂ => ?_
  have same : m₂.heap = m.heap := same₂.trans same₁
  rw [← same] at admitted given
  exact ensures_newFrame follows₂.fits admitted given

theorem allowed_of_callPart (sound : D.Sound evaluate) (fits : m.Fits D) {layout : Layout}
    {env : FrameId} {actuals : Parts} {site : Option Site} {moment : Moment}
    (admitted : D.admits m.heap layout env) (given : ∀ part ∈ actuals, D.Admits m.heap part.2)
    (allowed : ∀ s binding, site = some s →
      Matching.matchCall layout.formals (actuals.map Prod.fst) = .ok binding →
      D.binds s.id (.literal layout.literal) binding)
    (visited : CallPart evaluate layout env actuals site m moment) : D.Allowed moment := by
  cases visited with
  | default opened filled _ known =>
    obtain ⟨follows₁, home⟩ := (ensures_entered fits admitted given allowed).ok opened
    have follows₂ := ((ensures_forM_fillDefault sound _ follows₁.fits home).ok filled).1
    exact ⟨follows₂.fits, D.places_mono follows₂.grows (home _ (mem_ownText_of_default known))⟩
  | body opened filled =>
    obtain ⟨follows₁, home⟩ := (ensures_entered fits admitted given allowed).ok opened
    have follows₂ := ((ensures_forM_fillDefault sound _ follows₁.fits home).ok filled).1
    exact ⟨follows₂.fits, D.places_mono follows₂.grows (home _ body_mem_ownText)⟩

/-- When the callee and the actuals of an allowed call are evaluated, they may be around. -/
theorem Allowed.call (sound : D.Sound evaluate) {site : Site} {callee : Expr}
    {actuals : List (Option Symbol × Expr)} {frame : FrameId} {m₁ m₂ : Machine} {v : Value}
    {parts : Parts} (allowed : D.Allowed ⟨.call site callee actuals, frame, m⟩)
    (called : evaluate callee frame m = .ok v m₁)
    (given : evalActuals evaluate frame actuals m₁ = .ok parts m₂) :
    D.Follows m m₂ ∧ D.Admits m₂.heap v ∧ (∀ part ∈ parts, D.Admits m₂.heap part.2) ∧
      parts.map Prod.fst = actuals.map Prod.fst := by
  obtain ⟨fits, placed⟩ := allowed
  -- The callee may change what may be around, but only by adding to it.
  have part (p : Expr) (member : p ∈ (Expr.call site callee actuals).strict) :
      D.places m.heap p frame :=
    D.places_part placed (List.mem_append_left _ member)
  obtain ⟨follows₁, admitted⟩ := (sound _ _ _ fits (part callee List.mem_cons_self)).ok called
  have placed₁ : ∀ actual ∈ actuals, D.places m₁.heap actual.2 frame := fun actual member =>
    D.places_mono follows₁.grows
      (part actual.2 (List.mem_cons_of_mem _ (List.mem_map_of_mem member)))
  obtain ⟨follows₂, admitted_parts, labels⟩ :=
    (ensures_evalActuals sound actuals follows₁.fits placed₁).ok given
  exact ⟨follows₁.trans follows₂, admitted.mono follows₂.grows, admitted_parts, labels⟩

/-- Evaluating a condition and testing it keep the discipline. -/
theorem follows_of_tested (sound : D.Sound evaluate) {site : Site} {condition thenBranch : Expr}
    {elseBranch : Option Expr} {frame : FrameId} {m₁ m₂ : Machine} {v : Value} {holds : Bool}
    (allowed : D.Allowed ⟨.branch site condition thenBranch elseBranch, frame, m⟩)
    (done : evaluate condition frame m = .ok v m₁) (tested : test site v m₁ = .ok holds m₂) :
    D.Follows m m₂ := by
  obtain ⟨fits, placed⟩ := allowed
  have part : condition ∈ (Expr.branch site condition thenBranch elseBranch).parts :=
    List.mem_append_left _ List.mem_cons_self
  have follows := ((sound _ _ _ fits (D.places_part placed part)).ok done).1
  exact follows.trans ((ensures_test follows.fits site v).ok tested).1

/-- The parts of an allowed moment are allowed if they are evaluated soundly. -/
theorem allowed_of_part (sound : D.Sound evaluate) {outer moment : Moment}
    (allowed : D.Allowed outer) (visited : Part evaluate outer moment) : D.Allowed moment := by
  obtain ⟨fits, placed⟩ := allowed
  cases visited with
  | strict inOrder =>
    exact allowed_of_inOrder sound inOrder fits fun e member =>
      D.places_part placed (List.mem_append_left _ member)
  | thenBranch done tested =>
    have follows := follows_of_tested sound ⟨fits, placed⟩ done tested
    refine ⟨follows.fits, D.places_mono follows.grows ?_⟩
    exact D.places_part placed (List.mem_append_right _ List.mem_cons_self)
  | elseBranch done tested =>
    have follows := follows_of_tested sound ⟨fits, placed⟩ done tested
    refine ⟨follows.fits, D.places_mono follows.grows ?_⟩
    exact D.places_part placed (List.mem_append_right _ (by simp [Expr.branches]))
  | @call site callee actuals frame env layout parts m m₁ m₂ _ done given visited =>
    obtain ⟨follows, admitted, admitted_parts, labels⟩ :=
      Allowed.call sound ⟨fits, placed⟩ done given
    have held := admitted (layout, env) (List.mem_singleton_self _)
    refine allowed_of_callPart sound follows.fits held admitted_parts ?_ visited
    rintro _ binding ⟨⟩ matched
    rw [labels] at matched
    exact D.binds_closure (D.places_mono follows.grows placed) held matched

/-- Every moment of an evaluation that begins allowed is allowed. -/
theorem allowed_of_visits (handsOn : context.builtins.HandsOn) {depth : Nat}
    {outer moment : Moment} (visits : Visits context depth outer moment)
    (allowed : D.Allowed outer) : D.Allowed moment := by
  -- From outside in, through one part after another.
  induction visits with
  | here => exact allowed
  | inside part _ ih => exact ih (allowed_of_part (sound_eval handsOn _) allowed part)

end Vectorial.Discipline
