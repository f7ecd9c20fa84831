import Vectorial.Proofs.Call.Arity
import Vectorial.Proofs.Evaluation.Safety
import Vectorial.Proofs.Evaluation.Unbound
import Vectorial.Proofs.Scope.Totality

/-!
# Sessions find no precondition violated

A program in which no function repeats a parameter is laid out. With the standard builtins,
whatever an honest host then asks, and whatever it builds the values from that it hands in,
each request ends in a value or an evaluation error, unless it asks for memory that no
address reaches or is bounded in depth.

Some positions are looked up without a check of their own: the actuals in a binding, the
slots that are read, and elements within the size of a value. They exist as well.

## Main definitions

* `Value.IsBuiltOf`, `Interpreter.Builds`: values that a host makes of known ones;
* `Heap.Uses`: the slots that evaluation in a frame reads or binds;
* `Interpreter.Calls`: the calls of a session, with their bindings;
* `Interpreter.Secure`: what is known of an interpreter throughout a session.

## Main results

* `Interpreter.Secure.serve`: each request is answered safely;
* `Interpreter.sessions_find_no_defect`: no precondition is violated in a session.
-/

namespace Vectorial

/-! ### What a host hands in -/

/-- Whether operations make a value of known ones. -/
def Value.IsBuiltOf (known : Value → Prop) (v : Value) : Prop :=
  ∃ pool instructions heap results later, (∀ w ∈ pool, known w) ∧
    build instructions pool heap = .ok results later ∧ v ∈ results

theorem Value.IsBuiltOf.wellFormed {known : Value → Prop} {v : Value} (made : v.IsBuiltOf known)
    (sound : ∀ w, known w → w.WellFormed) : v.WellFormed := by
  obtain ⟨pool, instructions, heap, results, later, from_known, built, listed⟩ := made
  exact wellFormed_build (fun w member => sound w (from_known w member)) built v listed

/-- The values that a host hands in. -/
def Request.values : Request → List Value
  | .run _ => []
  | .call _ callee actuals => callee :: actuals.map Prod.snd
  | .setGlobal _ value => [value]

/-- The value that a host is given, if it is. -/
def valuesOfAnswer : Except Stop Value → List Value
  | .ok value => [value]
  | .error _ => []

/-! ### Reading within bounds -/

/-- Up to the size of a view every element can be computed. -/
theorem View.exists_peek : ∀ (source : View) {index : Nat}, index < source.size →
    ∃ reading, source.peek index = .ok reading
  | .sequence p, _, inside => by
    rw [View.peek, p.termAt_of_lt_size inside]
    exact ⟨_, rfl⟩
  | .range r, _, inside => by
    rw [View.peek, r.termAt_of_lt_size inside]
    exact ⟨_, rfl⟩
  | .coerce source target, _, inside => by
    rw [View.peek, Value.get_eq inside]
    exact ⟨_, rfl⟩
  | .traced id inner, _, inside => by
    obtain ⟨reading, computed⟩ := inner.exists_peek inside
    rw [View.peek, computed]
    exact ⟨_, rfl⟩

/-- The slots that evaluation in a frame reads or binds: those of parameters and of local
names, and those at the addresses further out. -/
inductive Heap.Uses (heap : Heap) (frame : FrameId) : FrameId → Nat → Prop where
  | parameter {layout : Layout} {index : Nat} :
      heap.layout? frame = some layout → index < layout.params.length → heap.Uses frame frame index
  | named {layout : Layout} {name : Symbol} {slot : Nat} :
      heap.layout? frame = some layout → layout.slotOf name = some slot →
      heap.Uses frame frame slot
  | here {layout : Layout} {name : Symbol} {slot : Nat} {outer : Option Address} :
      heap.layout? frame = some layout → layout.resolveRead name = some (.here slot outer) →
      heap.Uses frame frame slot
  | outward {layout : Layout} {address : Address} {owner : FrameId} :
      heap.layout? frame = some layout → layout.Consults address →
      heap.ancestor frame address.hops = some owner → heap.Uses frame owner address.slot

section

variable {context : Context} {base : FrameId} {top : Expr} {guests : FrameId → Prop}
variable {edition : Nat} {resolved : Program.resolve edition top = .ok context.program}
variable {once : top.literals.Nodup} {m : Machine}

/-- Frames that are nested as the functions are have all slots that are used. -/
theorem Discipline.lt_length_of_uses
    (fits : m.Fits (.mirroring context base top guests edition resolved once))
    {frame owner : FrameId} {slot : Nat} (own : base ≤ frame ∨ guests frame)
    (uses : m.heap.Uses frame owner slot) :
    slot < (m.heap.slots owner).length := by
  cases uses with
  | parameter known declared => exact lt_length_of_parameter fits own known declared
  | named known named => exact lt_length_of_slotOf fits own known named
  | @here layout name _ _ known read =>
    obtain ⟨outer, lays, -⟩ := fits.mirrors.lays once own known
    have found := (lays edition _ resolved).eq_resolveRead read
    rw [length_slots fits own known]
    rw [Scopes.resolveRead] at found
    -- A name that is found here is at its place among the local names, which are as many as slots.
    split at found
    · next position =>
      cases found
      exact (List.idxOf?_eq_some_iff.mp position).1
    · cases outward : Scopes.findOuter (layout.locals :: outer) name <;>
        rw [outward] at found <;> cases found
  | outward known consults climbed =>
    obtain ⟨_, around, climbed', around_known, named⟩ :=
      fits.mirrors.owner_of_consults once resolved own known consults
    cases climbed.symm.trans climbed'
    exact lt_length_of_slotOf fits (fits.ancestor own climbed) around_known named

end

namespace Interpreter

/-- Whether a host that was given some values builds what it hands in of these and of the
variables of the outermost level. -/
def Builds (interpreter : Interpreter) (given : List Value) : List Request → Prop
  | [] => True
  | request :: rest =>
    (∀ v ∈ request.values,
      v.IsBuiltOf fun w => w ∈ given ∨ ∃ name, interpreter.global name = some w) ∧
    (interpreter.serve request).2.Builds
      (given ++ valuesOfAnswer (interpreter.serve request).1) rest

/-- The calls of a session that get a binding: what is called, the actuals and the binding.
A host calls without a site. -/
inductive Calls (interpreter : Interpreter) (requests : List Request) :
    Callable → Parts → Binding → Prop where
  | site {site : Site} {callee : Expr} {actuals : List (Option Symbol × Expr)} {frame : FrameId}
      {m m₁ m₂ later : Machine} {depth : Nat} {v : Value} {parts : Parts} {f : Callable}
      {binding : Binding} :
      interpreter.Evaluates requests ⟨.call site callee actuals, frame, m⟩ →
      EvalM.eval interpreter.context depth callee frame m = .ok v m₁ →
      EvalM.evalActuals (EvalM.eval interpreter.context depth) frame actuals m₁ = .ok parts m₂ →
      interpreter.context.callable? v = some f →
      m₂.bindings (some site) f (parts.map Prod.fst) = .ok (binding, later) →
      Calls interpreter requests f parts binding
  | host {before rest : List Request} {depth : Nat} {callee : Value} {actuals : Parts}
      {f : Callable} {binding : Binding} {later : Machine} :
      requests = before ++ .call depth callee actuals :: rest →
      interpreter.context.callable? callee = some f →
      (interpreter.after before).machine.bindings none f (actuals.map Prod.fst) =
        .ok (binding, later) →
      Calls interpreter requests f actuals binding

variable {settings : Settings} {heap : Heap} {interpreter : Interpreter} {requests : List Request}

/-! ### Bindings -/

/-- The binding of a call of the session has a place for each parameter and distributes the
actuals of the call. -/
theorem distributes_of_calls (built : build settings heap = .ok interpreter)
    (numbered : settings.top.Numbered) (handsOn : settings.builtins.HandsOn)
    (closed : ∀ entry ∈ settings.globals, entry.2.closures = [])
    (honest : interpreter.Honest [] requests) {f : Callable} {parts : Parts} {binding : Binding}
    (calls : interpreter.Calls requests f parts binding) :
    binding.actuals.length = f.formals.length ∧ binding.Distributes parts.length := by
  have of_matched (matched : Matching.matchCall f.formals (parts.map Prod.fst) = .ok binding) :
      binding.actuals.length = f.formals.length ∧ binding.Distributes parts.length := by
    have bound := (Matching.matchCall_eq_ok_iff.mp matched).1
    have distributes := Matching.distributes_of_bind bound
    rw [List.length_map] at distributes
    exact ⟨Matching.length_actuals_of_bind bound, distributes⟩
  cases calls with
  | @site site callee actuals frame m m₁ m₂ later depth v _ _ _ evaluates called given callable
      bound =>
    -- A binding that was kept for the call is the one that matching finds.
    obtain ⟨own, fits⟩ := fits_keeping_of_build built numbered closed
    rw [← (context_of_build built).1] at handsOn
    have allowed := allowed_of_evaluates handsOn fits honest evaluates
    obtain ⟨follows, admitted, -, labels⟩ :=
      Discipline.Allowed.call (Discipline.sound_eval handsOn depth) allowed called given
    have known := EvalM.formals?_of_callable admitted callable
    rw [labels] at bound
    have matched : (m₂.bindings (some site) f (actuals.map Prod.fst)).map Prod.fst =
        Matching.matchCall f.formals (actuals.map Prod.fst) :=
      EvalM.map_fst_bindings follows.fits known allowed.placed.2
    rw [bound, ← labels] at matched
    exact of_matched matched.symm
  | host _ _ bound => exact of_matched (Machine.matchCall_of_bindings_none bound)

/-! ### Requests -/

variable {context : Context} {base : FrameId} {D : Discipline context base}
variable {given : List (Layout × FrameId)} {known : List Value}

/-- An interpreter that keeps a discipline, that has well-formed values in its variables and whose
host was given such. -/
structure Secure (D : Discipline context base) (interpreter : Interpreter)
    (given : List (Layout × FrameId)) (known : List Value) : Prop where
  fits : interpreter.Fits D given
  rooted : interpreter.machine.heap.layout? base = some context.program.toplevel
  values : interpreter.machine.WellFormed D.Own
  known : ∀ v ∈ known, v.WellFormed

namespace Secure

theorem global (secure : interpreter.Secure D given known) {name : Symbol} {v : Value}
    (found : interpreter.global name = some v) : v.WellFormed := by
  rcases Option.or_eq_some_iff.mp found with inRoot | ⟨-, global⟩
  · obtain ⟨slot, -, bound⟩ := Option.bind_eq_some_iff.mp inRoot
    rw [secure.fits.same_root] at bound
    exact secure.values.slots base slot v (.inl (Nat.le_refl base)) bound
  · obtain ⟨entry, listed, rfl⟩ := Option.map_eq_some_iff.mp global
    exact secure.values.globals entry (List.mem_of_find?_eq_some listed)

/-- What a host hands in that only builds is well formed. -/
theorem wellFormed_of_builds (secure : interpreter.Secure D given known) {request : Request}
    {rest : List Request} (builds : interpreter.Builds known (request :: rest)) :
    ∀ v ∈ request.values, v.WellFormed := by
  intro v handed
  refine (builds.1 v handed).wellFormed ?_
  rintro w (old | ⟨name, found⟩)
  · exact secure.known w old
  · exact secure.global found

/-- The answer of a safe step is safe. -/
theorem perform (secure : interpreter.Secure D given known) {step : EvalM Value}
    (ensured : D.Ensures step interpreter.machine fun v later => D.Admits later.heap v)
    (safe : EvalM.Safe D.Own step interpreter.machine Value.WellFormed) :
    IsSafe Value.WellFormed (interpreter.perform step).1 ∧
      (interpreter.perform step).2.Secure D
        (given ++ closuresOfAnswer (interpreter.perform step).1)
        (known ++ valuesOfAnswer (interpreter.perform step).1) := by
  have fits := secure.fits.perform ensured
  rw [Discipline.Ensures] at ensured
  rw [EvalM.Safe] at safe
  unfold Interpreter.perform at fits ⊢
  cases outcome : step interpreter.machine with
  | ok v later =>
    rw [outcome] at fits ensured safe
    refine ⟨safe.2, fits, ensured.1.grows.layout secure.rooted, safe.1, ?_⟩
    refine List.forall_mem_append.mpr ⟨secure.known, ?_⟩
    exact List.forall_mem_singleton.mpr safe.2
  | error stop later =>
    rw [outcome] at fits ensured safe
    -- An error gives the host no value.
    have nothing_new : ∀ v ∈ known ++ valuesOfAnswer (.error stop), v.WellFormed := by
      rw [valuesOfAnswer, List.append_nil]
      exact secure.known
    have rooted := ensured.grows.layout secure.rooted
    cases stop with
    | error e =>
      refine ⟨.intro, fits, ?_, ?_, nothing_new⟩
      · rw [machine_report]
        exact rooted
      · rw [machine_report]
        exact safe.1
    | defect violated => exact ⟨safe.2, fits, rooted, safe.1, nothing_new⟩
    | exhausted => exact ⟨.intro, fits, rooted, safe.1, nothing_new⟩

/-- A variable of the outermost level has its slot. -/
theorem exists_setGlobal (secure : interpreter.Secure D given known) (name : Symbol) (v : Value) :
    ∃ after, interpreter.setGlobal name v = .ok after := by
  have room (owner : FrameId) (slot : Nat)
      (found : interpreter.rootPlace name = some (owner, slot)) :
      slot < (interpreter.machine.heap.slots owner).length := by
    obtain ⟨_, named, ⟨⟩⟩ := Option.map_eq_some_iff.mp found
    rw [rootSlot, secure.fits.same_context] at named
    rw [secure.fits.same_root]
    exact Discipline.lt_length_of_slotOf secure.fits.machine (.inl (Nat.le_refl base))
      secure.rooted named
  obtain ⟨machine, bound⟩ := Discipline.exists_bindAt room name v
  rw [Interpreter.setGlobal, bound]
  exact ⟨_, rfl⟩

theorem setGlobal (secure : interpreter.Secure D given known) {name : Symbol} {v : Value}
    {after : Interpreter} (admitted : D.Admits interpreter.machine.heap v) (well : v.WellFormed)
    (done : interpreter.setGlobal name v = .ok after) : after.Secure D given known := by
  have fits := secure.fits.setGlobal admitted done
  obtain ⟨machine, bound, rfl⟩ := bindAt_of_setGlobal done
  have follows := Discipline.follows_bindAt secure.fits.machine admitted bound
  exact ⟨fits, follows.grows.layout secure.rooted, secure.values.bindAt well bound, secure.known⟩

/-- A request of an honest host that builds what it hands in is answered safely. -/
theorem serve (secure : interpreter.Secure D given known) (handsOn : context.builtins.HandsOn)
    (safe : context.builtins.IsSafe) (leads : D.LeadsToSlots) {request : Request}
    {rest : List Request} (honest : interpreter.Honest given (request :: rest))
    (builds : interpreter.Builds known (request :: rest)) :
    IsSafe Value.WellFormed (interpreter.serve request).1 ∧
      (interpreter.serve request).2.Secure D
        (given ++ closuresOfAnswer (interpreter.serve request).1)
        (known ++ valuesOfAnswer (interpreter.serve request).1) := by
  have fits := secure.fits
  have well := secure.wellFormed_of_builds builds
  cases request with
  | run depth =>
    refine secure.perform (fits.ensures_run handsOn depth) ?_
    rw [fits.same_context, fits.same_root]
    exact (Discipline.trusts_eval handsOn safe leads depth).secures _ _ _ fits.machine
      fits.placed secure.values
  | call depth callee actuals =>
    obtain ⟨admitted, admitted_parts⟩ := fits.admits_of_call honest
    refine secure.perform (fits.ensures_call handsOn honest) ?_
    rw [fits.same_context]
    refine Discipline.safe_call safe (Discipline.trusts_eval handsOn safe leads depth)
      fits.machine admitted admitted_parts (fun _ _ _ _ _ site => by cases site) secure.values ?_
    exact fun part listed => well part.2 (List.mem_cons_of_mem _ (List.mem_map_of_mem listed))
  | setGlobal name v =>
    have admitted : D.Admits interpreter.machine.heap v := fits.admits_of_honest honest
    have well := well v List.mem_cons_self
    obtain ⟨after, done⟩ := secure.exists_setGlobal name v
    -- There is a place for the variable, so that setting it never finds a defect.
    have served : interpreter.serve (.setGlobal name v) = (.ok .null, after) := by
      simp only [Interpreter.serve, done]
    rw [served]
    obtain ⟨fits, rooted, values, old⟩ := secure.setGlobal admitted well done
    refine ⟨.null, ?_, rooted, values, ?_⟩
    · simpa [closuresOfAnswer] using fits
    · exact List.forall_mem_append.mpr ⟨old, List.forall_mem_singleton.mpr .null⟩

/-- All requests of such a host are. -/
theorem answers (secure : interpreter.Secure D given known) (handsOn : context.builtins.HandsOn)
    (safe : context.builtins.IsSafe) (leads : D.LeadsToSlots)
    (honest : interpreter.Honest given requests) (builds : interpreter.Builds known requests) :
    ∀ answer ∈ interpreter.answers requests, IsSafe Value.WellFormed answer := by
  induction requests generalizing interpreter given known with
  | nil => exact fun _ listed => (List.not_mem_nil listed).elim
  | cons request rest ih =>
    obtain ⟨first, later⟩ := secure.serve handsOn safe leads honest builds
    exact List.forall_mem_cons.mpr ⟨first, ih later honest.2 builds.2⟩

end Secure

/-- An interpreter that has just been built is secure. -/
theorem secure_of_build (built : build settings heap = .ok interpreter)
    (fits : interpreter.Fits D []) (alone : ∀ id, ¬D.guests id)
    (sound : ∀ entry ∈ settings.globals, entry.2.WellFormed) : interpreter.Secure D [] [] := by
  obtain ⟨program, resolved, rfl⟩ := build_eq_ok built
  obtain ⟨rfl, rfl⟩ := And.intro fits.same_context fits.same_root
  let frame := Frame.unbound program.toplevel none
  refine ⟨fits, ?_, ⟨?_, ?_⟩, fun _ listed => (List.not_mem_nil listed).elim⟩
  · exact Heap.layout_of_frame ((Heap.frame_allocate heap frame _).trans (if_pos rfl))
  · intro id slot v own bound
    obtain ⟨-, bound⟩ := Heap.get_of_get_allocate_unbound bound
    -- No frame of its own is older than the root frame, and none is younger yet.
    rcases own with inside | guest
    · have absent := Heap.frame_eq_none_iff.mpr inside
      rw [Heap.get_eq, absent] at bound
      cases bound
    · exact absurd guest (alone id)
  · intro entry member
    rcases mem_foldl_setEntry member with host | builtin
    · exact sound entry host
    · obtain ⟨visible, -, rfl⟩ := List.mem_map.mp builtin
      exact .builtin _ _

/-- No precondition is violated in a session. A program in which no literal occurs at two places
and no function repeats a parameter gets an interpreter with the standard builtins, in any mode.
Whatever an honest host asks, and whatever it builds the values from that it hands in, every
answer is a well-formed value or an evaluation error; only memory that no address reaches may
have been asked for, and evaluation may have been bounded. In every state the slots that are
read or bound exist, and every binding has a place for each parameter and names each actual
of the call once. Elements within the size of a value can be looked up. -/
theorem sessions_find_no_defect (heap : Heap) (standard : settings.builtins = .standard)
    (once : settings.top.literals.Nodup) (distinct : settings.top.DistinctParameters)
    (closed : ∀ entry ∈ settings.globals, entry.2.closures = [])
    (made : ∀ entry ∈ settings.globals, entry.2.IsBuiltOf fun _ => False) :
    (∃ interpreter, build settings heap = .ok interpreter ∧
      ∀ requests, interpreter.Honest [] requests → interpreter.Builds [] requests →
        (∀ answer ∈ interpreter.answers requests, IsSafe Value.WellFormed answer) ∧
        (∀ m, interpreter.Passes requests m → ∀ frame owner slot, interpreter.root ≤ frame →
          m.heap.Uses frame owner slot → slot < (m.heap.slots owner).length) ∧
        (settings.top.Numbered → ∀ f parts binding, interpreter.Calls requests f parts binding →
          binding.actuals.length = f.formals.length ∧ binding.Distributes parts.length)) ∧
    (∀ (v : Value) index, index < v.size → ∃ reading, v.get index = .ok reading) ∧
    ∀ (source : View) index, index < source.size → ∃ reading, source.peek index = .ok reading := by
  refine ⟨?_, fun v index inside => ⟨_, Value.get_eq inside⟩, fun source _ => source.exists_peek⟩
  obtain ⟨program, resolved⟩ :=
    (Program.exists_resolve_iff heap.frames.size settings.top).mpr distinct
  have built : build settings heap = .ok (ofProgram settings heap program) := by
    rw [build_eq, resolved]
    rfl
  -- From here on it only matters that the interpreter has been built.
  generalize ofProgram settings heap program = interpreter at built
  refine ⟨interpreter, built, fun requests honest builds => ?_⟩
  obtain ⟨builtins, edition, resolved⟩ := context_of_build built
  have handsOn : settings.builtins.HandsOn := standard ▸ Registry.standard_handsOn
  have safe : interpreter.context.builtins.IsSafe := by
    rw [builtins, standard]
    exact Registry.standard_isSafe
  have fits := fits_of_kin built resolved once (Heap.kin_nil heap settings.top)
    fun entry listed => List.subset_nil.mpr (closed entry listed)
  have nowhere (id : FrameId) : ¬heap.LedTo [] id := by
    rintro ⟨c, member, -⟩
    cases member
  have secure := secure_of_build built fits nowhere fun entry listed =>
    (made entry listed).wellFormed fun _ never => never.elim
  have handsOn' := builtins ▸ handsOn
  refine ⟨?_, ?_, ?_⟩
  · exact secure.answers handsOn' safe Discipline.mirroring_leadsToSlots honest builds
  · intro m passes frame owner slot own uses
    exact Discipline.lt_length_of_uses (fits_of_passes handsOn' fits honest passes) (.inl own) uses
  · exact fun numbered f parts binding calls =>
      distributes_of_calls built numbered handsOn closed honest calls

/-- The program `(function(x = 2L:y) x)()`. -/
def rangeByDefault : Expr :=
  .call ⟨6, default⟩
    (.function ⟨5, default⟩
      [("x", some (.binary ⟨3, default⟩ .colon (.literal ⟨1, default⟩ (.integer 2))
        (.ident ⟨2, default⟩ "y")))]
      (.ident ⟨4, default⟩ "x"))
    []

theorem distinctParameters_rangeByDefault : rangeByDefault.DistinctParameters := by
  intro site params body inside
  have nodes_eq : rangeByDefault.nodes =
      [.literal ⟨1, default⟩ (.integer 2), .ident ⟨2, default⟩ "y",
        .binary ⟨3, default⟩ .colon (.literal ⟨1, default⟩ (.integer 2)) (.ident ⟨2, default⟩ "y"),
        .ident ⟨4, default⟩ "x",
        .function ⟨5, default⟩
          [("x", some (.binary ⟨3, default⟩ .colon (.literal ⟨1, default⟩ (.integer 2))
            (.ident ⟨2, default⟩ "y")))]
          (.ident ⟨4, default⟩ "x"),
        rangeByDefault] := rfl
  simp only [nodes_eq, List.mem_cons, List.not_mem_nil, or_false] at inside
  rcases inside with same | same | same | same | same | same <;> cases same
  exact List.nodup_singleton "x"

/-- Whatever the end of the range is, which the host sets, the program is answered safely. -/
theorem sessions_find_no_defect_rangeByDefault :
    ∃ interpreter, build { top := rangeByDefault } .empty = .ok interpreter ∧
      ∀ stop : Int32, ∀ answer ∈
        interpreter.answers [.setGlobal "y" (.ofInteger stop), .run 5],
        IsSafe Value.WellFormed answer := by
  obtain ⟨⟨interpreter, built, safe⟩, -, -⟩ :=
    @sessions_find_no_defect { top := rangeByDefault } .empty rfl (by decide)
      distinctParameters_rangeByDefault (fun _ listed => (List.not_mem_nil listed).elim)
      (fun _ listed => (List.not_mem_nil listed).elim)
  refine ⟨interpreter, built, fun stop => (safe _ ?_ ?_).1⟩
  · exact ⟨fun _ handed => (List.not_mem_nil handed).elim,
      fun _ handed => (List.not_mem_nil handed).elim, trivial⟩
  · refine ⟨fun v handed => ?_, fun _ handed => (List.not_mem_nil handed).elim, trivial⟩
    rw [List.mem_singleton.mp handed]
    exact ⟨[], [.atoms .integer [stop]], .empty, _, _, fun _ listed =>
      (List.not_mem_nil listed).elim, rfl, List.mem_singleton_self _⟩

end Interpreter

end Vectorial
