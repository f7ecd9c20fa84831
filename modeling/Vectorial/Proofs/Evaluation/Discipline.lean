import Vectorial.Proofs.Builtin.Closures
import Vectorial.Proofs.Evaluation.Parts
import Vectorial.Proofs.Heap.Frames

/-!
# Disciplines

A discipline says which closures may be around, which expressions may be evaluated in
which frames, and which bindings may be kept for a call. Its laws are those that one step
of evaluation needs: the parts of an expression may be evaluated where the expression may,
a literal evaluated there gives a closure that may be around, and the frame of a call may
evaluate the defaults and the body of the function called. A machine fits a discipline if
everything in its slots, its global variables and its kept bindings is allowed.

Frames below `base` belong to others. They are not reached, except for some that the
discipline names as guests: the host may have closures of others.

## Main definitions

* `Discipline`: what is allowed, with its laws;
* `Machine.Fits`: machines in which everything is allowed;
* `Discipline.Follows`: a machine that fits, in a larger heap;
* `Discipline.Ensures`: a step that leads to such a machine, with a property of its result.

## Main results

* `Machine.Fits.hasVariable_of_read`, `Machine.Fits.read`: what is read is in a variable, and
  may be around;
* `Discipline.ensures_bindVariable`, `Discipline.ensures_newFrame`: the steps that change
  frames keep the discipline.
-/

namespace Vectorial

/-- What is allowed in an evaluation whose own frames begin at `base`. -/
structure Discipline (context : Context) (base : FrameId) where
  /-- The frames of others that may be reached. -/
  guests : FrameId → Prop
  /-- The layouts of frames that lie in no other frame. -/
  outermost : Layout → Prop
  /-- The closures that may be around. -/
  admits : Heap → Layout → FrameId → Prop
  /-- The expressions that may be evaluated in a frame. -/
  places : Heap → Expr → FrameId → Prop
  /-- The bindings that may be kept for a call site and a callee. -/
  binds : NodeId → Callee → Binding → Prop
  admits_env {heap : Heap} {layout : Layout} {env : FrameId} :
    admits heap layout env → (base ≤ env ∨ guests env) ∧ env < heap.frames.size
  admits_mono {heap later : Heap} {layout : Layout} {env : FrameId} :
    heap.Extends later → admits heap layout env → admits later layout env
  places_mono {heap later : Heap} {e : Expr} {frame : FrameId} :
    heap.Extends later → places heap e frame → places later e frame
  places_frame {heap : Heap} {e : Expr} {frame : FrameId} :
    places heap e frame → (base ≤ frame ∨ guests frame) ∧ frame < heap.frames.size
  places_part {heap : Heap} {e part : Expr} {frame : FrameId} :
    places heap e frame → part ∈ e.parts → places heap part frame
  admits_function {heap : Heap} {site : Site} {params : List (Symbol × Option Expr)} {body : Expr}
      {frame : FrameId} {layout : Layout} :
    places heap (.function site params body) frame →
      context.program.layout? site.id = some layout → admits heap layout frame
  places_entered {heap later : Heap} {layout : Layout} {env id : FrameId} {frame : Frame}
      {e : Expr} :
    admits heap layout env → heap.Extends later → later.frame? id = some frame →
      frame.layout = layout → frame.parent = some env → base ≤ id →
      e ∈ ownText layout.params layout.body → places later e id
  binds_closure {heap : Heap} {site : Site} {callee : Expr}
      {actuals : List (Option Symbol × Expr)} {frame env : FrameId} {layout : Layout}
      {binding : Binding} :
    places heap (.call site callee actuals) frame → admits heap layout env →
      Matching.matchCall layout.formals (actuals.map Prod.fst) = .ok binding →
      binds site.id (.literal layout.literal) binding
  binds_builtin {heap : Heap} {site : Site} {callee : Expr}
      {actuals : List (Option Symbol × Expr)} {frame : FrameId} {handle : Nat}
      {builtin : Builtin} {binding : Binding} :
    places heap (.call site callee actuals) frame → context.builtins.get handle = some builtin →
      Matching.matchCall builtin.formals (actuals.map Prod.fst) = .ok binding →
      binds site.id (.builtin handle) binding

variable {context : Context} {base : FrameId} {α β : Type}

namespace Discipline

variable (D : Discipline context base)

/-- Whether a frame may be reached. -/
def Own (id : FrameId) : Prop :=
  base ≤ id ∨ D.guests id

/-- Whether all closures in a value may be around. -/
def Admits (heap : Heap) (v : Value) : Prop :=
  ∀ c ∈ v.closures, D.admits heap c.1 c.2

variable {D} {heap later : Heap} {v w : Value}

theorem Admits.mono (grows : heap.Extends later) (admitted : D.Admits heap v) :
    D.Admits later v :=
  fun c held => D.admits_mono grows (admitted c held)

theorem Admits.of_eq_nil (none_held : v.closures = []) : D.Admits heap v := by
  intro c held
  rw [none_held] at held
  cases held

end Discipline

/-- A frame has the slots of its layout, and it is the frame of a call of a closure that may be
around, unless it lies in no other frame. -/
structure Discipline.Founds (D : Discipline context base) (heap : Heap) (frame : Frame) :
    Prop where
  sized : frame.slots.length = frame.layout.frameSize
  outermost : frame.parent = none → D.outermost frame.layout
  inside : ∀ env, frame.parent = some env → D.admits heap frame.layout env

/-- Everything in the machine is allowed, and frames lie inside older ones. -/
structure Machine.Fits (D : Discipline context base) (m : Machine) : Prop where
  begun : base < m.heap.frames.size
  frames : ∀ id frame, D.Own id → m.heap.frame? id = some frame → D.Founds m.heap frame
  slots : ∀ id slot v, D.Own id → m.heap.get id slot = some v → D.Admits m.heap v
  parents : ∀ id parent, D.Own id → m.heap.parent id = some parent → D.Own parent ∧ parent < id
  globals : ∀ entry ∈ m.globals, D.Admits m.heap entry.2
  kept : ∀ cache, m.cache = some cache → ∀ entry ∈ cache, D.binds entry.1.1 entry.1.2 entry.2

/-- Whether a value is in a slot of one of the frames, or in a global variable. -/
inductive Machine.HasVariable (m : Machine) (own : FrameId → Prop) : Value → Prop where
  | slot {id : FrameId} {slot : Nat} {v : Value} :
      own id → m.heap.get id slot = some v → m.HasVariable own v
  | global {entry : Symbol × Value} : entry ∈ m.globals → m.HasVariable own entry.2

namespace Machine.Fits

variable {D : Discipline context base} {m : Machine}

theorem ancestor (fits : m.Fits D) {id ancestor : FrameId} (own : D.Own id) {hops : Nat}
    (found : m.heap.ancestor id hops = some ancestor) : D.Own ancestor := by
  -- One parent at a time: the parent of a frame of its own is one too.
  induction hops generalizing id with
  | zero =>
    cases found
    exact own
  | succ hops ih =>
    simp only [Heap.ancestor] at found
    split at found
    · next parent known => exact ih (fits.parents id parent own known).1 found
    · cases found

/-- Outward from a frame of its own, a machine has only frames of its own. -/
theorem chainFrom (fits : m.Fits D) {start : Option FrameId} (own : ∀ id ∈ start, D.Own id)
    {fuel : Nat} {id : FrameId} (member : id ∈ m.heap.chainFrom fuel start) : D.Own id := by
  induction fuel generalizing start with
  | zero => cases member
  | succ fuel ih =>
    cases start with
    | none => cases member
    | some first =>
      rcases List.mem_cons.mp member with rfl | later
      · exact own _ rfl
      · exact ih (fun parent known => (fits.parents first parent (own first rfl) known).1) later

theorem findOutward (fits : m.Fits D) {start : Option FrameId} (own : ∀ id ∈ start, D.Own id)
    {name : Symbol} {v : Value} (found : m.findOutward name start = some v) :
    m.HasVariable D.Own v := by
  rcases Option.or_eq_some_iff.mp found with inFrame | ⟨-, global⟩
  · obtain ⟨id, member, known⟩ := List.exists_of_findSome?_eq_some inFrame
    obtain ⟨slot, -, bound⟩ := Option.bind_eq_some_iff.mp known
    exact .slot (fits.chainFrom own member) bound
  · obtain ⟨entry, known, rfl⟩ := Option.map_eq_some_iff.mp global
    exact .global (List.mem_of_find?_eq_some known)

theorem findAt (fits : m.Fits D) {frame : FrameId} (own : D.Own frame) {name : Symbol}
    {address : Option Address} {v : Value} (found : m.findAt name frame address = some v) :
    m.HasVariable D.Own v := by
  have around (id : FrameId) (own : D.Own id) : ∀ parent ∈ m.heap.parent id, D.Own parent :=
    fun parent known => (fits.parents id parent own known).1
  unfold Machine.findAt at found
  split at found
  · exact fits.findOutward (around frame own) found
  · split at found
    · exact fits.findOutward (around frame own) found
    · next owner known =>
      have owns := fits.ancestor own known
      rcases Option.or_eq_some_iff.mp found with bound | ⟨-, further⟩
      -- The slot of the owner, or what is found further out while it is unbound.
      · exact .slot owns bound
      · exact fits.findOutward (around owner owns) further

/-- Whatever a name is read as in a frame of the machine is in one of its variables. -/
theorem hasVariable_of_read (fits : m.Fits D) {frame : FrameId} (own : D.Own frame)
    {name : Symbol} {v : Value} (done : m.read name frame = .ok v) : m.HasVariable D.Own v := by
  have of_found {found : Option Value} (held : ∀ w, found = some w → m.HasVariable D.Own w)
      (done : Machine.found name found = .ok v) : m.HasVariable D.Own v := by
    cases found with
    | none => cases done
    | some w =>
      cases done
      exact held v rfl
  have around : ∀ parent ∈ m.heap.parent frame, D.Own parent :=
    fun parent known => (fits.parents frame parent own known).1
  -- The branches follow the resolution of the name: local, further out, global or not resolved.
  rw [Machine.read] at done
  split at done
  · cases done
  · split at done
    · split at done
      · next bound =>
        cases done
        exact .slot own bound
      · split at done
        · cases done
        · exact of_found (fun _ found => fits.findAt own found) done
    · exact of_found (fun _ found => fits.findAt own found) done
    · exact of_found (fun _ found => fits.findOutward around found) done
    · exact of_found (fun _ found => fits.findOutward around found) done

/-- So it may be around. -/
theorem read (fits : m.Fits D) {frame : FrameId} (own : D.Own frame) {name : Symbol} {v : Value}
    (done : m.read name frame = .ok v) : D.Admits m.heap v := by
  cases fits.hasVariable_of_read own done with
  | slot inside bound => exact fits.slots _ _ v inside bound
  | global listed => exact fits.globals _ listed

end Machine.Fits

/-- A slot of a machine is bound in its heap. -/
theorem Machine.exists_of_setSlot {m later : Machine} {frame : FrameId} {slot : Nat} {v : Value}
    (bound : m.setSlot frame slot v = .ok later) :
    ∃ heap, m.heap.set frame slot v = .ok heap ∧ later = { m with heap } := by
  rw [setSlot] at bound
  cases changed : m.heap.set frame slot v with
  | error defect => rw [changed] at bound; cases bound
  | ok heap =>
    rw [changed] at bound
    cases bound
    exact ⟨heap, rfl, rfl⟩

namespace Discipline

variable (D : Discipline context base)

/-! ### Machines that follow -/

/-- A machine that fits, with a heap that extends that of `m`. -/
structure Follows (m later : Machine) : Prop where
  fits : later.Fits D
  grows : m.heap.Extends later.heap

variable {D} {m later last : Machine}

theorem Follows.refl (fits : m.Fits D) : D.Follows m m :=
  ⟨fits, .refl _⟩

theorem Follows.trans (first : D.Follows m later) (second : D.Follows later last) :
    D.Follows m last :=
  ⟨second.fits, first.grows.trans second.grows⟩

/-- What a frame was founded on stays while slots are bound and frames are added. -/
theorem Founds.of_extends {heap later : Heap} {before frame : Frame}
    (founds : D.Founds heap before) (grows : heap.Extends later)
    (layout : frame.layout = before.layout) (parent : frame.parent = before.parent)
    (size : frame.slots.length = before.slots.length) : D.Founds later frame := by
  refine ⟨?_, ?_, ?_⟩
  · rw [size, layout]
    exact founds.sized
  · rw [parent, layout]
    exact founds.outermost
  · rw [parent, layout]
    exact fun env known => D.admits_mono grows (founds.inside env known)

/-- Counting and taking identities for lists changes nothing that matters. -/
theorem follows_of_frame_eq (fits : m.Fits D) {heap : Heap}
    (same : heap.frame? = m.heap.frame?) : D.Follows m { m with heap } := by
  have grows : m.heap.Extends heap := Heap.extends_of_frame_eq same
  refine ⟨⟨grows.lt_size fits.begun, ?frames, ?slots, ?parents, ?globals, fits.kept⟩, grows⟩
  case frames =>
    intro id frame own found
    replace found : heap.frame? id = some frame := found
    rw [same] at found
    exact (fits.frames id frame own found).of_extends grows rfl rfl rfl
  case slots =>
    intro id slot v own bound
    rw [Heap.get_eq, same, ← Heap.get_eq] at bound
    exact (fits.slots id slot v own bound).mono grows
  case parents =>
    intro id parent own known
    rw [Heap.parent, same] at known
    exact fits.parents id parent own known
  case globals => exact fun entry member => (fits.globals entry member).mono grows

theorem follows_setSlot (fits : m.Fits D) {frame : FrameId} {slot : Nat} {v : Value}
    (admitted : D.Admits m.heap v) (bound : m.setSlot frame slot v = .ok later) :
    D.Follows m later := by
  obtain ⟨heap, changed, rfl⟩ := Machine.exists_of_setSlot bound
  have grows := Heap.extends_set changed
  refine ⟨⟨grows.lt_size fits.begun, ?frames, ?slots, ?parents, ?globals, fits.kept⟩, grows⟩
  case frames =>
    intro id frame own found
    obtain ⟨before, known, layout, parent, size⟩ := Heap.exists_frame_of_set changed found
    exact (fits.frames id before own known).of_extends grows layout parent size
  case slots =>
    -- Only the slot that was bound has changed.
    intro id index w own read
    rw [Heap.get_set changed] at read
    split at read
    · cases read
      exact admitted.mono grows
    · exact (fits.slots id index w own read).mono grows
  case parents =>
    intro id parent own known
    -- Binding a slot leaves all parents alone.
    have : m.heap.parent id = some parent := by
      rw [← known, Heap.parent, Heap.parent, Heap.frame_set changed]
      by_cases same : id = frame
      · cases m.heap.frame? id <;> simp [same]
      · simp [same]
    exact fits.parents id parent own this
  case globals => exact fun entry member => (fits.globals entry member).mono grows

theorem follows_setGlobal (fits : m.Fits D) {name : Symbol} {v : Value}
    (admitted : D.Admits m.heap v) : D.Follows m (m.setGlobal name v) := by
  refine ⟨⟨fits.begun, fits.frames, fits.slots, fits.parents, ?_, fits.kept⟩, .refl _⟩
  intro entry member
  rcases mem_setEntry member with rfl | old
  · exact admitted
  · exact fits.globals entry old

theorem follows_bindAt (fits : m.Fits D) {place : Option (FrameId × Nat)} {name : Symbol}
    {v : Value} (admitted : D.Admits m.heap v) (done : m.bindAt place name v = .ok later) :
    D.Follows m later := by
  cases place with
  | some place => exact follows_setSlot fits admitted done
  | none =>
    cases done
    exact follows_setGlobal fits admitted

/-! ### Steps -/

variable (D)

/-- From `m` the step leads to a machine that follows, and what it delivers has the
property `Q` there. -/
def Ensures (step : EvalM α) (m : Machine) (Q : α → Machine → Prop) : Prop :=
  match step m with
  | .ok a later => D.Follows m later ∧ Q a later
  | .error _ later => D.Follows m later

variable {D} {Q : α → Machine → Prop} {R : β → Machine → Prop} {step : EvalM α}

theorem Ensures.ok (ensured : D.Ensures step m Q) {a : α} (done : step m = .ok a later) :
    D.Follows m later ∧ Q a later := by
  rw [Ensures] at ensured
  rw [done] at ensured
  exact ensured

theorem Ensures.pure (fits : m.Fits D) {a : α} (holds : Q a m) :
    D.Ensures (Pure.pure a) m Q :=
  ⟨.refl fits, holds⟩

theorem Ensures.stop (fits : m.Fits D) (stop : Stop) : D.Ensures (throw stop) m Q :=
  .refl fits

theorem Ensures.bind {next : α → EvalM β} (first : D.Ensures step m Q)
    (second : ∀ a later, D.Follows m later → Q a later → D.Ensures (next a) later R) :
    D.Ensures (step >>= next) m R := by
  unfold Ensures at first ⊢
  -- The second step starts where the first one ends, if it does not stop there.
  change (match EStateM.bind step next m with | .ok _ _ => _ | .error _ _ => _)
  rw [EStateM.bind]
  cases outcome : step m with
  | error stop later =>
    rw [outcome] at first
    exact first
  | ok a later =>
    rw [outcome] at first
    have rest := second a later first.1 first.2
    rw [Ensures] at rest
    change (match next a later with | .ok _ _ => _ | .error _ _ => _)
    cases final : next a later with
    | ok b last =>
      rw [final] at rest
      exact ⟨first.1.trans rest.1, rest.2⟩
    | error stop last =>
      rw [final] at rest
      exact first.1.trans rest

theorem Ensures.mono {Q' : α → Machine → Prop} (ensured : D.Ensures step m Q)
    (weaker : ∀ a later, D.Follows m later → Q a later → Q' a later) : D.Ensures step m Q' := by
  unfold Ensures at ensured ⊢
  cases outcome : step m with
  | ok a later =>
    rw [outcome] at ensured
    exact ⟨ensured.1, weaker a later ensured.1 ensured.2⟩
  | error stop later =>
    rw [outcome] at ensured
    exact ensured

theorem Ensures.amend {change : Machine → EvalError → EvalError} (ensured : D.Ensures step m Q) :
    D.Ensures (Run.amend change step) m Q := by
  unfold Ensures at ensured ⊢
  rw [Run.amend]
  cases outcome : step m with
  | ok a later => simpa only [outcome] using ensured
  | error stop later =>
    rw [outcome] at ensured
    cases stop <;> exact ensured

theorem Ensures.located {span : Option Span} (ensured : D.Ensures step m Q) :
    D.Ensures (Run.located span step) m Q := by
  cases span with
  | none => exact ensured
  | some span => exact ensured.amend

/-- A computation changes nothing, whatever its failures stop with. -/
theorem Ensures.ofExcept {ε : Type} {stops : ε → Stop} {result : Except ε α} (fits : m.Fits D)
    (holds : ∀ a, result = .ok a → Q a m) : D.Ensures (Run.ofExcept stops result) m Q := by
  cases result with
  | ok a => exact .pure fits (holds a rfl)
  | error e => exact .stop fits _

/-- So what follows it starts where it started. -/
theorem Ensures.afterExcept {ε : Type} {stops : ε → Stop} {result : Except ε α}
    {next : α → EvalM β} (fits : m.Fits D)
    (each : ∀ a, result = .ok a → D.Ensures (next a) m R) :
    D.Ensures (Run.ofExcept stops result >>= next) m R := by
  cases result with
  | ok a => exact each a rfl
  | error e => exact .stop fits _

/-! ### Work on the heap -/

/-- Work on the heap that leaves the frames alone. -/
theorem Ensures.onHeap (fits : m.Fits D) {work : HeapM α} {P : α → Prop}
    (delivers : match work m.heap with
      | .ok a heap => heap.frame? = m.heap.frame? ∧ P a
      | .error _ heap => heap.frame? = m.heap.frame?) :
    D.Ensures (EvalM.onHeap work) m fun a _ => P a := by
  rw [Ensures, EvalM.onHeap, Run.within]
  cases outcome : work m.heap with
  | ok a heap =>
    rw [outcome] at delivers
    exact ⟨follows_of_frame_eq fits delivers.1, delivers.2⟩
  | error stop heap =>
    rw [outcome] at delivers
    exact follows_of_frame_eq fits delivers

theorem attempt_eq (attempt : Attempt α) (heap : Heap) :
    HeapM.attempt attempt heap =
      (match Metered.value attempt with
      | .ok a => .ok a (heap.record (Metered.ticks attempt))
      | .error (.error cause) => .error (.error { cause }) (heap.record (Metered.ticks attempt))
      | .error (.defect defect) =>
        .error (.defect defect) (heap.record (Metered.ticks attempt))) := by
  -- The reads are counted first, then the outcome decides.
  have unfolded : HeapM.attempt attempt heap =
      (match Metered.value attempt with
      | .ok a => pure a
      | .error (.error cause) => Run.fail cause
      | .error (.defect defect) => throw (.defect defect) : HeapM α)
        (heap.record (Metered.ticks attempt)) := rfl
  rw [unfolded]
  rcases Metered.value attempt with (_ | _) | _ <;> rfl

theorem operate_eq (operation : Operation α) (heap : Heap) :
    HeapM.operate operation heap =
      (match HeapM.attempt (operation heap.nextStorage) heap with
      | .ok (a, next) heap => .ok a { heap with nextStorage := next }
      | .error stop heap => .error stop heap) := by
  change EStateM.bind _ _ _ = _
  rw [EStateM.bind]
  rcases HeapM.attempt (operation heap.nextStorage) heap with ⟨a, next⟩ | _ <;> rfl

theorem ensures_attempt (fits : m.Fits D) {attempt : Attempt α} {P : α → Prop}
    (delivers : attempt.Delivers P) :
    D.Ensures (EvalM.onHeap (HeapM.attempt attempt)) m fun a _ => P a := by
  apply Ensures.onHeap fits
  rw [attempt_eq]
  have same := m.heap.frame_record (Metered.ticks attempt)
  rcases outcome : Metered.value attempt with (_ | _) | a
  · exact same
  · exact same
  · exact ⟨same, delivers a outcome⟩

theorem ensures_operate (fits : m.Fits D) {operation : Operation α} {P : α → Prop}
    (delivers : operation.Delivers P) :
    D.Ensures (EvalM.onHeap (HeapM.operate operation)) m fun a _ => P a := by
  apply Ensures.onHeap fits
  rw [operate_eq, attempt_eq]
  have same := m.heap.frame_record (Metered.ticks (operation m.heap.nextStorage))
  -- A fault keeps the counters and gives back the identities.
  rcases outcome : Metered.value (operation m.heap.nextStorage) with (_ | _) | ⟨a, next⟩
  · exact same
  · exact same
  · exact ⟨same, delivers _ (a, next) outcome⟩

theorem ensures_counted (fits : m.Fits D) (mode : Mode) (v : Value) :
    D.Ensures (EvalM.counted mode v) m fun w _ => w.closures = v.closures := by
  rw [EvalM.counted]
  split
  · apply Ensures.onHeap fits
    refine ⟨m.heap.frame_addTrace v, ?_⟩
    change (m.heap.addTrace v).1.closures = v.closures
    rw [Heap.addTrace]
    split
    · exact v.closures_traced _
    · rfl
  · exact .pure fits rfl

end Discipline

end Vectorial
