import Vectorial.Proofs.Evaluation.Nesting
import Vectorial.Proofs.Heap.Collection

/-!
# One interpreter after the other

A host may drop an interpreter and build another of the same program in the same heap, and
keep functions of the first. They remain callable from the second, since what they lead to
is not cleared. Throughout the lives of such interpreters every frame that is around mirrors
the nesting of the functions of the program, and what resolution says of a name, a target or
a literal is found at run time.

## Main definitions

* `Heap.LedTo`: the frames that some closures lead to;
* `Heap.Kin`: closures, and frames they lead to, that belong to a program;
* `Interpreter.Lives`: interpreters of one program, one after the other;
* `Interpreter.Around`: the frames that an interpreter may come to;
* `Interpreter.Passes`: the machines of a session.

## Main results

* `Interpreter.kin_drop`: what a host keeps belongs to the program after the drop as well;
* `Interpreter.frames_mirror_nesting`: frames mirror the nesting of functions in every state.
-/

namespace Vectorial

namespace Heap

variable {heap later : Heap} {top : Expr} {given : List (Layout × FrameId)} {id other : FrameId}

/-! ### What closures lead to -/

/-- Whether closures lead to a frame. -/
def LedTo (heap : Heap) (given : List (Layout × FrameId)) (id : FrameId) : Prop :=
  ∃ c ∈ given, heap.Leads c.2 id

theorem LedTo.of_mem {c : Layout × FrameId} (member : c ∈ given) : heap.LedTo given c.2 :=
  ⟨c, member, .refl⟩

theorem LedTo.step (led : heap.LedTo given other) (refers : id ∈ heap.referencesOf other) :
    heap.LedTo given id := by
  obtain ⟨c, member, leads⟩ := led
  exact ⟨c, member, leads.tail refers⟩

/-- A frame refers to its parent and to the environments of the closures in its slots. -/
theorem mem_referencesOf_iff : id ∈ heap.referencesOf other ↔
    heap.parent other = some id ∨
      ∃ slot v, heap.get other slot = some v ∧ ∃ c ∈ v.closures, c.2 = id := by
  rw [referencesOf_eq, List.mem_append, Option.mem_toList, List.mem_flatMap]
  refine or_congr Iff.rfl ⟨?_, ?_⟩
  · rintro ⟨v, member, held⟩
    rw [v.environments_eq] at held
    obtain ⟨c, inside, same⟩ := List.mem_map.mp held
    rw [valuesOf] at member
    cases found : heap.frame? other with
    | none => simp [found] at member
    | some frame =>
      -- A value of the frame is in one of its slots.
      have bound : some v ∈ frame.slots := by simpa [found, Frame.values] using member
      obtain ⟨slot, known⟩ := List.mem_iff_getElem?.mp bound
      exact ⟨slot, v, by rw [get_eq, found]; simp [known], c, inside, same⟩
  · rintro ⟨slot, v, bound, c, inside, rfl⟩
    refine ⟨v, ?_, ?_⟩
    · rw [get_eq] at bound
      obtain ⟨frame, found, known⟩ := Option.bind_eq_some_iff.mp bound
      have member := List.mem_of_getElem? (Option.join_eq_some_iff.mp known)
      simpa [valuesOf, found, Frame.values] using member
    · rw [v.environments_eq]
      exact List.mem_map_of_mem inside

theorem referencesOf_of_frame_eq (same : later.frame? id = heap.frame? id) :
    later.referencesOf id = heap.referencesOf id := by
  rw [referencesOf, referencesOf, same]

theorem layout_of_frame_eq (same : later.frame? id = heap.frame? id) :
    later.layout? id = heap.layout? id := by
  rw [layout?, layout?, same]

/-- A closure belongs to a program as long as its environment is the same frame. -/
theorem Belongs.of_frame_eq {own wider : FrameId → Prop} {layout : Layout} {env : FrameId}
    (belongs : heap.Belongs top own layout env) (same : later.frame? env = heap.frame? env)
    (led : wider env) : later.Belongs top wider layout env := by
  obtain ⟨outer, known, encloses⟩ := belongs.enclosed
  exact ⟨led, belongs.inside, outer, (layout_of_frame_eq same).trans known, encloses⟩

/-- Closures of the functions of a program, with all frames that they lead to. -/
structure Kin (heap : Heap) (top : Expr) (given : List (Layout × FrameId)) : Prop where
  belongs : ∀ c ∈ given, heap.Belongs top (heap.LedTo given) c.1 c.2
  mirrors : heap.Mirrors top (heap.LedTo given)
  sized : ∀ id frame, heap.LedTo given id → heap.frame? id = some frame →
    frame.slots.length = frame.layout.frameSize
  slots : ∀ id slot v, heap.LedTo given id → heap.get id slot = some v →
    ∀ c ∈ v.closures, heap.Belongs top (heap.LedTo given) c.1 c.2

/-- No closures lead nowhere. -/
theorem kin_nil (heap : Heap) (top : Expr) : heap.Kin top [] := by
  have nowhere (id : FrameId) : ¬heap.LedTo [] id := by
    rintro ⟨c, member, -⟩
    cases member
  refine ⟨fun c member => (List.not_mem_nil member).elim, ?_, ?_, ?_⟩
  · exact fun id _ led => absurd led (nowhere id)
  · exact fun id _ led => absurd led (nowhere id)
  · exact fun id _ _ led => absurd led (nowhere id)

end Heap

namespace Interpreter

open Heap

variable {settings : Settings} {heap : Heap} {interpreter : Interpreter} {top : Expr}
variable {given : List (Layout × FrameId)} {requests : List Request}

/-! ### The life of an interpreter -/

/-- The frames that an interpreter may come to that was built in the heap: its own, and those
that closures of others lead to. -/
def Around (interpreter : Interpreter) (heap : Heap) (given : List (Layout × FrameId))
    (id : FrameId) : Prop :=
  interpreter.root ≤ id ∨ heap.LedTo given id

/-- An interpreter that is built where the closures of others belong to its program keeps frames
nested, together with these closures. -/
theorem fits_of_kin (built : build settings heap = .ok interpreter) {edition : Nat}
    (resolved : Program.resolve edition settings.top = .ok interpreter.context.program)
    (once : settings.top.literals.Nodup) (kin : heap.Kin settings.top given)
    (globals : ∀ entry ∈ settings.globals, entry.2.closures ⊆ given) :
    interpreter.Fits (.mirroring interpreter.context interpreter.root settings.top
      (heap.LedTo given) edition resolved once) given := by
  obtain ⟨program, -, rfl⟩ := build_eq_ok built
  let frame := Frame.unbound program.toplevel none
  have grows : heap.Extends (heap.allocate frame).2 := heap.extends_allocate frame
  have admitted (c : Layout × FrameId)
      (belongs : heap.Belongs settings.top (heap.LedTo given) c.1 c.2) :
      (heap.allocate frame).2.Belongs settings.top
        (fun id => heap.frames.size ≤ id ∨ heap.LedTo given id) c.1 c.2 :=
    belongs.mono grows .inr
  refine fits_of_build_among built ⟨edition, program, resolved, rfl⟩ ?frames ?slots ?parents
    ?globals ?placed ?admitted
  case frames =>
    intro id old led found
    refine ⟨kin.sized id old led found, fun alone => ?_, fun env inside => ?_⟩
    · rcases kin.mirrors id old led found with ⟨-, outermost⟩ | ⟨env, _, parent, -⟩
      · exact outermost
      · rw [alone] at parent
        cases parent
    -- The frame around one inside another is led to as well, and so it is nested by the program.
    · rcases kin.mirrors id old led found with
        ⟨no_parent, -⟩ | ⟨env, outer, parent, env_led, -, known, encloses, of_program⟩
      · rw [no_parent] at inside
        cases inside
      · rw [parent] at inside
        cases inside
        exact admitted (old.layout, env) ⟨env_led, of_program, outer, known, encloses⟩
  case slots =>
    exact fun id slot v led bound c held => admitted c (kin.slots id slot v led bound c held)
  case parents =>
    intro id parent led known
    obtain ⟨old, found, inside⟩ := Option.bind_eq_some_iff.mp known
    rcases kin.mirrors id old led found with ⟨no_parent, -⟩ | ⟨env, _, same, env_led, older, -⟩
    · rw [no_parent] at inside
      cases inside
    · rw [same] at inside
      cases inside
      exact ⟨.inr env_led, older⟩
  case globals =>
    exact fun entry listed c held => admitted c (kin.belongs c (globals entry listed held))
  case placed =>
    have root : (heap.allocate frame).2.frame? heap.frames.size = some frame := by
      rw [Heap.frame_allocate, if_pos rfl]
    exact ⟨.inl (Nat.le_refl _), program.toplevel, Heap.layout_of_frame root,
      .inl ⟨edition, program, resolved, rfl⟩, program.toplevel.body, Discipline.body_mem_ownText,
      .self⟩
  case admitted => exact fun c member => admitted c (kin.belongs c member)

/-- What the host keeps when an interpreter is dropped belongs to the program afterwards, if the
interpreter kept frames nested. -/
theorem kin_drop {context : Context} {base : FrameId} {guests : FrameId → Prop} {edition : Nat}
    {resolved : Program.resolve edition top = .ok context.program} {once : top.literals.Nodup}
    {outside : Holders} {kept : List (Layout × FrameId)}
    (fits : interpreter.Fits (.mirroring context base top guests edition resolved once) given)
    (known : ∀ c ∈ kept, c ∈ given ∨ interpreter.Holds c)
    (held : ∀ c ∈ kept, c.2 ∈ outside.references) : (interpreter.drop outside).Kin top kept := by
  let later := interpreter.drop outside
  let own : FrameId → Prop := fun id => base ≤ id ∨ guests id
  have mirrors : interpreter.machine.heap.Mirrors top own := fits.machine.mirrors
  have belongs (c : Layout × FrameId) (member : c ∈ kept) :
      interpreter.machine.heap.Belongs top own c.1 c.2 := by
    rcases known c member with old | holds
    · exact fits.given c old
    · exact fits.admits_of_holds holds
  have own_of_refers {other id : FrameId} (inside : own other)
      (refers : id ∈ interpreter.machine.heap.referencesOf other) : own id := by
    rcases mem_referencesOf_iff.mp refers with parent | ⟨slot, v, bound, c, listed, rfl⟩
    · exact (fits.machine.parents other id inside parent).1
    · exact (fits.machine.slots other slot v inside bound c listed).own
  -- What is kept leads where it led before the drop, to frames that are as they were.
  have spared {id : FrameId} (led : later.LedTo kept id) :
      own id ∧ later.frame? id = interpreter.machine.heap.frame? id := by
    obtain ⟨c, member, leads⟩ := led
    suffices before : own id ∧ interpreter.machine.heap.Leads c.2 id from
      ⟨before.1, interpreter.frame_drop (held c member) before.2⟩
    induction leads with
    | refl => exact ⟨(belongs c member).own, .refl⟩
    | tail _ refers ih =>
      have same := interpreter.frame_drop (held c member) ih.2
      rw [referencesOf_of_frame_eq same] at refers
      exact ⟨own_of_refers ih.1 refers, ih.2.tail refers⟩
  have still {layout : Layout} {env : FrameId} (led : later.LedTo kept env)
      (before : interpreter.machine.heap.Belongs top own layout env) :
      later.Belongs top (later.LedTo kept) layout env :=
    before.of_frame_eq (spared led).2 led
  refine ⟨fun c member => still (.of_mem member) (belongs c member), ?_, ?_, ?_⟩
  · intro id frame led found
    obtain ⟨inside, same⟩ := spared led
    rw [same] at found
    refine (mirrors id frame inside found).imp_right ?_
    rintro ⟨env, outer, parent, -, older, outer_known, encloses, of_program⟩
    have env_led : later.LedTo kept env := led.step <| by
      rw [referencesOf_of_frame_eq same]
      exact mem_referencesOf_iff.mpr (.inl ((parent_of_frame found).trans parent))
    exact ⟨env, outer, parent, env_led, older,
      (layout_of_frame_eq (spared env_led).2).trans outer_known, encloses, of_program⟩
  · intro id frame led found
    obtain ⟨inside, same⟩ := spared led
    rw [same] at found
    exact (fits.machine.frames id frame inside found).sized
  · intro id slot v led bound c listed
    obtain ⟨inside, same⟩ := spared led
    rw [get_of_frame_eq same] at bound
    refine still (led.step ?_) (fits.machine.slots id slot v inside bound c listed)
    rw [referencesOf_of_frame_eq same]
    exact mem_referencesOf_iff.mpr (.inr ⟨slot, v, bound, c, listed, rfl⟩)

/-- The heap and the closures that a host has when interpreters of one program have lived, one
after the other. The host keeps closures that it was given or that the interpreter has in a
variable, and holds them while the interpreter is dropped. -/
inductive Lives (top : Expr) : Heap → List (Layout × FrameId) → Prop where
  | start (heap : Heap) : Lives top heap []
  | next {heap : Heap} {given kept : List (Layout × FrameId)} {settings : Settings}
      {interpreter : Interpreter} {requests : List Request} {outside : Holders} :
      Lives top heap given → build settings heap = .ok interpreter → settings.top = top →
      settings.builtins.HandsOn → (∀ entry ∈ settings.globals, entry.2.closures ⊆ given) →
      interpreter.Honest given requests →
      (∀ c ∈ kept, c ∈ given ++ (interpreter.answers requests).flatMap closuresOfAnswer ∨
        (interpreter.after requests).Holds c) →
      (∀ c ∈ kept, c.2 ∈ outside.references) →
      Lives top ((interpreter.after requests).drop outside) kept

theorem context_of_build (built : build settings heap = .ok interpreter) :
    interpreter.context.builtins = settings.builtins ∧
      ∃ edition, Program.resolve edition settings.top = .ok interpreter.context.program := by
  obtain ⟨program, resolved, rfl⟩ := build_eq_ok built
  exact ⟨rfl, _, resolved⟩

/-- The closures of a host belong to the program throughout. -/
theorem kin_of_lives (once : top.literals.Nodup) (lives : Lives top heap given) :
    heap.Kin top given := by
  -- From one interpreter to the next.
  induction lives with
  | start heap => exact kin_nil heap top
  | next _ built same handsOn globals honest known held ih =>
    subst same
    obtain ⟨builtins, edition, resolved⟩ := context_of_build built
    have fits := fits_of_kin built resolved once ih globals
    rw [← builtins] at handsOn
    exact kin_drop (fits_after_answers handsOn fits honest) known held

/-! ### Every state -/

/-- The machines of a session: those at its moments, those that the evaluations begun there leave
behind, and the one after the session. -/
inductive Passes (interpreter : Interpreter) (requests : List Request) : Machine → Prop where
  | moment {moment : Moment} :
      interpreter.Evaluates requests moment → Passes interpreter requests moment.machine
  | result {moment : Moment} {depth : Nat} {v : Value} {m : Machine} :
      interpreter.Evaluates requests moment →
      EvalM.eval interpreter.context depth moment.expr moment.frame moment.machine = .ok v m →
      Passes interpreter requests m
  | stopped {moment : Moment} {depth : Nat} {stop : Stop} {m : Machine} :
      interpreter.Evaluates requests moment →
      EvalM.eval interpreter.context depth moment.expr moment.frame moment.machine =
        .error stop m →
      Passes interpreter requests m
  | last : Passes interpreter requests (interpreter.after requests).machine

/-- A discipline is kept by every machine of an honest session. -/
theorem fits_of_passes {context : Context} {base : FrameId} {D : Discipline context base}
    (handsOn : context.builtins.HandsOn) (fits : interpreter.Fits D given)
    (honest : interpreter.Honest given requests) {m : Machine}
    (passes : interpreter.Passes requests m) : m.Fits D := by
  have allowed {moment : Moment} (evaluates : interpreter.Evaluates requests moment) :
      D.Allowed moment :=
    allowed_of_evaluates handsOn fits honest evaluates
  -- Evaluation at a moment keeps the discipline, however it ends.
  have sound {moment : Moment} (evaluates : interpreter.Evaluates requests moment) (depth : Nat) :
      D.Ensures (EvalM.eval interpreter.context depth moment.expr moment.frame) moment.machine
        fun v later => D.Admits later.heap v := by
    rw [fits.same_context]
    exact Discipline.sound_eval handsOn depth _ _ _ (allowed evaluates).fits
      (allowed evaluates).placed
  cases passes with
  | moment evaluates => exact (allowed evaluates).fits
  | @result _ depth _ _ evaluates done => exact ((sound evaluates depth).ok done).1.fits
  | @stopped _ depth _ _ evaluates done =>
    have ensured := sound evaluates depth
    rw [Discipline.Ensures, done] at ensured
    exact ensured.fits
  | last => exact (fits_after_answers handsOn fits honest).machine

/-- Frames mirror the nesting of functions. In every state of an interpreter, also of one that was
built after others of the same program, each frame that is around is of the outermost level, or it
lies in a frame of the function that has its function's literal in its text; and every address
further out that a frame is sent to leads to a frame that has the name in that slot. So nothing
that is evaluated was missed by resolution: a name has a resolution, the target of an assignment a
slot of the frame, which is what the assignment binds, and a function literal has a layout. -/
theorem frames_mirror_nesting
    (lives : Lives settings.top heap given) (built : build settings heap = .ok interpreter)
    (once : settings.top.literals.Nodup) (handsOn : settings.builtins.HandsOn)
    (globals : ∀ entry ∈ settings.globals, entry.2.closures ⊆ given)
    (honest : interpreter.Honest given requests) :
    (∀ m, interpreter.Passes requests m →
      m.heap.Mirrors settings.top (interpreter.Around heap given) ∧
      ∀ id layout address, interpreter.Around heap given id → m.heap.layout? id = some layout →
        layout.Consults address →
        ∃ owner around, m.heap.ancestor id address.hops = some owner ∧
          m.heap.layout? owner = some around ∧ around.slotOf address.name = some address.slot) ∧
    (∀ moment, interpreter.Evaluates requests moment →
      interpreter.Around heap given moment.frame) ∧
    (∀ site name frame m, interpreter.Evaluates requests ⟨.ident site name, frame, m⟩ →
      ∃ layout resolution, m.heap.layout? frame = some layout ∧
        layout.resolveRead name = some resolution) ∧
    (∀ site target value frame m,
      interpreter.Evaluates requests ⟨.assign site target value, frame, m⟩ →
      ∃ layout slot, m.heap.layout? frame = some layout ∧ layout.slotOf target = some slot ∧
        ∀ depth v later, EvalM.eval interpreter.context depth value frame m = .ok v later →
          later.assign target v frame = later.setSlot frame slot v) ∧
    ∀ site params body frame m,
      interpreter.Evaluates requests ⟨.function site params body, frame, m⟩ →
      ∃ layout, interpreter.context.program.layout? site.id = some layout := by
  obtain ⟨builtins, edition, resolved⟩ := context_of_build built
  have fits := fits_of_kin built resolved once (kin_of_lives once lives) globals
  rw [← builtins] at handsOn
  have mirrors (m : Machine) (passes : interpreter.Passes requests m) :
      m.heap.Mirrors settings.top (interpreter.Around heap given) :=
    (fits_of_passes handsOn fits honest passes).mirrors
  -- The function whose text has the expression, laid out as the frames around are nested.
  have stands (moment : Moment) (evaluates : interpreter.Evaluates requests moment) :
      ∃ layout outer, moment.machine.heap.layout? moment.frame = some layout ∧
        interpreter.context.program.Lays outer layout ∧
        ∃ root ∈ ownText layout.params layout.body, root.Within moment.expr := by
    obtain ⟨own, layout, known, -, text⟩ :=
      (allowed_of_evaluates handsOn fits honest evaluates).placed
    obtain ⟨outer, lays, -⟩ := (mirrors _ (.moment evaluates)).lays once own known
    exact ⟨layout, outer, known, lays edition _ resolved, text⟩
  refine ⟨fun m passes => ⟨mirrors m passes, fun id layout address around known consults => ?_⟩,
    ?_, ?_, ?_, ?_⟩
  · exact (mirrors m passes).owner_of_consults once resolved around known consults
  · intro moment evaluates
    exact (allowed_of_evaluates handsOn fits honest evaluates).placed.own
  · intro site name frame m evaluates
    obtain ⟨layout, outer, known, lays, root, text, within⟩ := stands _ evaluates
    exact ⟨layout, _, known, lays.resolveRead_of_within text within⟩
  · intro site target value frame m evaluates
    obtain ⟨layout, outer, known, lays, root, text, within⟩ := stands _ evaluates
    obtain ⟨slot, found⟩ := Option.isSome_iff_exists.mp
      (List.isSome_idxOf?.mpr (lays.mem_locals_of_within text within))
    rw [← lays.slotOf_eq] at found
    refine ⟨layout, slot, known, found, fun depth v later done => ?_⟩
    -- The value is evaluated first, which leaves the layout of the frame as it is.
    obtain ⟨fits_moment, placed⟩ := allowed_of_evaluates handsOn fits honest evaluates
    have part : value ∈ (Expr.assign site target value).parts := List.mem_singleton_self value
    have follows := ((Discipline.sound_eval handsOn depth _ _ _ fits_moment
      (Discipline.places_part _ placed part)).ok done).1
    rw [Machine.assign, Machine.localSlot, follows.grows.layout known, Option.bind_some, found]
    rfl
  · intro site params body frame m evaluates
    obtain ⟨layout, outer, known, lays, root, text, within⟩ := stands _ evaluates
    obtain ⟨inner, listed, same, -⟩ := lays.function text within
    rw [← same]
    exact ⟨inner, Program.layout?_of_mem resolved once listed⟩

/-- The program `(function() function() y)()`. -/
def functionInCall : Expr :=
  .call ⟨4, default⟩ (.function ⟨3, default⟩ []
    (.function ⟨2, default⟩ [] (.ident ⟨1, default⟩ "y"))) []

/-- While the inner literal is evaluated the frame of the call is nested as it is, and the literal
has a layout. -/
theorem frames_mirror_nesting_functionInCall :
    ∃ interpreter m layout,
      build { top := functionInCall } .empty = .ok interpreter ∧
      interpreter.Evaluates [.run 2]
        ⟨.function ⟨2, default⟩ [] (.ident ⟨1, default⟩ "y"), 1, m⟩ ∧
      m.heap.Mirrors functionInCall (interpreter.Around .empty []) ∧
      interpreter.Around .empty [] 1 ∧
      interpreter.context.program.layout? 2 = some layout := by
  obtain ⟨interpreter, m, built, evaluates⟩ :
      ∃ interpreter m, build { top := functionInCall } .empty = .ok interpreter ∧
        interpreter.Evaluates [.run 2]
          ⟨.function ⟨2, default⟩ [] (.ident ⟨1, default⟩ "y"), 1, m⟩ :=
    ⟨_, _, rfl, .inl (.run (.inside (.call rfl rfl (.body rfl rfl)) .here))⟩
  have honest : interpreter.Honest [] [.run 2] :=
    ⟨fun _ handed => (List.not_mem_nil handed).elim, trivial⟩
  obtain ⟨mirrors, around, -, -, literals⟩ := frames_mirror_nesting (.start .empty) built
    (by decide) Registry.standard_handsOn (by simp) honest
  obtain ⟨layout, known⟩ := literals _ _ _ _ _ evaluates
  exact ⟨interpreter, m, layout, built, evaluates, (mirrors m (.moment evaluates)).1,
    around _ evaluates, known⟩

end Interpreter

end Vectorial
