import Vectorial.Proofs.Evaluation.Arena
import Vectorial.Proofs.Lives

/-!
# Closures survive their interpreters

Interpreters of several programs may live side by side in one heap, if the nodes of their
programs are of one arena. The host hands the closures of one to another, and drops
interpreters while it goes on holding closures of theirs. A closure that is called by another
interpreter than its own does what it would have done there, as far as the other one has the
same global variables and lays out the function literals in its text alike.

## Main definitions

* `World`: interpreters that share a heap, and what their host was given;
* `World.Arises`: the worlds that come about over an arena;
* `Heap.Meets`: the closures that a call may come to;
* `Interpreter.SameButResolutions`: calls that end alike.

## Main results

* `World.sound_of_arises`: what is around in a world belongs to its arena;
* `World.closures_survive`: a call by another interpreter ends alike.
-/

namespace Vectorial

/-! ### Interpreters over an arena -/

namespace Arena

variable (arena : Arena) {base : FrameId} {interpreter : Interpreter}

/-- Whether all closures in a value are of the arena, and over frames that are not older than the
first one of a world. -/
def Owns (base : FrameId) (v : Value) : Prop :=
  ∀ c ∈ v.closures, arena.Lays c.1 ∧ base ≤ c.2

/-- Whether an interpreter is of a program over the arena, and has nothing else. -/
structure Runs (base : FrameId) (interpreter : Interpreter) : Prop where
  resolves : arena.Resolves interpreter.context.program
  disregards : interpreter.context.builtins.Disregards .resolutions
  handsOn : interpreter.context.builtins.HandsOn
  root : base ≤ interpreter.root
  globals : ∀ name v, interpreter.machine.global? name = some v → arena.Owns base v
  right : arena.Right interpreter.context.builtins interpreter.machine.cache
  stack : interpreter.machine.stack = { limit := interpreter.context.mode.limit }

/-- All frames of a world, for one of its interpreters. -/
def own (base : FrameId) (interpreter : Interpreter) : Region .resolutions :=
  arena.region interpreter.context.builtins interpreter.context.program interpreter.context.program
    base (base ≤ ·) ([], []) fun _ le => le

variable {arena}

theorem admits_own_iff {v : Value} : (arena.own base interpreter).Admits v ↔ arena.Owns base v := by
  constructor
  · exact fun admitted c held => ⟨(admitted c held).1.1, (admitted c held).2⟩
  · intro owns c held
    obtain ⟨lays, le⟩ := owns c held
    exact ⟨⟨lays, fun e _ => interpreter.context.program.laysAlike_self e⟩, le⟩

end Arena

namespace Interpreter

/-- The interpreter in a heap that others may have changed. -/
def on (heap : Heap) (interpreter : Interpreter) : Interpreter :=
  { interpreter with machine := { interpreter.machine with heap } }

end Interpreter

/-! ### Worlds -/

/-- Interpreters that share a heap, and the closures that their host was given. An interpreter
that was dropped stays among them, so that it can be told what it would have done. -/
structure World where
  heap : Heap
  interpreters : List Interpreter
  given : List (Layout × FrameId)

namespace World

/-- The closures that a host can get hold of: those it was given, and those in variables. -/
def Knows (w : World) (base : FrameId) (c : Layout × FrameId) : Prop :=
  c ∈ w.given ∨
    (∃ i ∈ w.interpreters, ∃ name v, i.machine.global? name = some v ∧ c ∈ v.closures) ∨
    ∃ id slot v, base ≤ id ∧ w.heap.get id slot = some v ∧ c ∈ v.closures

/-- The worlds that come about over an arena, in a heap that has frames of others. The host builds
interpreters of programs of the arena, asks them something that is answered, takes what they have
reported, and drops them; and it makes values, which takes storages and counters. Builtins that
the host brings along hand on no closures but those they are given, and do not look at the
resolution that a closure comes from. -/
inductive Arises (arena : Arena) (before : Heap) : World → Prop where
  | start : Arises arena before ⟨before, [], []⟩
  | build {w : World} {settings : Interpreter.Settings} {interpreter : Interpreter}
      (earlier : Arises arena before w) (held : arena.holds settings.top)
      (disregards : settings.builtins.Disregards .resolutions)
      (handsOn : settings.builtins.HandsOn)
      (globals : ∀ entry ∈ settings.globals, ∀ c ∈ entry.2.closures, w.Knows before.frames.size c)
      (built : Interpreter.build settings w.heap = .ok interpreter) :
      Arises arena before ⟨interpreter.machine.heap, w.interpreters ++ [interpreter], w.given⟩
  | serve {w : World} {number : Nat} {interpreter : Interpreter} {request : Request}
      {answer : Except Stop Value} {after : Interpreter}
      (earlier : Arises arena before w) (listed : w.interpreters[number]? = some interpreter)
      (honest : ∀ c ∈ request.closures, w.Knows before.frames.size c)
      (served : (interpreter.on w.heap).serve request = (answer, after))
      (final : Interpreter.Final answer) :
      Arises arena before
        ⟨after.machine.heap, w.interpreters.set number after, w.given ++ closuresOfAnswer answer⟩
  | takeDiagnostics {w : World} {number : Nat} {interpreter : Interpreter}
      (earlier : Arises arena before w) (listed : w.interpreters[number]? = some interpreter) :
      Arises arena before
        { w with interpreters := w.interpreters.set number interpreter.takeDiagnostics.2 }
  | drop {w : World} {interpreter : Interpreter} {outside : Holders}
      (earlier : Arises arena before w) (listed : interpreter ∈ w.interpreters) :
      Arises arena before { w with heap := (interpreter.on w.heap).drop outside }
  | prepare {w : World} {storage : StorageId} {traces : Array Trace}
      (earlier : Arises arena before w) :
      Arises arena before { w with heap := { w.heap with nextStorage := storage, traces } }

/-- What is around in a world belongs to the arena. -/
structure Sound (arena : Arena) (before : Heap) (w : World) : Prop where
  older : before.frames.size ≤ w.heap.frames.size
  slots : ∀ id slot v, before.frames.size ≤ id → w.heap.get id slot = some v →
    arena.Owns before.frames.size v
  parents : ∀ id parent, before.frames.size ≤ id → w.heap.parent id = some parent →
    before.frames.size ≤ parent
  runs : ∀ i ∈ w.interpreters, arena.Runs before.frames.size i
  given : ∀ c ∈ w.given, arena.Lays c.1 ∧ before.frames.size ≤ c.2

variable {arena : Arena} {before : Heap} {w : World}

namespace Sound

/-- What a host can get hold of belongs to the arena. -/
theorem of_knows (sound : w.Sound arena before) {c : Layout × FrameId}
    (known : w.Knows before.frames.size c) : arena.Lays c.1 ∧ before.frames.size ≤ c.2 := by
  rcases known with given | ⟨i, listed, name, v, bound, held⟩ | ⟨id, slot, v, le, bound, held⟩
  · exact sound.given c given
  · exact (sound.runs i listed).globals name v bound c held
  · exact sound.slots id slot v le bound c held

/-- All frames of a world are closed for any of its interpreters. -/
theorem closed (sound : w.Sound arena before) (interpreter : Interpreter) :
    (arena.own before.frames.size interpreter).Closed w.heap where
  base := sound.older
  slots id slot v le bound := Arena.admits_own_iff.mpr (sound.slots id slot v le bound)
  parents := sound.parents

theorem start : Sound arena before ⟨before, [], []⟩ := by
  refine ⟨Nat.le_refl _, ?slots, ?parents, ?runs, ?given⟩
  case slots =>
    intro id slot v le bound
    rw [Heap.get_eq, Heap.frame_eq_none_iff.mpr le] at bound
    cases bound
  case parents =>
    intro id parent le known
    rw [Heap.parent, Heap.frame_eq_none_iff.mpr le] at known
    cases known
  case runs => exact fun _ nothing => (List.not_mem_nil nothing).elim
  case given => exact fun _ nothing => (List.not_mem_nil nothing).elim

/-- A new interpreter has its own frame, in which nothing is bound, and global variables that the
host has set. -/
theorem build (sound : w.Sound arena before) {settings : Interpreter.Settings}
    {interpreter : Interpreter} (held : arena.holds settings.top)
    (disregards : settings.builtins.Disregards .resolutions) (handsOn : settings.builtins.HandsOn)
    (globals : ∀ entry ∈ settings.globals, ∀ c ∈ entry.2.closures, w.Knows before.frames.size c)
    (built : Interpreter.build settings w.heap = .ok interpreter) :
    Sound arena before
      ⟨interpreter.machine.heap, w.interpreters ++ [interpreter], w.given⟩ := by
  obtain ⟨program, resolved, rfl⟩ := Interpreter.build_eq_ok built
  refine ⟨?older, ?slots, ?parents, ?runs, sound.given⟩
  case older => exact Nat.le_trans sound.older (by simp [Interpreter.ofProgram, Heap.allocate])
  case slots =>
    exact fun id slot v le bound =>
      sound.slots id slot v le (Heap.get_of_get_allocate_unbound bound).2
  case parents =>
    exact fun id parent le known =>
      sound.parents id parent le (Heap.parent_of_parent_allocate_unbound known).2
  case runs =>
    intro i listed
    rcases List.mem_append.mp listed with old | new
    · exact sound.runs i old
    · cases List.mem_singleton.mp new
      refine ⟨⟨_, _, held, resolved⟩, disregards, handsOn, sound.older, ?_, ?_, rfl⟩
      · intro name v bound c inside
        obtain ⟨entry, found, rfl⟩ := Option.map_eq_some_iff.mp bound
        -- A global is given by the host or a builtin.
        rcases Interpreter.mem_foldl_setEntry (List.mem_of_find?_eq_some found) with host | builtin
        · exact sound.of_knows (globals entry host c inside)
        · obtain ⟨visible, -, rfl⟩ := List.mem_map.mp builtin
          rw [Value.closures_builtin] at inside
          cases inside
      · intro entries kept entry listed
        replace kept : (if settings.keepsBindings then some [] else none) = some entries := kept
        split at kept
        · cases kept
          cases listed
        · cases kept

/-- The machine of an interpreter in the heap of the world has only what belongs to the arena. -/
theorem machines (sound : w.Sound arena before) {interpreter : Interpreter}
    (runs : arena.Runs before.frames.size interpreter) :
    (arena.own before.frames.size interpreter).Machines (interpreter.on w.heap).machine
      (interpreter.on w.heap).machine where
  heap := .of_closed (sound.closed interpreter) (fun _ _ => rfl) rfl rfl rfl
  globals name := Region.rel_of_left rfl fun v bound =>
    Arena.admits_own_iff.mpr (runs.globals name v bound)
  stack := rfl
  cache := ⟨runs.right, runs.right⟩
  activations := ⟨interpreter.machine.activations, (List.append_nil _).symm,
    (List.append_nil _).symm⟩

/-- An honest request hands in what belongs to the arena. -/
theorem request_alike (sound : w.Sound arena before) (interpreter : Interpreter) {request : Request}
    (honest : ∀ c ∈ request.closures, w.Knows before.frames.size c) :
    Request.Alike (arena.own before.frames.size interpreter).Values request request := by
  have values {v : Value} (handed : v.closures ⊆ request.closures) :
      (arena.own before.frames.size interpreter).Values v v :=
    ⟨rfl, Arena.admits_own_iff.mpr fun c held => sound.of_knows (honest c (handed held))⟩
  cases request with
  | run depth => exact .run depth
  | call depth callee actuals =>
    refine .call depth (values (List.subset_append_left _ _)) (List.forall₂_same.mpr ?_)
    intro part listed
    refine ⟨rfl, values (List.Subset.trans ?_ (List.subset_append_right _ _))⟩
    exact fun c held => List.mem_flatMap.mpr ⟨part, listed, held⟩
  | setGlobal name v => exact .setGlobal name (values (List.Subset.refl _))

/-- What is answered belongs to the arena, and so does what the interpreter has afterwards. -/
theorem serve (sound : w.Sound arena before) {number : Nat} {interpreter after : Interpreter}
    {request : Request} {answer : Except Stop Value}
    (listed : w.interpreters[number]? = some interpreter)
    (honest : ∀ c ∈ request.closures, w.Knows before.frames.size c)
    (served : (interpreter.on w.heap).serve request = (answer, after))
    (final : Interpreter.Final answer) :
    Sound arena before ⟨after.machine.heap, w.interpreters.set number after,
      w.given ++ closuresOfAnswer answer⟩ := by
  have runs := sound.runs interpreter (List.mem_of_getElem? listed)
  obtain ⟨edition, top, held, resolved⟩ := runs.resolves
  have text : (arena.own before.frames.size interpreter).texts
      interpreter.context.program.toplevel.body := by
    rw [Program.body_toplevel resolved]
    exact ⟨held, interpreter.context.program.laysAlike_self top⟩
  have laws : (arena.own before.frames.size interpreter).Laws (interpreter.on w.heap).context
      (interpreter.on w.heap).context :=
    arena.laws runs.resolves rfl rfl runs.disregards runs.handsOn
  -- Serving is followed beside itself, so that everything stays in the region.
  have beside : Interpreter.Alongside (arena.own before.frames.size interpreter).Machines
      (interpreter.on w.heap) (interpreter.on w.heap) := ⟨rfl, sound.machines runs, rfl, rfl⟩
  obtain ⟨answers, alongside⟩ := Region.serve laws rfl beside runs.root text
    (sound.request_alike interpreter honest)
  have stack := ((interpreter.on w.heap).keepsStack_serve request).same
  obtain ⟨context, root⟩ := (interpreter.on w.heap).context_serve request
  rw [served] at answers alongside stack context root
  have closed := alongside.machine.heap.closed
  refine ⟨closed.base, fun id slot v le bound => ?_, closed.parents, ?_, ?_⟩
  · exact Arena.admits_own_iff.mp (closed.slots id slot v le bound)
  · intro i member
    rcases List.mem_or_eq_of_mem_set member with old | rfl
    · exact sound.runs i old
    · refine
        { resolves := context ▸ runs.resolves
          disregards := context ▸ runs.disregards
          handsOn := context ▸ runs.handsOn
          root := root ▸ runs.root
          globals := fun name v bound => ?_
          right := context ▸ alongside.machine.cache.1
          stack := by rw [context, stack final]; exact runs.stack }
      exact Arena.admits_own_iff.mp (Region.admits_of_rel (alongside.machine.globals name) v bound)
  · intro c member
    rcases List.mem_append.mp member with old | new
    · exact sound.given c old
    · cases answers with
      | error stop => cases new
      | ok values => exact Arena.admits_own_iff.mp values.admitted c new

/-- Reports that are taken change nothing that evaluation depends on. -/
theorem takeDiagnostics (sound : w.Sound arena before) {number : Nat} {interpreter : Interpreter}
    (listed : w.interpreters[number]? = some interpreter) :
    Sound arena before
      { w with interpreters := w.interpreters.set number interpreter.takeDiagnostics.2 } := by
  refine { sound with runs := fun i member => ?_ }
  have runs := sound.runs interpreter (List.mem_of_getElem? listed)
  rcases List.mem_or_eq_of_mem_set member with old | rfl
  · exact sound.runs i old
  · exact { runs with }

/-- Dropping an interpreter clears some frames and leaves the others as they are. -/
theorem drop (sound : w.Sound arena before) (interpreter : Interpreter) (outside : Holders) :
    Sound arena before { w with heap := (interpreter.on w.heap).drop outside } := by
  obtain ⟨size, -, -⟩ := Heap.collect_keeps w.heap
    ((interpreter.on w.heap).liveActivations outside ++ [interpreter.root])
    (interpreter.machine.globals.map Prod.snd) outside
  have frame (id : FrameId) :
      ((interpreter.on w.heap).drop outside).frame? id = (w.heap.frame? id).map Frame.cleared ∨
        ((interpreter.on w.heap).drop outside).frame? id = w.heap.frame? id := by
    rw [Interpreter.drop, Heap.frame_collect]
    split
    · exact .inl rfl
    · exact .inr rfl
  -- A frame that is cleared holds nothing and leads nowhere.
  refine ⟨?_, fun id slot v le bound => ?_, fun id parent le known => ?_, sound.runs, sound.given⟩
  · exact sound.older.trans_eq size.symm
  · rcases frame id with cleared | same
    · rw [Heap.get_eq, cleared] at bound
      cases found : w.heap.frame? id <;> simp [found, Frame.cleared] at bound
    · exact sound.slots id slot v le ((Heap.get_of_frame_eq same slot).symm.trans bound)
  · rcases frame id with cleared | same
    · rw [Heap.parent, cleared] at known
      cases found : w.heap.frame? id <;> simp [found, Frame.cleared] at known
    · rw [Heap.parent, same] at known
      exact sound.parents id parent le known

theorem prepare (sound : w.Sound arena before) (storage : StorageId) (traces : Array Trace) :
    Sound arena before { w with heap := { w.heap with nextStorage := storage, traces } } :=
  ⟨sound.older, sound.slots, sound.parents, sound.runs, sound.given⟩

end Sound

/-- Whatever comes about over an arena is sound. -/
theorem sound_of_arises (arises : Arises arena before w) : w.Sound arena before := by
  induction arises with
  | start => exact .start
  | build _ held disregards handsOn globals built ih =>
    exact ih.build held disregards handsOn globals built
  | serve _ listed honest served final ih => exact ih.serve listed honest served final
  | takeDiagnostics _ listed ih => exact ih.takeDiagnostics listed
  | @drop w interpreter outside _ _ ih => exact ih.drop interpreter outside
  | prepare _ ih => exact ih.prepare _ _

/-! ### Calls by another interpreter -/

end World

/-- The closures that can be come to from some: these, and those in the frames they lead to. -/
def Heap.Meets (heap : Heap) (given : List (Layout × FrameId)) (c : Layout × FrameId) : Prop :=
  c ∈ given ∨ ∃ id slot v, heap.LedTo given id ∧ heap.get id slot = some v ∧ c ∈ v.closures

/-- What the closures at hand lead to is around, with frames that are new. -/
theorem Heap.LedTo.env_of_meets {heap : Heap} {given : List (Layout × FrameId)}
    {c : Layout × FrameId} (meets : heap.Meets given c) : heap.LedTo given c.2 := by
  rcases meets with here | ⟨id, slot, v, led, bound, held⟩
  · exact .of_mem here
  · exact led.step (Heap.mem_referencesOf_iff.mpr (.inr ⟨slot, v, bound, c, held, rfl⟩))

namespace Interpreter

/-- The values of the global variables. -/
def boundGlobally (interpreter : Interpreter) : List Value :=
  (interpreter.machine.globals.map Prod.fst).filterMap interpreter.machine.global?

theorem mem_boundGlobally {interpreter : Interpreter} {v : Value} :
    v ∈ interpreter.boundGlobally ↔ ∃ name, interpreter.machine.global? name = some v := by
  constructor
  · intro member
    obtain ⟨name, -, bound⟩ := List.mem_filterMap.mp member
    exact ⟨name, bound⟩
  · rintro ⟨name, bound⟩
    obtain ⟨entry, found, rfl⟩ := Option.map_eq_some_iff.mp bound
    have same : entry.1 = name := by simpa using List.find?_some found
    refine List.mem_filterMap.mpr ⟨name, ?_, bound⟩
    exact List.mem_map.mpr ⟨entry, List.mem_of_find?_eq_some found, same⟩

/-- The closures that a call has at hand: those it is given, and those in global variables. -/
def atHand (interpreter : Interpreter) (callee : Value) (actuals : Parts) :
    List (Layout × FrameId) :=
  callee.closures ++ actuals.closures ++ interpreter.boundGlobally.flatMap Value.closures

/-- Whether two calls end alike: with results of which the same is left or with the same error, and
with the same left of some frames and of the global variables. -/
structure SameButResolutions (frames : FrameId → Prop)
    (call other : Except Stop Value × Interpreter) : Prop where
  answers : Likewise (fun v v' => v'.without .resolutions = v.without .resolutions) call.1 other.1
  frames : ∀ id, frames id →
    (other.2.machine.heap.frame? id).map (Frame.without .resolutions) =
      (call.2.machine.heap.frame? id).map (Frame.without .resolutions)
  globals : ∀ name, (other.2.machine.global? name).map (Value.without .resolutions) =
    (call.2.machine.global? name).map (Value.without .resolutions)

end Interpreter

namespace World

/-- The heap of a world, and what is left of it when an interpreter is dropped while some closures
are held. -/
inductive Leaves (w : World) (interpreter : Interpreter) (held : List (Layout × FrameId)) :
    Heap → Prop where
  | alive : Leaves w interpreter held w.heap
  | dropped {outside : Holders} (holds : ∀ c ∈ held, c.2 ∈ outside.references) :
      Leaves w interpreter held ((interpreter.on w.heap).drop outside)

variable {arena : Arena} {before : Heap} {w : World}

namespace Leaves

variable {interpreter : Interpreter} {held : List (Layout × FrameId)} {heap : Heap}

theorem keeps (leaves : w.Leaves interpreter held heap) :
    heap.frames.size = w.heap.frames.size ∧ heap.nextStorage = w.heap.nextStorage ∧
      heap.traces.size = w.heap.traces.size := by
  cases leaves with
  | alive => exact ⟨rfl, rfl, rfl⟩
  | dropped => exact Heap.collect_keeps ..

/-- What is held keeps the frames that it leads to. -/
theorem frame (leaves : w.Leaves interpreter held heap) {id : FrameId}
    (led : w.heap.LedTo held id) : heap.frame? id = w.heap.frame? id := by
  cases leaves with
  | alive => rfl
  | dropped holds =>
    obtain ⟨c, member, leads⟩ := led
    exact (interpreter.on w.heap).frame_drop (holds c member) leads

end Leaves

/-- Closures that belong to the arena lead to no others. -/
theorem Sound.of_meets (sound : w.Sound arena before) {given : List (Layout × FrameId)}
    (own : ∀ c ∈ given, arena.Lays c.1 ∧ before.frames.size ≤ c.2) {c : Layout × FrameId}
    (meets : w.heap.Meets given c) : arena.Lays c.1 ∧ before.frames.size ≤ c.2 := by
  -- By induction along the references, which are parents and closures in slots.
  have around {id : FrameId} (led : w.heap.LedTo given id) : before.frames.size ≤ id := by
    obtain ⟨c, member, leads⟩ := led
    induction leads with
    | refl => exact (own c member).2
    | tail _ refers ih =>
      rcases Heap.mem_referencesOf_iff.mp refers with parent | ⟨slot, v, bound, inner, inside, rfl⟩
      · exact sound.parents _ _ ih parent
      · exact (sound.slots _ slot v ih bound inner inside).2
  rcases meets with here | ⟨id, slot, v, led, bound, held⟩
  · exact own c here
  · exact sound.slots id slot v (around led) bound c held

/-! ### Side by side -/

/-- What a call may come to, for two interpreters over the arena: the frames that some closures lead
to, and new ones, with the functions whose texts both lay out alike. -/
def shared (w : World) (arena : Arena) (interpreter other : Interpreter)
    (given : List (Layout × FrameId)) : Region .resolutions :=
  arena.region interpreter.context.builtins interpreter.context.program other.context.program
    w.heap.frames.size (fun id => w.heap.LedTo given id ∨ w.heap.frames.size ≤ id)
    (interpreter.machine.activations, other.machine.activations) fun _ le => .inr le

variable {interpreter other : Interpreter} {given : List (Layout × FrameId)}

/-- A closure that can be come to may be around. -/
theorem Sound.admits_shared (sound : w.Sound arena before)
    (own : ∀ c ∈ given, arena.Lays c.1 ∧ before.frames.size ≤ c.2)
    (laid_alike : ∀ c, w.heap.Meets given c → ∀ e ∈ ownText c.1.params c.1.body,
      interpreter.context.program.LaysAlike other.context.program e) {v : Value}
    (meets : ∀ c ∈ v.closures, w.heap.Meets given c) :
    (w.shared arena interpreter other given).Admits v := by
  intro c held
  have met := meets c held
  exact ⟨⟨(sound.of_meets own met).1, laid_alike c met⟩, .inl (.env_of_meets met)⟩

/-- The frames that some closures lead to are closed. -/
theorem closed_shared
    (admits : ∀ v : Value, (∀ c ∈ v.closures, w.heap.Meets given c) →
      (w.shared arena interpreter other given).Admits v) :
    (w.shared arena interpreter other given).Closed w.heap := by
  refine ⟨Nat.le_refl _, fun id slot v kept bound => ?_, fun id parent kept known => ?_⟩
  · rcases kept with led | new
    · exact admits v fun c held => .inr ⟨id, slot, v, led, bound, held⟩
    · rw [Heap.get_eq, Heap.frame_eq_none_iff.mpr new] at bound
      cases bound
  · rcases kept with led | new
    · exact .inl (led.step (Heap.mem_referencesOf_iff.mpr (.inl known)))
    · rw [Heap.parent, Heap.frame_eq_none_iff.mpr new] at known
      cases known

/-- The heap that is left has the same frames that are around. -/
theorem Leaves.heaps {heap : Heap} (leaves : w.Leaves interpreter given heap)
    (closed : (w.shared arena interpreter other given).Closed w.heap) :
    (w.shared arena interpreter other given).Heaps w.heap heap := by
  obtain ⟨size, storage, traces⟩ := leaves.keeps
  refine .of_closed closed (fun id kept => ?_) size storage traces
  rcases kept with led | new
  · exact leaves.frame led
  · rw [Heap.frame_eq_none_iff.mpr new, Heap.frame_eq_none_iff.mpr (size.trans_le new)]

/-- A closure survives its interpreter. What an interpreter over an arena would answer to a call,
another one over the arena answers with the same builtins, in the same mode and with the same
global variables, also when the first is dropped before while the closures at hand are held: the
same value or the same error, and the frames that are led to and the global variables are the same
afterwards. It is enough that both lay out alike the literals in the texts of the closures that
the call may come to, as resolutions of one program do; one that neither lays out is an error for
both. -/
theorem closures_survive (arises : Arises arena before w) (listed : interpreter ∈ w.interpreters)
    (listed' : other ∈ w.interpreters)
    (same_builtins : other.context.builtins = interpreter.context.builtins)
    (same_mode : other.context.mode = interpreter.context.mode)
    (same_globals : ∀ name, (other.machine.global? name).map (Value.without .resolutions) =
      (interpreter.machine.global? name).map (Value.without .resolutions))
    {callee : Value} {actuals : Parts}
    (known : ∀ c ∈ callee.closures ++ actuals.closures, w.Knows before.frames.size c)
    (laid_alike : ∀ c, w.heap.Meets (interpreter.atHand callee actuals) c →
      ∀ e ∈ ownText c.1.params c.1.body,
        interpreter.context.program.LaysAlike other.context.program e)
    {heap : Heap} (leaves : w.Leaves interpreter (interpreter.atHand callee actuals) heap)
    (depth : Nat) :
    Interpreter.SameButResolutions
      (fun id => w.heap.LedTo (interpreter.atHand callee actuals) id ∨ w.heap.frames.size ≤ id)
      ((interpreter.on w.heap).callValue depth callee actuals)
      ((other.on heap).callValue depth callee actuals) := by
  have sound := sound_of_arises arises
  have runs := sound.runs interpreter listed
  have runs' := sound.runs other listed'
  have own : ∀ c ∈ interpreter.atHand callee actuals,
      arena.Lays c.1 ∧ before.frames.size ≤ c.2 := by
    intro c member
    rcases List.mem_append.mp member with handed | global
    · exact sound.of_knows (known c handed)
    · obtain ⟨v, bound, held⟩ := List.mem_flatMap.mp global
      obtain ⟨name, bound⟩ := Interpreter.mem_boundGlobally.mp bound
      exact runs.globals name v bound c held
  let R := w.shared arena interpreter other (interpreter.atHand callee actuals)
  have admits (v : Value) (inside : v.closures ⊆ interpreter.atHand callee actuals) : R.Admits v :=
    sound.admits_shared own laid_alike fun c held => .inl (inside held)
  -- The two may keep different bindings, as they have served different requests. What they keep
  -- is right for either, so that a call is bound alike whether it was bound before or not.
  have machines : R.Machines (interpreter.on w.heap).machine (other.on heap).machine := by
    refine ⟨leaves.heaps (closed_shared fun v => sound.admits_shared own laid_alike),
      fun name => Region.rel_of_left (same_globals name) fun v bound => admits v ?_, ?_,
      ⟨runs.right, ?_⟩, [], rfl, rfl⟩
    · refine List.Subset.trans (fun c held => ?_) (List.subset_append_right _ _)
      exact List.mem_flatMap.mpr ⟨v, Interpreter.mem_boundGlobally.mpr ⟨name, bound⟩, held⟩
    · change other.machine.stack = interpreter.machine.stack
      rw [runs.stack, runs'.stack, same_mode]
    · rw [← same_builtins]
      exact runs'.right
  have laws : R.Laws (interpreter.on w.heap).context (other.on heap).context :=
    arena.laws runs.resolves same_builtins same_mode runs.disregards runs.handsOn
  have handed := List.subset_append_left (callee.closures ++ actuals.closures)
    (interpreter.boundGlobally.flatMap Value.closures)
  have callees : R.Values callee callee :=
    ⟨rfl, admits callee (List.Subset.trans (List.subset_append_left _ _) handed)⟩
  have likewise : Parts.Likewise R.Values actuals actuals := by
    refine List.forall₂_same.mpr fun part inside => ⟨rfl, rfl, admits part.2 fun c held => ?_⟩
    exact handed (List.mem_append_right _ (List.mem_flatMap.mpr ⟨part, inside, held⟩))
  have tracks := Region.tracks_call laws machines depth callees likewise
  have meets : EvalM.Meets R.Machines (fun _ => False) R.Values
      (Interpreter.outcome ((interpreter.on w.heap).callValue depth callee actuals))
      (Interpreter.outcome ((other.on heap).callValue depth callee actuals)) := by
    unfold Interpreter.callValue
    rw [Interpreter.outcome_perform, Interpreter.outcome_perform]
    exact tracks
  obtain ⟨answers, after⟩ := Interpreter.likewise_of_meets meets
  exact ⟨answers.mono fun v v' values => values.left, fun id around => after.heap.left around,
    fun name => Region.left_of_rel (after.globals name)⟩

/-! ### A function in a function, and a global variable -/

theorem numbered_of_nodup {top : Expr} (once : (top.nodes.map Expr.id).Nodup) : top.Numbered :=
  fun _ listed _ listed' same => List.inj_on_of_nodup_map once listed listed' same

/-- The world of an interpreter that has run its program, and of another one that is built then. -/
theorem arises_of_run {top top' : Expr} {first : Interpreter} {callee : Value} {depth : Nat}
    (held : arena.holds top) (held' : arena.holds top')
    (built : Interpreter.build { top } .empty = .ok first)
    (served : first.serve (.run depth) = (.ok callee, interpreter))
    (built' : Interpreter.build { top := top' } interpreter.machine.heap = .ok other) :
    Arises arena .empty ⟨other.machine.heap, [interpreter, other], callee.closures⟩ := by
  have alone : Arises arena .empty ⟨first.machine.heap, [first], []⟩ :=
    .build .start held (Registry.standard_disregards _) Registry.standard_handsOn
      (fun _ absent => (List.not_mem_nil absent).elim) built
  have listed : [first][0]? = some first := rfl
  have ran : Arises arena .empty ⟨interpreter.machine.heap, [interpreter], callee.closures⟩ :=
    .serve alone listed (fun _ absent => (List.not_mem_nil absent).elim) served trivial
  exact .build ran held' (Registry.standard_disregards _) Registry.standard_handsOn
    (fun _ absent => (List.not_mem_nil absent).elim) built'

theorem build_of_resolve {settings : Interpreter.Settings} {heap : Heap} {program : Program}
    (resolved : Program.resolve heap.frames.size settings.top = .ok program) :
    Interpreter.build settings heap = .ok (.ofProgram settings heap program) := by
  rw [Interpreter.build_eq, resolved]
  rfl

/-- An interpreter that has run a program. A function is bound in the only slot of its frame, and
some global variables are set. -/
def afterRun (top : Expr) (program : Program) (layout : Layout) (bound : List (Symbol × Value)) :
    Interpreter :=
  let before := Interpreter.ofProgram { top } .empty program
  let heap : Heap := { frames := #[⟨program.toplevel, [some (.closure layout 0)], none⟩] }
  let globals := bound.foldl (fun all (name, v) => setEntry name v all) before.machine.globals
  { before with machine := { before.machine with heap, globals } }

/-- The program `f <- function() function() y`. -/
def readerInFunction : Expr :=
  .assign ⟨3, default⟩ "f" (.function ⟨2, default⟩ []
    (.function ⟨1, default⟩ [] (.ident ⟨0, default⟩ "y")))

/-- The function is called by a second interpreter of the program, once the first is dropped. It
makes the function in it with the layout that the second one has. -/
theorem closures_survive_readerInFunction :
    ∃ w interpreter other callee heap,
      Arises (.ofNodes readerInFunction (numbered_of_nodup (by decide))) .empty w ∧
      w.interpreters = [interpreter, other] ∧ callee.closures ⊆ w.given ∧
      heap = (interpreter.on w.heap).drop ⟨[], [callee]⟩ ∧
      (∃ layout env, ((other.on heap).callValue 2 callee []).1 = .ok (.closure layout env)) ∧
      Interpreter.SameButResolutions
        (fun id => w.heap.LedTo (interpreter.atHand callee []) id ∨ w.heap.frames.size ≤ id)
        ((interpreter.on w.heap).callValue 2 callee [])
        ((other.on heap).callValue 2 callee []) := by
  obtain ⟨program, again, layout, inner, resolved, resolved', -, served, answered⟩ :
      ∃ program again layout inner,
        Program.resolve 0 readerInFunction = .ok program ∧
        Program.resolve 1 readerInFunction = .ok again ∧ program.layouts = [inner, layout] ∧
        (Interpreter.ofProgram { top := readerInFunction } .empty program).serve (.run 2) =
          (.ok (.closure layout 0), afterRun readerInFunction program layout []) ∧
        (((afterRun readerInFunction program layout []).on
          (Interpreter.ofProgram { top := readerInFunction }
            (afterRun readerInFunction program layout []).machine.heap
            again).machine.heap).callValue 2 (.closure layout 0) []).1 = .ok (.closure inner 2) :=
    ⟨_, _, _, _, rfl, rfl, rfl, rfl, rfl⟩
  let interpreter := afterRun readerInFunction program layout []
  let other := Interpreter.ofProgram { top := readerInFunction } interpreter.machine.heap again
  let w : World := ⟨other.machine.heap, [interpreter, other], [(layout, 0)]⟩
  have held := readerInFunction.mem_nodes_self
  have arises : Arises (.ofNodes readerInFunction (numbered_of_nodup (by decide))) .empty w :=
    arises_of_run held held (build_of_resolve resolved) served (build_of_resolve resolved')
  have leaves : w.Leaves interpreter (interpreter.atHand (.closure layout 0) [])
      ((interpreter.on w.heap).drop ⟨[], [.closure layout 0]⟩) := by
    have atHand : interpreter.atHand (.closure layout 0) [] = [(layout, 0)] := rfl
    refine .dropped fun c member => ?_
    rw [atHand] at member
    cases List.mem_singleton.mp member
    exact List.mem_singleton_self 0
  have known : ∀ c ∈ (Value.closure layout 0).closures ++ Parts.closures [], w.Knows 0 c :=
    fun _ member => .inl member
  have survives := closures_survive arises List.mem_cons_self
    (List.mem_cons_of_mem _ (List.mem_singleton_self other)) rfl rfl (fun _ => rfl) known
    (fun c _ e _ => Program.laysAlike_of_resolve resolved resolved' e) leaves 2
  refine ⟨w, interpreter, other, .closure layout 0, _, arises, rfl, List.Subset.refl _, rfl, ?_,
    survives⟩
  have answers := survives.answers
  rw [answered] at answers
  generalize ((other.on _).callValue 2 (.closure layout 0) []).1 = answer at answers ⊢
  cases answers with
  | @ok _ v left =>
    cases v with
    | closure inner' env => exact ⟨inner', env, rfl⟩
    | _ => simp [Value.without] at left

/-- The program `NULL`. -/
def nothing : Expr :=
  .literal ⟨4, default⟩ .null

/-- The program `x <<- TRUE; f <- function() x`. -/
def readerOfGlobal : Expr :=
  .block ⟨5, default⟩ [.superAssign ⟨1, default⟩ "x" (.literal ⟨0, default⟩ (.logical true)),
    .assign ⟨4, default⟩ "f" (.function ⟨3, default⟩ [] (.ident ⟨2, default⟩ "x"))]

/-- A closure may be answered otherwise by an interpreter with another top level, to which the
function in it is unknown, even with the same global variables; and by one that is built alike,
whose global variables are its own. -/
theorem closures_unknown_elsewhere :
    (Expr.Numbered (.block ⟨5, default⟩ [readerInFunction, nothing]) ∧
      ∃ first interpreter other callee v e,
        Interpreter.build { top := readerInFunction } .empty = .ok first ∧
        first.serve (.run 2) = (.ok callee, interpreter) ∧
        Interpreter.build { top := nothing } interpreter.machine.heap = .ok other ∧
        (∀ name, other.machine.global? name = interpreter.machine.global? name) ∧
        ((interpreter.on other.machine.heap).callValue 2 callee []).1 = .ok v ∧
        (other.callValue 2 callee []).1 = .error (.error e) ∧
        e.cause = .custom "function literal was not resolved") ∧
    ∃ first interpreter other callee e,
      Interpreter.build { top := readerOfGlobal } .empty = .ok first ∧
      first.serve (.run 3) = (.ok callee, interpreter) ∧
      Interpreter.build { top := readerOfGlobal } interpreter.machine.heap = .ok other ∧
      ((interpreter.on other.machine.heap).callValue 2 callee []).1 = .ok (.ofBool true) ∧
      (other.callValue 2 callee []).1 = .error (.error e) ∧
      e.cause = .undefinedVariable "x" := by
  constructor
  · obtain ⟨program, again, layout, inner, e, resolved, resolved', -, served, first, second,
        cause⟩ : ∃ program again layout inner e,
          Program.resolve 0 readerInFunction = .ok program ∧
          Program.resolve 1 nothing = .ok again ∧ program.layouts = [inner, layout] ∧
          (Interpreter.ofProgram { top := readerInFunction } .empty program).serve (.run 2) =
            (.ok (.closure layout 0), afterRun readerInFunction program layout []) ∧
          (((afterRun readerInFunction program layout []).on
            (Interpreter.ofProgram { top := nothing }
              (afterRun readerInFunction program layout []).machine.heap
              again).machine.heap).callValue 2 (.closure layout 0) []).1 = .ok (.closure inner 2) ∧
          ((Interpreter.ofProgram { top := nothing }
            (afterRun readerInFunction program layout []).machine.heap again).callValue
              2 (.closure layout 0) []).1 = .error (.error e) ∧
          e.cause = .custom "function literal was not resolved" :=
      ⟨_, _, _, _, _, rfl, rfl, rfl, rfl, rfl, rfl, rfl⟩
    exact ⟨numbered_of_nodup (by decide), _, _, _, _, _, e, build_of_resolve resolved, served,
      build_of_resolve resolved', fun _ => rfl, first, second, cause⟩
  · obtain ⟨program, again, layout, e, resolved, resolved', -, served, first, second, cause⟩ :
        ∃ program again layout e,
          Program.resolve 0 readerOfGlobal = .ok program ∧
          Program.resolve 1 readerOfGlobal = .ok again ∧ program.layouts = [layout] ∧
          (Interpreter.ofProgram { top := readerOfGlobal } .empty program).serve (.run 3) =
            (.ok (.closure layout 0),
              afterRun readerOfGlobal program layout [("x", .ofBool true)]) ∧
          (((afterRun readerOfGlobal program layout [("x", .ofBool true)]).on
            (Interpreter.ofProgram { top := readerOfGlobal }
              (afterRun readerOfGlobal program layout [("x", .ofBool true)]).machine.heap
              again).machine.heap).callValue 2 (.closure layout 0) []).1 = .ok (.ofBool true) ∧
          ((Interpreter.ofProgram { top := readerOfGlobal }
            (afterRun readerOfGlobal program layout [("x", .ofBool true)]).machine.heap
            again).callValue 2 (.closure layout 0) []).1 = .error (.error e) ∧
          e.cause = .undefinedVariable "x" :=
      ⟨_, _, _, _, rfl, rfl, rfl, rfl, rfl, rfl, rfl⟩
    exact ⟨_, _, _, _, e, build_of_resolve resolved, served, build_of_resolve resolved', first,
      second, cause⟩

end World

end Vectorial
