import Vectorial.Proofs.Lives

/-!
# Non-local assignment

A non-local assignment follows an address that resolution found in the scopes around the
function. Frames are nested as the scopes are, so the address leads to the nearest frame
further out whose function has the name as a local name, whether or not its slot is bound,
and the slot there is what the assignment binds. If no function around has the name, a
global variable is bound. Nothing else changes.

Of the frames that lookup by name passes on its way outward none has a slot for the name, so
the value that was assigned is what it finds then.

## Main definitions

* `Machine.BindsOnly`: machines that differ in what one name is bound to.

## Main results

* `Heap.Nearest.findsOutward`: lookup by name finds what the nearest frame has;
* `Machine.Fits.assignOuter_binds_nearest`: the effect where frames are nested;
* `Interpreter.superAssign_binds_nearest`: the effect of a non-local assignment.
-/

namespace Vectorial

/-! ### Slots and entries -/

/-- The slot of a local name is one of the frame. -/
theorem Layout.slotOf_lt {layout : Layout} {name : Symbol} {slot : Nat}
    (known : layout.slotOf name = some slot) : slot < layout.frameSize := by
  obtain ⟨entry, found, rfl⟩ := Option.map_eq_some_iff.mp known
  have listed := List.mem_reverse.mp (List.mem_of_find?_eq_some found)
  have known := List.mem_zipIdx_iff_getElem?.mp listed
  exact (List.getElem?_eq_some_iff.mp known).1

/-- Only a local name has a slot. -/
theorem Layout.slotOf_eq_none {layout : Layout} {name : Symbol} (absent : name ∉ layout.locals) :
    layout.slotOf name = none := by
  refine lastEntry_eq_none fun entry listed same => absent ?_
  rw [← same]
  exact List.mem_of_getElem? (List.mem_zipIdx_iff_getElem?.mp listed)

theorem find?_setEntry {α : Type} (name other : Symbol) (value : α)
    (entries : List (Symbol × α)) :
    ((setEntry name value entries).find? fun entry => entry.1 == other).map Prod.snd =
      if other = name then some value
      else (entries.find? fun entry => entry.1 == other).map Prod.snd := by
  induction entries with
  | nil =>
    by_cases same : other = name
    · simp [setEntry, same]
    · simp [setEntry, same, Ne.symm same]
  | cons first rest ih =>
    obtain ⟨known, bound⟩ := first
    simp only [setEntry]
    -- The entry of the name is replaced where it stands, so that no other entry is passed over.
    by_cases here : known = name
    · by_cases same : other = name
      · simp [here, same]
      · simp [here, same, Ne.symm same]
    · by_cases found : known = other
      · have different : other ≠ name := fun same => here (found.trans same)
        simp [found, different]
      · simpa [here, found] using ih

namespace Machine

variable {m later : Machine} {name : Symbol} {v : Value}

theorem global?_setGlobal (m : Machine) (name other : Symbol) (v : Value) :
    (m.setGlobal name v).global? other = if other = name then some v else m.global? other :=
  find?_setEntry name other v m.globals

/-- Whether all that changed is what the name is bound to in the frame `owner`, or as a global
variable if there is no such frame. -/
def BindsOnly (m : Machine) (name : Symbol) (v : Value) : Option FrameId → Machine → Prop
  | some owner, later =>
    later = { m with heap := { m.heap with frames := later.heap.frames } } ∧
    (∃ layout slot, m.heap.layout? owner = some layout ∧ layout.slotOf name = some slot ∧
      ∀ id index, later.heap.get id index =
        if id = owner ∧ index = slot then some v else m.heap.get id index) ∧
    ∀ id, later.heap.layout? id = m.heap.layout? id ∧ later.heap.parent id = m.heap.parent id
  | none, later =>
    later = { m with globals := later.globals } ∧
    ∀ other, later.global? other = if other = name then some v else m.global? other

theorem bindsOnly_setGlobal (m : Machine) (name : Symbol) (v : Value) :
    m.BindsOnly name v none (m.setGlobal name v) :=
  ⟨rfl, fun other => m.global?_setGlobal name other v⟩

/-- Binding a slot that the frame has succeeds and changes that slot alone. -/
theorem bindsOnly_setSlot {owner : FrameId} {layout : Layout} {slot : Nat}
    (known : m.heap.layout? owner = some layout) (named : layout.slotOf name = some slot)
    (room : slot < (m.heap.slots owner).length) (v : Value) :
    ∃ later, m.setSlot owner slot v = .ok later ∧ m.BindsOnly name v (some owner) later := by
  obtain ⟨frames, bound⟩ :
      ∃ frames, m.heap.set owner slot v = .ok { m.heap with frames } := by
    rw [Heap.set]
    exact ⟨_, if_pos room⟩
  refine ⟨{ m with heap := { m.heap with frames } }, ?_, rfl,
    ⟨layout, slot, known, named, fun id index => ?_⟩, fun id => ?_⟩
  · rw [setSlot, bound]
    rfl
  · exact Heap.get_set bound
  -- Only slots change: layouts and parents are those from before, also in the frame itself.
  · have changed : ({ m.heap with frames } : Heap).frame? id = _ := Heap.frame_set bound
    by_cases same : id = owner
    · simp only [Heap.layout?, Heap.parent, changed, if_pos same]
      cases m.heap.frame? id <;> simp
    · simp only [Heap.layout?, Heap.parent, changed, if_neg same]
      trivial

end Machine

/-! ### The nearest frame -/

namespace Heap

variable {heap later : Heap} {name : Symbol} {start nearest : Option FrameId}

theorem Nearest.of_same (near : heap.Nearest name start nearest)
    (same : ∀ id, later.layout? id = heap.layout? id ∧ later.parent id = heap.parent id) :
    later.Nearest name start nearest := by
  induction near with
  | outside => exact .outside
  | @here id _ known member => exact .here ((same id).1.trans known) member
  | @further id _ _ known absent _ ih =>
    refine .further ((same id).1.trans known) absent ?_
    rw [(same id).2]
    exact ih

theorem Nearest.unique {other : Option FrameId} (left : heap.Nearest name start nearest)
    (right : heap.Nearest name start other) : nearest = other := by
  -- Frame by frame: whether a frame has a slot for the name ends both searches or neither.
  induction left with
  | outside =>
    cases right
    rfl
  | here known member =>
    cases right with
    | here => rfl
    | further other_known absent _ =>
      cases known.symm.trans other_known
      exact absurd member absent
  | further known absent _ ih =>
    cases right with
    | here other_known member =>
      cases known.symm.trans other_known
      exact absurd member absent
    | further _ _ rest => exact ih rest

/-- Lookup by name passes the frames that have no slot for the name. -/
theorem Nearest.findsOutward (near : heap.Nearest name start nearest) {v : Value}
    (bound : ∀ owner ∈ nearest, heap.localValue name owner = some v) :
    heap.FindsOutward name start (nearest.map fun _ => v) := by
  induction near with
  | outside => exact .outside
  | here known _ => exact .bound (bound _ rfl)
  | further known absent _ ih =>
    refine .further ?_ (ih bound)
    rw [localValue, known, Option.bind_some, Layout.slotOf_eq_none absent, Option.bind_none]

/-- The nearest frame is one of those from the start outward. -/
theorem Nearest.of_outward {own : FrameId → Prop} (near : heap.Nearest name start nearest)
    (outward : ∀ id parent, own id → heap.parent id = some parent → own parent)
    (begins : ∀ id ∈ start, own id) : ∀ owner ∈ nearest, own owner := by
  induction near with
  | outside => exact fun _ none_there => by cases none_there
  | here _ _ => exact begins
  | further _ _ _ ih => exact ih fun parent known => outward _ parent (begins _ rfl) known

end Heap

/-! ### The assignment -/

namespace Machine.Fits

open Heap

variable {context : Context} {base : FrameId} {top : Expr} {guests : FrameId → Prop}
variable {edition : Nat} {resolved : Program.resolve edition top = .ok context.program}
variable {once : top.literals.Nodup} {m : Machine}

/-- Where frames are nested as the scopes around a function are, a non-local assignment from a
frame of the function succeeds and binds the name in the nearest frame around that has it. -/
theorem assignOuter_binds_nearest
    (fits : m.Fits (.mirroring context base top guests edition resolved once)) {frame : FrameId}
    (own : base ≤ frame ∨ guests frame) {layout : Layout} {outer : Scopes} {name : Symbol}
    (known : m.heap.layout? frame = some layout)
    (addressed :
      layout.resolveSuper name = some (Scopes.resolveSuper (layout.locals :: outer) name))
    (around : m.heap.Nested outer (m.heap.parent frame)) (v : Value) :
    ∃ target later, m.assignOuter name v frame = .ok later ∧
      m.heap.Nearest name (m.heap.parent frame) target ∧ frame ∉ target ∧
      m.BindsOnly name v target later ∧
      ∃ result, later.heap.FindsOutward name (later.heap.parent frame) result ∧
        result.or (later.global? name) = some v := by
  cases found : Scopes.findFrom name outer 1 with
  | none =>
    have nowhere : m.outerSlot name frame = none := by
      simp [outerSlot, known, addressed, Scopes.resolveSuper_eq, found, Resolution.address?]
    have near := around.nearest_of_findFrom_eq_none found
    refine ⟨none, m.setGlobal name v, ?_, near, by simp, m.bindsOnly_setGlobal name v, none,
      ?_, ?_⟩
    · rw [assignOuter, nowhere, bindAt]
    · exact near.findsOutward (v := v) fun _ none_there => by cases none_there
    · rw [global?_setGlobal, if_pos rfl, Option.none_or]
  | some address =>
    obtain ⟨up, owner, owner_layout, -, hops_eq, climbed, owner_known, slot, near⟩ :=
      around.nearest_of_findFrom found
    rw [Nat.add_comm, ← hops_eq] at climbed
    -- The frame at the address has all slots of its layout.
    have room : address.slot < (m.heap.slots owner).length := by
      obtain ⟨owner_frame, owner_found, rfl⟩ := Option.map_eq_some_iff.mp owner_known
      have founds := fits.frames owner owner_frame (fits.ancestor own climbed) owner_found
      rw [Heap.slots, owner_found, Option.map_some, Option.getD_some, founds.sized]
      exact Layout.slotOf_lt slot
    have outer_slot : m.outerSlot name frame = some (owner, address.slot) := by
      simp [outerSlot, known, addressed, Scopes.resolveSuper_eq, found, Resolution.address?,
        climbed]
    obtain ⟨later, bound, binds⟩ := bindsOnly_setSlot owner_known slot room v
    obtain ⟨-, ⟨_, _, owner_known', slot', get_eq⟩, same⟩ := id binds
    -- Frames further out are older, so that the frame itself is none of them.
    have outward : ∀ id ∈ some owner, (base ≤ id ∨ guests id) ∧ id < frame := by
      refine near.of_outward (fun id parent inside up => ?_)
        fun id up => fits.parents frame id own up
      obtain ⟨further, before_id⟩ := fits.parents id parent inside.1 up
      exact ⟨further, Nat.lt_trans before_id inside.2⟩
    refine ⟨some owner, later, ?_, near, ?_, binds, some v, ?_, Option.some_or⟩
    · rw [assignOuter, outer_slot]
      exact bound
    · simpa using Nat.ne_of_lt (outward owner rfl).2
    · rw [(same frame).2]
      refine (near.of_same same).findsOutward ?_
      rintro _ ⟨⟩
      rw [localValue, (same owner).1, owner_known', Option.bind_some, slot', Option.bind_some,
        get_eq, if_pos ⟨rfl, rfl⟩]

end Machine.Fits

namespace EvalM

variable {context : Context} {m before later : Machine} {v : Value}

/-- A non-local assignment binds the value of its right-hand side, which is its own value. -/
theorem eval_superAssign {depth : Nat} {site : Site} {name : Symbol} {value : Expr}
    {frame : FrameId} (valued : eval context depth value frame m = .ok v before)
    (done : before.assignOuter name v frame = .ok later) :
    eval context (depth + 1) (.superAssign site name value) frame m = .ok v later := by
  change (do
    let v ← eval context depth value frame
    bindVariable (fun m => m.assignOuter name v frame) v : EvalM Value) m = _
  simp only [bind, EStateM.bind, valued]
  change (do
    let m ← Run.ofDefect (before.assignOuter name v frame)
    set m
    pure v : EvalM Value) before = _
  rw [done]
  rfl

end EvalM

namespace Interpreter

open Heap

variable {settings : Settings} {heap : Heap} {interpreter : Interpreter}
variable {given : List (Layout × FrameId)} {requests : List Request}

/-- The effect of a non-local assignment. Once its value is known it succeeds, and one binding
changes: that of the name in the nearest frame around whose function has it as a local name,
bound or not, or the global variable if no function around has it. The frame itself is not that
frame, and lookup by name from its parent outward then finds the value. -/
theorem superAssign_binds_nearest
    (lives : Lives settings.top heap given) (built : build settings heap = .ok interpreter)
    (once : settings.top.literals.Nodup) (handsOn : settings.builtins.HandsOn)
    (globals : ∀ entry ∈ settings.globals, entry.2.closures ⊆ given)
    (honest : interpreter.Honest given requests) {site : Site} {name : Symbol} {value : Expr}
    {frame : FrameId} {m before : Machine} {depth : Nat} {v : Value}
    (evaluates : interpreter.Evaluates requests ⟨.superAssign site name value, frame, m⟩)
    (valued : EvalM.eval interpreter.context depth value frame m = .ok v before) :
    ∃ target later,
      EvalM.eval interpreter.context (depth + 1) (.superAssign site name value) frame m =
        .ok v later ∧
      before.heap.Nearest name (before.heap.parent frame) target ∧ frame ∉ target ∧
      before.BindsOnly name v target later ∧
      ∃ result, later.heap.FindsOutward name (later.heap.parent frame) result ∧
        result.or (later.global? name) = some v := by
  obtain ⟨builtins, edition, resolved⟩ := context_of_build built
  have fits := fits_of_kin built resolved once (kin_of_lives once lives) globals
  rw [← builtins] at handsOn
  obtain ⟨fits_moment, placed⟩ := allowed_of_evaluates handsOn fits honest evaluates
  -- The value is evaluated first; the frames stay nested meanwhile.
  have part : value ∈ (Expr.superAssign site name value).parts := List.mem_singleton_self value
  have follows := ((Discipline.sound_eval handsOn depth _ _ _ fits_moment
    (Discipline.places_part _ placed part)).ok valued).1
  obtain ⟨own, layout, known, -, root, text, within⟩ := placed
  replace known : before.heap.layout? frame = some layout := follows.grows.layout known
  obtain ⟨outer, lays, nested⟩ := follows.fits.mirrors.lays once own known
  have addressed := (lays edition _ resolved).resolveSuper_of_within text within
  obtain ⟨target, later, done, effect⟩ :=
    follows.fits.assignOuter_binds_nearest own known addressed nested.cons.2 v
  exact ⟨target, later, EvalM.eval_superAssign valued done, effect⟩

/-- The program `{ (function() x <<- 1L)(); x <- NULL }`. -/
def assignsOutward : Expr :=
  .block ⟨7, default⟩
    [.call ⟨4, default⟩ (.function ⟨3, default⟩ []
        (.superAssign ⟨2, default⟩ "x" (.literal ⟨1, default⟩ (.integer 1)))) [],
      .assign ⟨6, default⟩ "x" (.literal ⟨5, default⟩ .null)]

/-- The outermost frame has a slot for the name. It is not bound yet, and is bound then. -/
theorem superAssign_binds_nearest_assignsOutward :
    ∃ interpreter m later,
      build { top := assignsOutward } .empty = .ok interpreter ∧
      interpreter.Evaluates [.run 3]
        ⟨.superAssign ⟨2, default⟩ "x" (.literal ⟨1, default⟩ (.integer 1)), 1, m⟩ ∧
      m.heap.get 0 0 = none ∧ m.heap.Nearest "x" (m.heap.parent 1) (some 0) ∧
      EvalM.eval interpreter.context 2
        (.superAssign ⟨2, default⟩ "x" (.literal ⟨1, default⟩ (.integer 1))) 1 m =
        .ok (.ofInteger 1) later ∧
      m.BindsOnly "x" (.ofInteger 1) (some 0) later := by
  obtain ⟨interpreter, m, built, evaluates, unbound, from_root, parent⟩ :
      ∃ interpreter m, build { top := assignsOutward } .empty = .ok interpreter ∧
        interpreter.Evaluates [.run 3]
          ⟨.superAssign ⟨2, default⟩ "x" (.literal ⟨1, default⟩ (.integer 1)), 1, m⟩ ∧
        m.heap.get 0 0 = none ∧ m.heap.Nearest "x" (some 0) (some 0) ∧
        m.heap.parent 1 = some 0 :=
    ⟨_, _, rfl, .inl (.run (.inside (.strict .first)
      (.inside (.call rfl rfl (.body rfl rfl)) .here))), by rfl, .here rfl (.head _), by rfl⟩
  have near : m.heap.Nearest "x" (m.heap.parent 1) (some 0) := by
    rw [parent]
    exact from_root
  have honest : interpreter.Honest [] [.run 3] :=
    ⟨fun _ handed => (List.not_mem_nil handed).elim, trivial⟩
  have valued : EvalM.eval interpreter.context 1 (.literal ⟨1, default⟩ (.integer 1)) 1 m =
      .ok (.ofInteger 1) m := rfl
  obtain ⟨target, later, done, target_near, -, binds, -⟩ :=
    superAssign_binds_nearest (.start .empty) built (by decide) Registry.standard_handsOn (by simp)
      honest evaluates valued
  rw [target_near.unique near] at binds
  exact ⟨interpreter, m, later, built, evaluates, unbound, near, done, binds⟩

end Interpreter

end Vectorial
