import Vectorial.Proofs.Scope.Resolution
import Vectorial.Proofs.Session

/-!
# Addresses and lookup by name

A layout says where a name is found, and reading follows the address. The plain meaning of
a name does not know layouts: it is the value in the nearest frame, from the current one
outward, that has a slot for the name and has it bound. The two agree because frames are
nested as their functions are: the frames around a frame have the local names of the
scopes that its layout was made in, in the same order.

A parameter of the current frame is the exception. If it is unbound it is missing, and
nothing is looked for further out.

## Main definitions

* `Heap.FindsOutward`: lookup by name;
* `Heap.Nested`: frames that are nested as some scopes are;
* `Discipline.lexical`: frames are nested as the functions whose text they evaluate.

## Main results

* `Heap.Nested.findsOutward_of_findFrom`: an address leads to the nearest frame that has
  the name;
* `Machine.read_of_nested`: reading is lookup by name;
* `Interpreter.read_eq_lookup`: it is so throughout every honest session.
-/

namespace Vectorial

namespace Heap

/-- The value in the nearest frame, from `start` outward, in which a name has a slot that is
bound. -/
inductive FindsOutward (heap : Heap) (name : Symbol) : Option FrameId → Option Value → Prop where
  | outside : FindsOutward heap name none none
  | bound {id : FrameId} {v : Value} :
      heap.localValue name id = some v → FindsOutward heap name (some id) (some v)
  | further {id : FrameId} {result : Option Value} :
      heap.localValue name id = none → FindsOutward heap name (heap.parent id) result →
      FindsOutward heap name (some id) result

/-- The frames from `start` outward have the local names of the scopes. -/
inductive Nested (heap : Heap) : Scopes → Option FrameId → Prop where
  | outside : Nested heap [] none
  | inside {id : FrameId} {layout : Layout} {outer : Scopes} :
      heap.layout? id = some layout → layout.locals.Nodup → Nested heap outer (heap.parent id) →
      Nested heap (layout.locals :: outer) (some id)

variable {heap later : Heap} {name : Symbol} {id : FrameId} {outer scopes : Scopes}

/-- Lookup by name finds one thing. -/
theorem FindsOutward.unique {start : Option FrameId} {first second : Option Value}
    (left : heap.FindsOutward name start first) (right : heap.FindsOutward name start second) :
    first = second := by
  -- Along the first lookup: a frame that binds the name ends both, any other neither.
  induction left with
  | outside =>
    cases right
    rfl
  | bound known =>
    cases right with
    | bound other => exact known.symm.trans other
    | further unbound _ =>
      rw [known] at unbound
      cases unbound
  | further unbound _ ih =>
    cases right with
    | bound known =>
      rw [known] at unbound
      cases unbound
    | further _ rest => exact ih rest

theorem lt_size_of_layout {layout : Layout} (known : heap.layout? id = some layout) :
    id < heap.frames.size := by
  obtain ⟨frame, found, -⟩ := Option.map_eq_some_iff.mp known
  exact exists_frame_iff.mp ⟨frame, found⟩

theorem Nested.mono (grows : heap.Extends later) {start : Option FrameId}
    (nested : heap.Nested scopes start) : later.Nested scopes start := by
  induction nested with
  | outside => exact .outside
  | @inside id layout outer known distinct _ ih =>
    have inside : id < heap.frames.size := lt_size_of_layout known
    refine .inside (grows.layout known) distinct ?_
    -- Frames made later are not around a frame that was there before.
    rw [grows.parent inside]
    exact ih

theorem Nested.cons {scope : List Symbol} (nested : heap.Nested (scope :: outer) (some id)) :
    scope.Nodup ∧ heap.Nested outer (heap.parent id) := by
  cases nested with
  | inside _ distinct around => exact ⟨distinct, around⟩

theorem Nested.lt_size (nested : heap.Nested scopes (some id)) : id < heap.frames.size := by
  cases nested with
  | inside known _ _ => exact lt_size_of_layout known

/-! ### Slots -/

/-- What a name is bound to in a frame with distinct local names. -/
theorem localValue_eq {layout : Layout} (known : heap.layout? id = some layout)
    (distinct : layout.locals.Nodup) (name : Symbol) :
    heap.localValue name id = (layout.locals.idxOf? name).bind (heap.get id) := by
  rw [localValue, known, Option.bind_some, Layout.slotOf, lastEntry_zipIdx distinct]

/-! ### Addresses -/

/-- An address found in the scopes around a frame leads to the nearest frame around it that
has a slot for the name. -/
theorem Nested.findsOutward_of_findFrom {hops : Nat} {address : Address}
    (nested : heap.Nested outer (heap.parent id))
    (found : Scopes.findFrom name outer hops = some address) :
    ∃ up owner, address.hops = hops + up ∧ heap.ancestor id (up + 1) = some owner ∧
      heap.localValue name owner = heap.get owner address.slot ∧
      ∀ result, heap.FindsOutward name (some owner) result →
        heap.FindsOutward name (heap.parent id) result := by
  -- Along the scopes, with the frame one step further out at each of them.
  induction outer generalizing id hops with
  | nil => cases found
  | cons scope outer ih =>
    generalize outward : heap.parent id = start at nested ⊢
    cases nested with
    | @inside parent layout _ known distinct around =>
      simp only [Scopes.findFrom] at found
      split at found
      · next slot here =>
        cases found
        -- The scope has the name, and so does the frame that goes with it.
        refine ⟨0, parent, rfl, ?_, ?_, fun _ result => result⟩
        · simp only [ancestor, outward]
        · rw [localValue_eq known distinct, here, Option.bind_some]
      · next not_local =>
        obtain ⟨up, owner, hops_eq, climbed, has_slot, finds⟩ := ih around found
        -- The frame has no slot for the name, and lookup by name passes it as well.
        refine ⟨up + 1, owner, by omega, ?_, has_slot, fun result known_result => ?_⟩
        · rw [ancestor, outward]
          exact climbed
        · refine .further ?_ (finds result known_result)
          rw [localValue_eq known distinct, not_local, Option.bind_none]

/-! ### The chain of frames -/

/-- The chain of a frame is long enough for the frames around it, which are older. -/
theorem findsOutward_chainFrom {own : FrameId → Prop}
    (older : ∀ id parent, own id → heap.parent id = some parent → own parent ∧ parent < id)
    (name : Symbol) {fuel : Nat} {start : Option FrameId}
    (enough : ∀ id ∈ start, own id ∧ id < fuel) :
    heap.FindsOutward name start
      ((heap.chainFrom fuel start).findSome? (heap.localValue name)) := by
  -- The fuel stays above the number of the frame that comes next.
  induction fuel generalizing start with
  | zero =>
    cases start with
    | none => exact .outside
    | some id => exact absurd (enough id rfl).2 (Nat.not_lt_zero id)
  | succ fuel ih =>
    cases start with
    | none => exact .outside
    | some id =>
      obtain ⟨own, inside⟩ := enough id rfl
      rw [chainFrom, List.findSome?_cons]
      cases bound : heap.localValue name id with
      | some v => exact .bound bound
      | none =>
        refine .further bound (ih fun parent known => ?_)
        obtain ⟨parent_own, before⟩ := older id parent own known
        exact ⟨parent_own, Nat.lt_of_lt_of_le before (Nat.le_of_lt_succ inside)⟩

end Heap

/-! ### Reading -/

namespace Machine

variable {context : Context} {base : FrameId} {D : Discipline context base} {m : Machine}
variable {name : Symbol} {frame : FrameId}

theorem Fits.findsOutward (fits : m.Fits D) {start : Option FrameId}
    (own : ∀ id ∈ start, D.Own id ∧ id < m.heap.frames.size) :
    ∃ result, m.heap.FindsOutward name start result ∧
      m.findOutward name start = result.or (m.global? name) :=
  ⟨_, Heap.findsOutward_chainFrom fits.parents name own, rfl⟩

/-- Around a frame of its own a machine searches by name. -/
theorem Fits.findsOutward_parent (fits : m.Fits D) (own : D.Own frame)
    (inside : frame < m.heap.frames.size) :
    ∃ result, m.heap.FindsOutward name (m.heap.parent frame) result ∧
      m.findOutward name (m.heap.parent frame) = result.or (m.global? name) := by
  refine fits.findsOutward fun parent known => ?_
  obtain ⟨parent_own, before⟩ := fits.parents frame parent own known
  exact ⟨parent_own, Nat.lt_trans before inside⟩

theorem ancestor_lt (fits : m.Fits D) (own : D.Own frame) (inside : frame < m.heap.frames.size)
    {hops : Nat} {owner : FrameId} (climbed : m.heap.ancestor frame hops = some owner) :
    owner < m.heap.frames.size := by
  induction hops generalizing frame with
  | zero =>
    cases climbed
    exact inside
  | succ hops ih =>
    simp only [Heap.ancestor] at climbed
    split at climbed
    · next parent known =>
      obtain ⟨parent_own, before⟩ := fits.parents frame parent own known
      exact ih parent_own (Nat.lt_trans before inside) climbed
    · cases climbed

/-- Following the address that the scopes around a frame give is lookup by name around the
frame. -/
theorem Fits.findAt_eq (fits : m.Fits D) {outer : Scopes} (own : D.Own frame)
    (inside : frame < m.heap.frames.size)
    (nested : m.heap.Nested outer (m.heap.parent frame)) :
    ∃ result, m.heap.FindsOutward name (m.heap.parent frame) result ∧
      m.findAt name frame (Scopes.findFrom name outer 1) = result.or (m.global? name) := by
  cases found : Scopes.findFrom name outer 1 with
  | none => exact fits.findsOutward_parent own inside
  | some address =>
    obtain ⟨up, owner, hops_eq, climbed, has_slot, finds⟩ := nested.findsOutward_of_findFrom found
    rw [Nat.add_comm, ← hops_eq] at climbed
    have owner_own : D.Own owner := fits.ancestor own climbed
    have owner_inside := ancestor_lt fits own inside climbed
    rw [Machine.findAt, climbed]
    dsimp only
    -- The slot at the address is the one of the name; while it is unbound, the search goes on.
    cases bound : m.heap.get owner address.slot with
    | some v => exact ⟨some v, finds _ (.bound (has_slot.trans bound)), rfl⟩
    | none =>
      have further : ∃ result, m.heap.FindsOutward name (m.heap.parent owner) result ∧
          m.findOutward name (m.heap.parent owner) = result.or (m.global? name) :=
        fits.findsOutward_parent owner_own owner_inside
      obtain ⟨result, further, same⟩ := further
      refine ⟨result, finds _ (.further (has_slot.trans bound) further), ?_⟩
      rw [Option.none_or, same]

/-- In a frame that is nested as its layout was laid out, reading a name that the layout
resolves is lookup by name, unless the name is an unbound parameter. -/
theorem Fits.read_of_nested (fits : m.Fits D) {layout : Layout} {outer : Scopes}
    (own : D.Own frame) (known : m.heap.layout? frame = some layout)
    (nested : m.heap.Nested (layout.locals :: outer) (some frame))
    (resolved : layout.resolveRead name =
      some (Scopes.resolveRead (layout.locals :: outer) name)) :
    if name ∈ layout.params.map Prod.fst ∧ m.heap.localValue name frame = none then
      m.read name frame = .error (.missingArgument layout.name name)
    else
      ∃ result, m.heap.FindsOutward name (some frame) result ∧
        m.read name frame = found name (result.or (m.global? name)) := by
  obtain ⟨distinct, around⟩ := nested.cons
  have inside : frame < m.heap.frames.size := Heap.lt_size_of_layout known
  have finding : ∃ result, m.heap.FindsOutward name (m.heap.parent frame) result ∧
      m.findAt name frame (Scopes.findFrom name outer 1) = result.or (m.global? name) :=
    fits.findAt_eq own inside around
  obtain ⟨result, finds, at_address⟩ := finding
  have local_eq := Heap.localValue_eq known distinct name
  have outer_eq : Scopes.findOuter (layout.locals :: outer) name =
      Scopes.findFrom name outer 1 := rfl
  simp only [Machine.read, known, resolved, Scopes.resolveRead, outer_eq, List.headD_cons]
  cases slot_eq : layout.locals.idxOf? name with
  | none =>
    -- A name that is not local is no formal, and is looked for around the frame.
    have not_param : name ∉ layout.params.map Prod.fst := fun param =>
      List.idxOf?_eq_none_iff.mp slot_eq (layout.params_leading.subset param)
    rw [slot_eq, Option.bind_none] at local_eq
    rw [if_neg fun both => not_param both.1]
    refine ⟨result, .further local_eq finds, ?_⟩
    rw [← at_address]
    cases Scopes.findFrom name outer 1 <;> rfl
  | some slot =>
    rw [slot_eq, Option.bind_some] at local_eq
    have param_iff := layout.mem_params_iff slot_eq
    dsimp only
    split
    · next missing =>
      rw [local_eq] at missing
      -- An unbound formal: reading refuses, and does not look around the frame.
      rw [missing.2]
      exact if_pos (param_iff.mp missing.1)
    · next not_missing =>
      rw [local_eq] at not_missing
      cases bound : m.heap.get frame slot with
      | some v => exact ⟨some v, .bound (local_eq.trans bound), rfl⟩
      | none =>
        -- An unbound local name that is no formal: reading goes on around the frame.
        have not_param : ¬slot < layout.params.length := fun param =>
          not_missing ⟨param_iff.mpr param, bound⟩
        refine ⟨result, .further (local_eq.trans bound) finds, ?_⟩
        rw [← at_address]
        exact if_neg not_param

end Machine

/-! ### The discipline -/

namespace Discipline

/-- A closure whose layout was made in scopes that its environment is nested as. -/
structure Lexical (program : Program) (base : FrameId) (heap : Heap) (layout : Layout)
    (env : FrameId) : Prop where
  own : base ≤ env
  nesting : ∃ outer, program.Lays outer layout ∧ heap.Nested outer (some env)

/-- An expression of the own text of the function that a frame is of. -/
structure InOwnText (program : Program) (base : FrameId) (heap : Heap) (e : Expr)
    (frame : FrameId) : Prop where
  own : base ≤ frame
  nesting : ∃ layout outer, heap.layout? frame = some layout ∧ program.Lays outer layout ∧
    heap.Nested (layout.locals :: outer) (some frame) ∧
    ∃ root ∈ ownText layout.params layout.body, root.Within e

/-- Frames are nested as the functions are whose text is evaluated in them. -/
def lexical (context : Context) (base : FrameId)
    (kept : ∀ layout ∈ context.program.layouts,
      context.program.layout? layout.literal = some layout) : Discipline context base where
  guests _ := False
  outermost _ := True
  admits := Lexical context.program base
  places := InOwnText context.program base
  binds _ _ _ := True
  admits_env := by
    rintro heap layout env ⟨own, outer, -, nested⟩
    exact ⟨.inl own, nested.lt_size⟩
  admits_mono := by
    rintro heap later layout env grows ⟨own, outer, lays, nested⟩
    exact ⟨own, outer, lays, nested.mono grows⟩
  places_mono := by
    rintro heap later e frame grows ⟨own, layout, outer, known, lays, nested, text⟩
    exact ⟨own, layout, outer, grows.layout known, lays, nested.mono grows, text⟩
  places_frame := by
    rintro heap e frame ⟨own, layout, outer, known, -⟩
    exact ⟨.inl own, Heap.lt_size_of_layout known⟩
  places_part := by
    rintro heap e part frame ⟨own, layout, outer, known, lays, nested, root, text, within⟩ inside
    exact ⟨own, layout, outer, known, lays, nested, root, text, within.part inside⟩
  admits_function := by
    rintro heap site params body frame layout
      ⟨own, around, outer, -, lays, nested, root, text, within⟩ known
    -- The layout that the literal is found by is the one made for it in these scopes.
    obtain ⟨inner, listed, same, inner_lays⟩ := lays.function text within
    rw [← same, kept inner listed] at known
    cases known
    exact ⟨own, around.locals :: outer, inner_lays, nested⟩
  places_entered := by
    rintro heap later layout env id frame e ⟨-, outer, lays, nested⟩ grows found rfl parent
      inside text
    have known : later.layout? id = some frame.layout := Heap.layout_of_frame found
    refine ⟨inside, frame.layout, outer, known, lays, ?_, e, text, .self⟩
    refine .inside known lays.distinct ?_
    rw [Heap.parent_of_frame found, parent]
    exact nested.mono grows
  binds_closure _ _ _ := trivial
  binds_builtin _ _ _ := trivial

end Discipline

namespace Interpreter

/-- Static addressing agrees with lookup by name. Whenever a name is evaluated in the frame
of a function, what is read is the value in the nearest frame, from that frame outward, in
which the name has a slot that is bound; if there is none, the global variable; and if there
is none either, the name is undefined. Only an unbound parameter of the function itself is
missing instead. -/
theorem read_eq_lookup {settings : Settings} {heap : Heap} {interpreter : Interpreter}
    {requests : List Request} {site : Site} {name : Symbol} {frame : FrameId} {m : Machine}
    (built : build settings heap = .ok interpreter)
    (once : settings.top.literals.Nodup)
    (handsOn : settings.builtins.HandsOn)
    (closed : ∀ entry ∈ settings.globals, entry.2.closures = [])
    (honest : interpreter.Honest [] requests)
    (evaluates : interpreter.Evaluates requests ⟨.ident site name, frame, m⟩) :
    ∃ layout, m.heap.layout? frame = some layout ∧
      if name ∈ layout.params.map Prod.fst ∧ m.heap.localValue name frame = none then
        m.read name frame = .error (.missingArgument layout.name name)
      else
        ∃ result, m.heap.FindsOutward name (some frame) result ∧
          m.read name frame = Machine.found name (result.or (m.global? name)) := by
  obtain ⟨program, resolved, rfl⟩ := build_eq_ok built
  have kept (layout : Layout) (member : layout ∈ program.layouts) :
      program.layout? layout.literal = some layout :=
    Program.layout?_of_mem resolved once member
  let context : Context := { program, builtins := settings.builtins, mode := settings.mode }
  let D := Discipline.lexical context heap.frames.size kept
  -- The root frame has the layout of the program and nothing around it.
  have root : (heap.allocate (.unbound program.toplevel none)).2.frame? heap.frames.size =
      some (.unbound program.toplevel none) := by
    rw [Heap.frame_allocate, if_pos rfl]
  have lays := Program.lays_toplevel resolved
  have nested : (heap.allocate (.unbound program.toplevel none)).2.Nested
      [program.toplevel.locals] (some heap.frames.size) := by
    refine .inside (Heap.layout_of_frame root) lays.distinct ?_
    rw [Heap.parent_of_frame root]
    exact .outside
  have placed : D.places (heap.allocate (.unbound program.toplevel none)).2
      program.toplevel.body heap.frames.size :=
    ⟨Nat.le_refl _, program.toplevel, [], Heap.layout_of_frame root, lays, nested,
      program.toplevel.body, Discipline.body_mem_ownText, .self⟩
  have fits := fits_of_build (D := D) built (fun _ => id) trivial closed placed
  -- Where the name is evaluated the discipline says how the frames are nested.
  obtain ⟨machine_fits, own, layout, outer, known, lays, nested, root, text, within⟩ :=
    allowed_of_evaluates handsOn fits honest evaluates
  refine ⟨layout, known, ?_⟩
  exact machine_fits.read_of_nested (.inl own) known nested (lays.resolveRead_of_within text within)

/-- The program `(function() y)()`. -/
def readInCall : Expr :=
  .call ⟨3, default⟩ (.function ⟨2, default⟩ [] (.ident ⟨1, default⟩ "y")) []

/-- In the frame of the call the name is looked up like any other. -/
theorem read_eq_lookup_readInCall :
    ∃ interpreter m layout,
      build { top := readInCall, globals := [("y", .ofBool true)] } .empty = .ok interpreter ∧
      interpreter.Evaluates [.run 2] ⟨.ident ⟨1, default⟩ "y", 1, m⟩ ∧
      m.heap.layout? 1 = some layout ∧
      if "y" ∈ layout.params.map Prod.fst ∧ m.heap.localValue "y" 1 = none then
        m.read "y" 1 = .error (.missingArgument layout.name "y")
      else
        ∃ result, m.heap.FindsOutward "y" (some 1) result ∧
          m.read "y" 1 = Machine.found "y" (result.or (m.global? "y")) := by
  obtain ⟨interpreter, m, built, evaluates⟩ :
      ∃ interpreter m,
        build { top := readInCall, globals := [("y", .ofBool true)] } .empty = .ok interpreter ∧
        interpreter.Evaluates [.run 2] ⟨.ident ⟨1, default⟩ "y", 1, m⟩ :=
    ⟨_, _, rfl, .inl (.run (.inside (.call rfl rfl (.body rfl rfl)) .here))⟩
  have honest : interpreter.Honest [] [.run 2] :=
    ⟨fun _ handed => (List.not_mem_nil handed).elim, trivial⟩
  obtain ⟨layout, known, reads⟩ := read_eq_lookup built (by decide) Registry.standard_handsOn
    (by simp) honest evaluates
  exact ⟨interpreter, m, layout, built, evaluates, known, reads⟩

end Interpreter

end Vectorial
