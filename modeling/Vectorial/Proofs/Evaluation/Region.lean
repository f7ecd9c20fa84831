import Vectorial.Proofs.Evaluation.Likeness
import Vectorial.Proofs.Evaluation.OuterAssignment
import Vectorial.Proofs.Heap.Frames
import Vectorial.Proofs.Value.Disregard

/-!
# Regions of frames

Two machines may have the same left in their frames and global variables, when counters or
editions are disregarded. It is enough to ask this of the frames that evaluation may come to.
These are closed under parents and under the closures that they hold, and new frames are among
them. What is left determines where a name is found, and every change of one machine can be
made in the other.

## Main definitions

* `Region`: frames and functions that evaluation may come to;
* `Region.Values`, `Region.Frames`, `Region.Heaps`, `Region.Machines`: the same left of two;
* `Region.Closed`: heaps whose frames around lead to no others.

## Main results

* `Region.Heaps.of_closed`: heaps with the same frames around;
* `Region.Machines.read`, `Region.Machines.assign`, `Region.Machines.assignOuter`: variables;
* `Region.frames_ofCall`: the frames of two calls.
-/

namespace Vectorial

variable {d : Disregard}

/-! ### What is left of layouts and frames -/

namespace Layout

variable {layout other : Layout}

theorem slotOf_of_without (same : other.without d = layout.without d) (name : Symbol) :
    other.slotOf name = layout.slotOf name :=
  congrArg (fun layout => layout.slotOf name) same

theorem resolveRead_of_without (same : other.without d = layout.without d) (name : Symbol) :
    other.resolveRead name = layout.resolveRead name :=
  congrArg (fun layout => layout.resolveRead name) same

theorem resolveSuper_of_without (same : other.without d = layout.without d) (name : Symbol) :
    other.resolveSuper name = layout.resolveSuper name :=
  congrArg (fun layout => layout.resolveSuper name) same

theorem callable_of_without (same : other.without d = layout.without d) :
    other.callable = layout.callable :=
  congrArg (fun layout => layout.callable) same

theorem resembles_of_without (same : other.without d = layout.without d) :
    layout.Resembles other :=
  ⟨congrArg (fun layout => layout.name) same, congrArg (fun layout => layout.params) same,
    congrArg (fun layout => layout.body) same⟩

end Layout

/-- The frame without what is disregarded. -/
def Frame.without (d : Disregard) (frame : Frame) : Frame :=
  ⟨frame.layout.without d, frame.slots.map (Option.map (Value.without d)), frame.parent⟩

/-- Frames and functions that evaluation may come to, and what else is asked of two machines. -/
structure Region (d : Disregard) where
  /-- The first of the frames that are made from now on. -/
  base : FrameId
  /-- The frames that are around. -/
  keeps : FrameId → Prop
  /-- The functions that are around. -/
  admits : Layout → Prop
  /-- The expressions that may be evaluated. -/
  texts : Expr → Prop
  /-- What is asked of the bindings that two machines keep. -/
  caches : Option BindingCache → Option BindingCache → Prop
  /-- The calls of the past, in either machine. -/
  past : List FrameId × List FrameId
  keeps_of_le {id : FrameId} : base ≤ id → keeps id

namespace Region

variable (R : Region d)

/-- Whether all closures in a value may be around. -/
def Admits (v : Value) : Prop :=
  ∀ c ∈ v.closures, R.admits c.1 ∧ R.keeps c.2

/-- Values of which the same is left. -/
structure Values (v w : Value) : Prop where
  left : w.without d = v.without d
  admitted : R.Admits v

/-- Frames of which the same is left. -/
structure Frames (frame other : Frame) : Prop where
  layout : other.layout.without d = frame.layout.without d
  slots : List.Forall₂ (Option.Rel R.Values) frame.slots other.slots
  parent : other.parent = frame.parent
  keeps : ∀ id ∈ frame.parent, R.keeps id

/-- Heaps of which the same is left. -/
structure Heaps (heap other : Heap) : Prop where
  frames (id : FrameId) : R.keeps id → Option.Rel R.Frames (heap.frame? id) (other.frame? id)
  size : other.frames.size = heap.frames.size
  base : R.base ≤ heap.frames.size
  storage : other.nextStorage = heap.nextStorage
  traces : d.counters = false → other.traces.size = heap.traces.size

/-- Machines of which the same is left. -/
structure Machines (m n : Machine) : Prop where
  heap : R.Heaps m.heap n.heap
  globals (name : Symbol) : Option.Rel R.Values (m.global? name) (n.global? name)
  stack : n.stack = m.stack
  cache : R.caches m.cache n.cache
  activations : ∃ since, m.activations = since ++ R.past.1 ∧ n.activations = since ++ R.past.2

variable {R}

/-! ### Values -/

/-- A value without closures of which nothing is left out. -/
theorem values_of_plain {v : Value} (closed : v.closures = []) : R.Values v v :=
  ⟨rfl, fun c held => by simp [closed] at held⟩

/-- The same is left of two closures, of a builtin and itself, or of values that are no
functions. -/
theorem Values.cases {v w : Value} (alike : R.Values v w) :
    (∃ layout layout' env, v = .closure layout env ∧ w = .closure layout' env ∧
      layout'.without d = layout.without d) ∨
    (∃ name handle, v = .builtin name handle ∧ w = .builtin name handle) ∨
    (v.isFunction = false ∧ w.isFunction = false ∧ w.typeName = v.typeName) := by
  obtain ⟨left, -⟩ := alike
  have function : w.isFunction = v.isFunction := by
    rw [← w.isFunction_without (d := d), left, v.isFunction_without]
  have type : w.typeName = v.typeName := by
    rw [← w.typeName_without (d := d), left, v.typeName_without]
  -- Leaving something out keeps what kind of function a value is, so that mixed cases do not occur.
  cases v with
  | null => exact .inr (.inr ⟨rfl, function, type⟩)
  | vector storage metadata => exact .inr (.inr ⟨rfl, function, type⟩)
  | closure layout env =>
    cases w with
    | closure layout' env' =>
      obtain ⟨same, rfl⟩ : layout'.without d = layout.without d ∧ env' = env := by
        simpa [Value.without] using left
      exact .inl ⟨layout, layout', _, rfl, rfl, same⟩
    | _ => simp [Value.without] at left
  | builtin name handle =>
    cases w with
    | builtin name' handle' =>
      obtain ⟨rfl, rfl⟩ : name' = name ∧ handle' = handle := by simpa [Value.without] using left
      exact .inr (.inl ⟨_, _, rfl, rfl⟩)
    | _ => simp [Value.without] at left

theorem Values.resembles {v w : Value} (alike : R.Values v w) : v.Resembles w := by
  rcases alike.cases with ⟨layout, layout', env, rfl, rfl, same⟩ | ⟨name, handle, rfl, rfl⟩ |
    ⟨first, second, type⟩
  · exact .closure (Layout.resembles_of_without same) env
  · exact .builtin name handle
  · exact .data first second type

theorem callable_of_data {context : Context} {v : Value} (data : v.isFunction = false) :
    context.callable? v = none := by
  cases v with
  | null => rfl
  | vector => rfl
  | closure => cases data
  | builtin => cases data

/-- The same is called when values are of which the same is left. -/
theorem Values.callable {context other : Context}
    (same_builtins : other.builtins = context.builtins) {v w : Value} (alike : R.Values v w) :
    other.callable? w = context.callable? v := by
  rcases alike.cases with ⟨layout, layout', env, rfl, rfl, same⟩ | ⟨name, handle, rfl, rfl⟩ |
    ⟨first, second, -⟩
  · exact congrArg some (Layout.callable_of_without same)
  · rw [Context.callable?, Context.callable?, same_builtins]
  · rw [callable_of_data first, callable_of_data second]

theorem without_eq_of_likewise {actuals actuals' : Parts}
    (likewise : Parts.Likewise R.Values actuals actuals') :
    actuals'.without d = actuals.without d := by
  induction likewise with
  | nil => rfl
  | cons first _ ih => exact congrArg₂ List.cons (Prod.ext first.1 first.2.left) ih

theorem admits_of_likewise {actuals actuals' : Parts}
    (likewise : Parts.Likewise R.Values actuals actuals') {c : Layout × FrameId}
    (held : c ∈ actuals.closures) : R.admits c.1 ∧ R.keeps c.2 := by
  induction likewise with
  | nil => cases held
  | cons first _ ih =>
    rcases List.mem_append.mp held with here | later
    · exact first.2.admitted c here
    · exact ih later

theorem values_ofParts {parts parts' : Parts} (likewise : Parts.Likewise R.Values parts parts')
    (fresh : StorageId) : R.Values (.ofParts fresh parts) (.ofParts fresh parts') := by
  refine ⟨?_, fun c held => ?_⟩
  · rw [Value.without_ofParts, Value.without_ofParts, without_eq_of_likewise likewise]
  · rw [Value.closures_ofParts] at held
    exact admits_of_likewise likewise held

/-! ### Frames -/

theorem Frames.left {frame other : Frame} (alike : R.Frames frame other) :
    other.without d = frame.without d := by
  have slots : other.slots.map (Option.map (Value.without d)) =
      frame.slots.map (Option.map (Value.without d)) := by
    have related := alike.slots
    generalize frame.slots = slots at related ⊢
    generalize other.slots = slots' at related ⊢
    induction related with
    | nil => rfl
    | cons first _ ih =>
      rw [List.map_cons, List.map_cons, ih]
      cases first with
      | none => rfl
      | some values => rw [Option.map_some, Option.map_some, values.left]
  rw [Frame.without, Frame.without, alike.layout, slots, alike.parent]

/-! ### Reading frames -/

theorem left_of_rel {value value' : Option Value} (related : Option.Rel R.Values value value') :
    value'.map (Value.without d) = value.map (Value.without d) := by
  cases related with
  | none => rfl
  | some values => exact congrArg some values.left

theorem rel_of_left {value value' : Option Value}
    (left : value'.map (Value.without d) = value.map (Value.without d))
    (admitted : ∀ v, value = some v → R.Admits v) : Option.Rel R.Values value value' := by
  cases value with
  | none =>
    cases value' with
    | none => exact .none
    | some => cases left
  | some v =>
    cases value' with
    | none => cases left
    | some v' => exact .some ⟨Option.some.inj left, admitted v rfl⟩

theorem admits_of_rel {value value' : Option Value} (related : Option.Rel R.Values value value')
    (v : Value) (here : value = some v) : R.Admits v := by
  subst here
  cases related with
  | some values => exact values.admitted

theorem rel_getElem? {α β : Type} {P : α → β → Prop} {xs : List α} {ys : List β}
    (related : List.Forall₂ P xs ys) (index : Nat) : Option.Rel P xs[index]? ys[index]? := by
  induction related generalizing index with
  | nil => exact .none
  | cons first _ ih =>
    cases index with
    | zero => exact .some first
    | succ index => exact ih index

theorem rel_set {α β : Type} {P : α → β → Prop} {xs : List α} {ys : List β} {x : α} {y : β}
    (related : List.Forall₂ P xs ys) (index : Nat) (new : P x y) :
    List.Forall₂ P (xs.set index x) (ys.set index y) := by
  induction related generalizing index with
  | nil => exact .nil
  | cons first rest ih =>
    cases index with
    | zero => exact .cons new rest
    | succ index => exact .cons first (ih index)

theorem rel_or {α β : Type} {P : α → β → Prop} {x x' : Option α} {y y' : Option β}
    (first : Option.Rel P x y) (second : Option.Rel P x' y') :
    Option.Rel P (x.or x') (y.or y') := by
  cases first with
  | none => exact second
  | some related => exact .some related

namespace Heaps

variable {heap other : Heap} {id : FrameId}

theorem left (alike : R.Heaps heap other) (kept : R.keeps id) :
    (other.frame? id).map (Frame.without d) = (heap.frame? id).map (Frame.without d) := by
  have frames := alike.frames id kept
  generalize heap.frame? id = found at frames
  generalize other.frame? id = found' at frames
  cases frames with
  | none => rfl
  | some same => exact congrArg some same.left

theorem layout (alike : R.Heaps heap other) (kept : R.keeps id) :
    Option.Rel (fun layout layout' : Layout => layout'.without d = layout.without d)
      (heap.layout? id) (other.layout? id) := by
  have frames := alike.frames id kept
  unfold Heap.layout?
  generalize heap.frame? id = found at frames
  generalize other.frame? id = found' at frames
  cases frames with
  | none => exact .none
  | some same => exact .some same.layout

theorem parent (alike : R.Heaps heap other) (kept : R.keeps id) :
    other.parent id = heap.parent id ∧ ∀ parent ∈ heap.parent id, R.keeps parent := by
  have frames := alike.frames id kept
  unfold Heap.parent
  generalize heap.frame? id = found at frames
  generalize other.frame? id = found' at frames
  cases frames with
  | none => exact ⟨rfl, by simp⟩
  | some same => exact ⟨same.parent, same.keeps⟩

theorem get (alike : R.Heaps heap other) (kept : R.keeps id) (slot : Nat) :
    Option.Rel R.Values (heap.get id slot) (other.get id slot) := by
  have frames := alike.frames id kept
  rw [Heap.get_eq, Heap.get_eq]
  generalize heap.frame? id = found at frames
  generalize other.frame? id = found' at frames
  cases frames with
  | none => exact .none
  | @some frame frame' same =>
    have bound := rel_getElem? same.slots slot
    dsimp only [Option.bind_some]
    generalize frame.slots[slot]? = there at bound
    generalize frame'.slots[slot]? = there' at bound
    cases bound with
    | none => exact .none
    | some related => exact related

theorem ancestor (alike : R.Heaps heap other) (kept : R.keeps id) (hops : Nat) :
    other.ancestor id hops = heap.ancestor id hops ∧
      ∀ owner ∈ heap.ancestor id hops, R.keeps owner := by
  induction hops generalizing id with
  | zero =>
    refine ⟨rfl, ?_⟩
    rintro _ ⟨⟩
    exact kept
  | succ hops ih =>
    obtain ⟨same, keeps⟩ := alike.parent kept
    unfold Heap.ancestor
    rw [same]
    cases found : heap.parent id with
    | none => exact ⟨rfl, by simp⟩
    | some parent => exact ih (keeps parent found)

/-- The frames around one that is around are the same, and are around. -/
theorem chainFrom (alike : R.Heaps heap other) (fuel : Nat) {start : Option FrameId}
    (kept : ∀ id ∈ start, R.keeps id) :
    other.chainFrom fuel start = heap.chainFrom fuel start ∧
      ∀ id ∈ heap.chainFrom fuel start, R.keeps id := by
  induction fuel generalizing start with
  | zero => exact ⟨rfl, by simp [Heap.chainFrom]⟩
  | succ fuel ih =>
    cases start with
    | none => exact ⟨rfl, by simp [Heap.chainFrom]⟩
    | some id =>
      have here := kept id rfl
      obtain ⟨same, keeps⟩ := alike.parent here
      -- The next frame is around as well, since frames that are around have their parents around.
      obtain ⟨same', keeps'⟩ := ih keeps
      refine ⟨?_, ?_⟩
      · rw [Heap.chainFrom, Heap.chainFrom, same, same']
      · rintro other (_ | ⟨_, later⟩)
        · exact here
        · exact keeps' other later

theorem localValue (alike : R.Heaps heap other) (kept : R.keeps id) (name : Symbol) :
    Option.Rel R.Values (heap.localValue name id) (other.localValue name id) := by
  have layouts := alike.layout kept
  unfold Heap.localValue
  generalize heap.layout? id = known at layouts
  generalize other.layout? id = known' at layouts
  cases layouts with
  | none => exact .none
  | @some layout layout' same =>
    dsimp only [Option.bind_some]
    rw [Layout.slotOf_of_without same name]
    cases layout.slotOf name with
    | none => exact .none
    | some slot => exact alike.get kept slot

theorem findSome (alike : R.Heaps heap other) (name : Symbol) {ids : List FrameId}
    (kept : ∀ id ∈ ids, R.keeps id) :
    Option.Rel R.Values (ids.findSome? (heap.localValue name))
      (ids.findSome? (other.localValue name)) := by
  induction ids with
  | nil => exact .none
  | cons id rest ih =>
    have here := alike.localValue (kept id List.mem_cons_self) name
    rw [List.findSome?_cons, List.findSome?_cons]
    generalize heap.localValue name id = found at here
    generalize other.localValue name id = found' at here
    cases here with
    | none => exact ih fun id later => kept id (List.mem_cons_of_mem _ later)
    | some related => exact .some related

/-! ### Changes of a heap -/

theorem set (alike : R.Heaps heap other) (kept : R.keeps id) (slot : Nat) {v w : Value}
    (values : R.Values v w) : Likewise R.Heaps (heap.set id slot v) (other.set id slot w) := by
  -- Both frames have as many slots, so that a slot is missing in both or in neither.
  have sizes : (other.slots id).length = (heap.slots id).length := by
    have frames := alike.frames id kept
    unfold Heap.slots
    generalize heap.frame? id = found at frames
    generalize other.frame? id = found' at frames
    cases frames with
    | none => rfl
    | some same => exact same.slots.length_eq.symm
  cases bound : heap.set id slot v with
  | error defect =>
    have unbound : other.set id slot w = .error defect := by
      unfold Heap.set at bound ⊢
      rw [sizes]
      dsimp only at bound ⊢
      split at bound
      · cases bound
      · next past =>
        cases bound
        rw [if_neg past]
    rw [unbound]
    exact .error defect
  | ok later =>
    obtain ⟨later', bound', size, size', rest, rest'⟩ : ∃ later', other.set id slot w = .ok later' ∧
        later.frames.size = heap.frames.size ∧ later'.frames.size = other.frames.size ∧
        (later.traces = heap.traces ∧ later.nextStorage = heap.nextStorage) ∧
        later'.traces = other.traces ∧ later'.nextStorage = other.nextStorage := by
      unfold Heap.set at bound ⊢
      rw [sizes]
      dsimp only at bound ⊢
      split at bound
      · next inside =>
        cases bound
        rw [if_pos inside]
        exact ⟨_, rfl, Array.size_modify, Array.size_modify, ⟨rfl, rfl⟩, rfl, rfl⟩
      · cases bound
    rw [bound']
    refine .ok ⟨fun id' kept' => ?_, ?_, ?_, ?_, fun counted => ?_⟩
    · rw [Heap.frame_set bound, Heap.frame_set bound']
      have frames := alike.frames id' kept'
      generalize heap.frame? id' = found at frames
      generalize other.frame? id' = found' at frames
      split
      · cases frames with
        | none => exact .none
        | some same =>
          exact .some ⟨same.layout, rel_set same.slots slot (.some values), same.parent, same.keeps⟩
      · exact frames
    · rw [size, size', alike.size]
    · rw [size]
      exact alike.base
    · rw [rest.2, rest'.2, alike.storage]
    · rw [rest.1, rest'.1, alike.traces counted]

theorem allocate (alike : R.Heaps heap other) {frame frame' : Frame}
    (frames : R.Frames frame frame') :
    (other.allocate frame').1 = (heap.allocate frame).1 ∧ R.keeps (heap.allocate frame).1 ∧
      R.Heaps (heap.allocate frame).2 (other.allocate frame').2 := by
  refine ⟨alike.size, R.keeps_of_le alike.base, fun id kept => ?_, ?_, ?_, alike.storage,
    alike.traces⟩
  · rw [Heap.frame_allocate, Heap.frame_allocate, alike.size]
    split
    · exact .some frames
    · exact alike.frames id kept
  · simp [Heap.allocate, alike.size]
  · exact Nat.le_trans alike.base (by simp [Heap.allocate])

/-- Counting reads leaves the same. -/
theorem record (alike : R.Heaps heap other) (ticks ticks' : List Tick) :
    R.Heaps (heap.record ticks) (other.record ticks') := by
  obtain ⟨traces, size, recorded⟩ := heap.record_eq ticks
  obtain ⟨traces', size', recorded'⟩ := other.record_eq ticks'
  rw [recorded, recorded']
  exact ⟨alike.frames, alike.size, alike.base, alike.storage, fun counted => by
    rw [size, size', alike.traces counted]⟩

/-- So does taking the same identities for lists. -/
theorem withStorage (alike : R.Heaps heap other) (next : StorageId) :
    R.Heaps { heap with nextStorage := next } { other with nextStorage := next } :=
  ⟨alike.frames, alike.size, alike.base, rfl, alike.traces⟩

/-- Counters may be put in front of a view on one side only if counters are disregarded. -/
theorem addTrace (alike : R.Heaps heap other) (kept : d.counters = false) {v w : Value}
    (values : R.Values v w) :
    R.Values (heap.addTrace v).1 (other.addTrace w).1 ∧
      R.Heaps (heap.addTrace v).2 (other.addTrace w).2 := by
  have traces := alike.traces kept
  have untraced : w.isUntraced = v.isUntraced := by
    rw [← w.isUntraced_without kept, values.left, v.isUntraced_without kept]
  unfold Heap.addTrace Heap.newTrace
  rw [untraced]
  split
  · refine ⟨⟨?_, fun c held => values.admitted c ?_⟩, alike.frames, alike.size, alike.base,
      alike.storage, fun _ => ?_⟩
    · dsimp only
      rw [← Value.traced_without kept, ← Value.traced_without kept, values.left, traces]
    · rwa [Value.closures_traced] at held
    · simp [traces]
  · exact ⟨values, alike⟩

end Heaps

/-! ### Variables -/

namespace Machines

variable {m n : Machine} {frame : FrameId}

theorem findOutward (alike : R.Machines m n) (name : Symbol) {start : Option FrameId}
    (kept : ∀ id ∈ start, R.keeps id) :
    Option.Rel R.Values (m.findOutward name start) (n.findOutward name start) := by
  unfold Machine.findOutward Heap.chain
  obtain ⟨same, keeps⟩ := alike.heap.chainFrom m.heap.frames.size kept
  rw [alike.heap.size, same]
  exact rel_or (alike.heap.findSome name keeps) (alike.globals name)

theorem findAt (alike : R.Machines m n) (name : Symbol) (kept : R.keeps frame)
    (address : Option Address) :
    Option.Rel R.Values (m.findAt name frame address) (n.findAt name frame address) := by
  obtain ⟨same_parent, parent_kept⟩ := alike.heap.parent kept
  unfold Machine.findAt
  rw [same_parent]
  cases address with
  | none => exact alike.findOutward name parent_kept
  | some address =>
    obtain ⟨same, keeps⟩ := alike.heap.ancestor kept address.hops
    dsimp only
    rw [same]
    cases found : m.heap.ancestor frame address.hops with
    | none => exact alike.findOutward name parent_kept
    | some owner =>
      have owner_kept := keeps owner found
      obtain ⟨same_outer, outer_kept⟩ := alike.heap.parent owner_kept
      dsimp only
      rw [same_outer]
      -- What the slot has, or else what is found from the frame around it on.
      exact rel_or (alike.heap.get owner_kept address.slot) (alike.findOutward name outer_kept)

theorem likewise_found {P : Value → Value → Prop} {x y : Option Value} (name : Symbol)
    (related : Option.Rel P x y) : Likewise P (Machine.found name x) (Machine.found name y) := by
  cases related with
  | none => exact .error _
  | some related => exact .ok related

/-- A name has the same left of its value, in a frame that is around. -/
theorem read (alike : R.Machines m n) (name : Symbol) (kept : R.keeps frame) :
    Likewise R.Values (m.read name frame) (n.read name frame) := by
  have layouts := alike.heap.layout kept
  obtain ⟨same_parent, parent_kept⟩ := alike.heap.parent kept
  have outward := likewise_found name (alike.findOutward name parent_kept)
  have addressed (address : Option Address) :=
    likewise_found name (alike.findAt name kept address)
  unfold Machine.read
  rw [same_parent]
  generalize m.heap.layout? frame = known at layouts
  generalize n.heap.layout? frame = known' at layouts
  cases layouts with
  | none => exact .error _
  | @some layout layout' same =>
    dsimp only
    rw [Layout.resolveRead_of_without same name]
    cases layout.resolveRead name with
    | none => exact outward
    | some resolution =>
      cases resolution with
      | here slot outer =>
        have bound := alike.heap.get kept slot
        dsimp only
        generalize m.heap.get frame slot = value at bound
        generalize n.heap.get frame slot = value' at bound
        cases bound with
        | some related => exact .ok related
        | none =>
          -- A parameter without a value is an error that names the function.
          have resembles := Layout.resembles_of_without same
          dsimp only
          rw [resembles.params, resembles.name]
          split
          · exact .error _
          · exact addressed outer
      | enclosing address => exact addressed (some address)
      | nowhere => exact outward

theorem setSlot (alike : R.Machines m n) (kept : R.keeps frame) (slot : Nat) {v w : Value}
    (values : R.Values v w) :
    Likewise R.Machines (m.setSlot frame slot v) (n.setSlot frame slot w) := by
  have bound := alike.heap.set kept slot values
  unfold Machine.setSlot
  generalize m.heap.set frame slot v = result at bound
  generalize n.heap.set frame slot w = result' at bound
  cases bound with
  | ok heaps => exact .ok { alike with heap := heaps }
  | error defect => exact .error defect

theorem setGlobal (alike : R.Machines m n) (name : Symbol) {v w : Value} (values : R.Values v w) :
    R.Machines (m.setGlobal name v) (n.setGlobal name w) := by
  refine { alike with globals := fun other => ?_ }
  rw [Machine.global?_setGlobal, Machine.global?_setGlobal]
  split
  · exact .some values
  · exact alike.globals other

theorem bindAt (alike : R.Machines m n) {place : Option (FrameId × Nat)}
    (kept : ∀ at_place ∈ place, R.keeps at_place.1) (name : Symbol) {v w : Value}
    (values : R.Values v w) :
    Likewise R.Machines (m.bindAt place name v) (n.bindAt place name w) := by
  cases place with
  | some place => exact alike.setSlot (kept place rfl) place.2 values
  | none => exact .ok (alike.setGlobal name values)

theorem localSlot (alike : R.Machines m n) (name : Symbol) (kept : R.keeps frame) :
    n.localSlot name frame = m.localSlot name frame ∧
      ∀ place ∈ m.localSlot name frame, R.keeps place.1 := by
  have layouts := alike.heap.layout kept
  unfold Machine.localSlot
  generalize m.heap.layout? frame = known at layouts
  generalize n.heap.layout? frame = known' at layouts
  refine ⟨?_, fun place found => ?_⟩
  · cases layouts with
    | none => rfl
    | @some layout layout' same => rw [Option.bind_some, Layout.slotOf_of_without same name]; rfl
  · obtain ⟨slot, -, rfl⟩ := Option.map_eq_some_iff.mp found
    exact kept

theorem assign (alike : R.Machines m n) (name : Symbol) (kept : R.keeps frame) {v w : Value}
    (values : R.Values v w) :
    Likewise R.Machines (m.assign name v frame) (n.assign name w frame) := by
  obtain ⟨same, keeps⟩ := alike.localSlot name kept
  rw [Machine.assign, Machine.assign, same]
  exact alike.bindAt keeps name values

theorem outerSlot (alike : R.Machines m n) (name : Symbol) (kept : R.keeps frame) :
    n.outerSlot name frame = m.outerSlot name frame ∧
      ∀ place ∈ m.outerSlot name frame, R.keeps place.1 := by
  have layouts := alike.heap.layout kept
  unfold Machine.outerSlot
  generalize m.heap.layout? frame = known at layouts
  generalize n.heap.layout? frame = known' at layouts
  cases layouts with
  | none => exact ⟨rfl, by simp⟩
  | @some layout layout' same =>
    dsimp only [Option.bind_eq_bind, Option.bind_some]
    -- The name resolves alike in both layouts; what is left out of them are default values and
    -- bodies.
    rw [Layout.resolveSuper_of_without same name]
    cases layout.resolveSuper name with
    | none => exact ⟨rfl, by simp⟩
    | some resolution =>
      cases found : resolution.address? with
      | none => simp [found]
      | some address =>
        obtain ⟨same_owner, keeps⟩ := alike.heap.ancestor kept address.hops
        simp only [Option.bind_some, found, same_owner, true_and]
        intro place bound
        obtain ⟨owner, around, ⟨⟩⟩ := Option.bind_eq_some_iff.mp bound
        exact keeps owner around

theorem assignOuter (alike : R.Machines m n) (name : Symbol) (kept : R.keeps frame) {v w : Value}
    (values : R.Values v w) :
    Likewise R.Machines (m.assignOuter name v frame) (n.assignOuter name w frame) := by
  obtain ⟨same, keeps⟩ := alike.outerSlot name kept
  rw [Machine.assignOuter, Machine.assignOuter, same]
  exact alike.bindAt keeps name values

end Machines

/-! ### Frames of calls -/

/-- The actuals that the varargs marker absorbs. -/
theorem likewise_absorbed {actuals actuals' : Parts}
    (likewise : Parts.Likewise R.Values actuals actuals') (dots : List Nat) :
    Parts.Likewise R.Values (dots.filterMap fun actual => actuals[actual]?)
      (dots.filterMap fun actual => actuals'[actual]?) := by
  induction dots with
  | nil => exact .nil
  | cons actual rest ih =>
    have here := rel_getElem? likewise actual
    rw [List.filterMap_cons, List.filterMap_cons]
    generalize actuals[actual]? = part at here
    generalize actuals'[actual]? = part' at here
    cases here with
    | none => exact ih
    | some related => exact .cons related ih

theorem frames_ofCall {layout layout' : Layout} (same : layout'.without d = layout.without d)
    {actuals actuals' : Parts} (likewise : Parts.Likewise R.Values actuals actuals')
    (binding : Binding) (fresh : StorageId) {env : FrameId} (kept : R.keeps env) :
    R.Frames (.ofCall layout binding actuals fresh env)
      (.ofCall layout' binding actuals' fresh env) := by
  have formals : layout'.formals = layout.formals := congrArg (fun layout => layout.formals) same
  have size : layout'.frameSize = layout.frameSize := congrArg (fun layout => layout.frameSize) same
  -- The varargs slot gets a list of what is absorbed, any other slot an actual or nothing.
  have bound (index : Nat) : Option.Rel R.Values
      (Frame.initialSlot layout binding actuals fresh index)
      (Frame.initialSlot layout' binding actuals' fresh index) := by
    unfold Frame.initialSlot
    rw [formals]
    split
    · exact .some (values_ofParts (likewise_absorbed likewise _) fresh)
    · cases binding.actualFor index with
      | none => exact .none
      | some actual =>
        have here := rel_getElem? likewise actual
        dsimp only [Option.bind_some]
        generalize actuals[actual]? = part at here
        generalize actuals'[actual]? = part' at here
        cases here with
        | none => exact .none
        | some related => exact .some related.2
  refine ⟨same, ?_, rfl, ?_⟩
  · unfold Frame.ofCall
    dsimp only
    rw [formals, size]
    refine List.rel_append ?_ ?_
    · exact List.forall₂_map_left_iff.mpr (List.forall₂_map_right_iff.mpr
        (List.forall₂_same.mpr fun index _ => bound index))
    · rw [List.length_map, List.length_map]
      exact List.forall₂_same.mpr fun slot member => by
        rw [List.eq_of_mem_replicate member]
        exact .none
  · rintro _ ⟨⟩
    exact kept

/-! ### Closed regions -/

section

variable {heap later : Heap}

/-- Whether the frames around in a heap lead to no others. -/
structure Closed (R : Region d) (heap : Heap) : Prop where
  base : R.base ≤ heap.frames.size
  slots : ∀ id slot v, R.keeps id → heap.get id slot = some v → R.Admits v
  parents : ∀ id parent, R.keeps id → heap.parent id = some parent → R.keeps parent

/-- The same is left of two heaps with the same frames around. -/
theorem Heaps.of_closed (closed : R.Closed heap)
    (same : ∀ id, R.keeps id → later.frame? id = heap.frame? id)
    (size : later.frames.size = heap.frames.size) (storage : later.nextStorage = heap.nextStorage)
    (traces : later.traces.size = heap.traces.size) : R.Heaps heap later where
  frames id kept := by
    rw [same id kept]
    cases found : heap.frame? id with
    | none => exact .none
    | some frame =>
      -- A frame is beside itself because what it holds and leads to is around.
      refine .some ⟨rfl, List.forall₂_same.mpr fun value member => rel_of_left rfl ?_, rfl, ?_⟩
      · rintro v rfl
        obtain ⟨slot, bound⟩ := List.mem_iff_getElem?.mp member
        refine closed.slots id slot v kept ?_
        rw [Heap.get_eq, found, Option.bind_some, bound]
        rfl
      · intro parent inside
        exact closed.parents id parent kept ((Heap.parent_of_frame found).trans inside)
  size := size
  base := closed.base
  storage := storage
  traces _ := traces

theorem Heaps.closed (alike : R.Heaps heap later) : R.Closed heap where
  base := alike.base
  slots _ slot v kept bound := admits_of_rel (alike.get kept slot) v bound
  parents _ parent kept known := (alike.parent kept).2 parent known

end

end Region

end Vectorial
