import Vectorial.Heap.Work

/-!
# Frames through changes of the heap

Evaluation adds frames and binds slots. It never takes a frame away and never changes the
layout or the parent of one, so that what is known of the frames around a closure stays
known.

## Main definitions

* `Heap.Extends`: every frame is still there, with its layout and its parent.

## Main results

* `Heap.extends_allocate`, `Heap.extends_set`: new frames and bound slots extend a heap;
* `Heap.get_set`, `Heap.get_allocate`: the slots afterwards.
-/

namespace Vectorial

namespace Heap

variable {heap later : Heap} {id other : FrameId}

theorem get_eq (heap : Heap) (id : FrameId) (slot : Nat) :
    heap.get id slot = (heap.frame? id).bind fun frame => frame.slots[slot]?.join := by
  rw [get, slots]
  cases heap.frame? id <;> simp

theorem get_of_frame_eq (same : later.frame? id = heap.frame? id) (slot : Nat) :
    later.get id slot = heap.get id slot := by
  rw [get_eq, get_eq, same]

theorem parent_of_frame {frame : Frame} (found : heap.frame? id = some frame) :
    heap.parent id = frame.parent := by
  rw [parent, found, Option.bind_some]

theorem layout_of_frame {frame : Frame} (found : heap.frame? id = some frame) :
    heap.layout? id = some frame.layout := by
  rw [layout?, found, Option.map_some]

theorem exists_frame_iff : (∃ frame, heap.frame? id = some frame) ↔ id < heap.frames.size := by
  rw [frame?]
  constructor
  · rintro ⟨frame, found⟩
    exact (Array.getElem?_eq_some_iff.mp found).1
  · intro inside
    exact ⟨_, Array.getElem?_eq_getElem inside⟩

theorem frame_eq_none_iff : heap.frame? id = none ↔ heap.frames.size ≤ id := by
  rw [frame?]
  exact Array.getElem?_eq_none_iff

/-! ### Changes -/

theorem frame_allocate (heap : Heap) (frame : Frame) (id : FrameId) :
    (heap.allocate frame).2.frame? id =
      if id = heap.frames.size then some frame else heap.frame? id := by
  simp only [allocate, frame?, Array.getElem?_push]

/-- A bound slot is all that binding changes. -/
theorem frame_set {slot : Nat} {value : Value} (bound : heap.set id slot value = .ok later) :
    later.frame? other =
      if other = id then (heap.frame? other).map fun frame =>
        { frame with slots := frame.slots.set slot (some value) }
      else heap.frame? other := by
  unfold set at bound
  dsimp only at bound
  split at bound
  · cases bound
    simp only [frame?, Array.getElem?_modify, eq_comm (a := id)]
  · cases bound

/-- What a frame was before a slot was bound. -/
theorem exists_frame_of_set {slot : Nat} {value : Value} {frame : Frame}
    (bound : heap.set id slot value = .ok later) (found : later.frame? other = some frame) :
    ∃ before, heap.frame? other = some before ∧ frame.layout = before.layout ∧
      frame.parent = before.parent ∧ frame.slots.length = before.slots.length := by
  rw [frame_set bound] at found
  split at found
  · obtain ⟨before, known, rfl⟩ := Option.map_eq_some_iff.mp found
    exact ⟨before, known, rfl, rfl, List.length_set⟩
  · exact ⟨frame, found, rfl, rfl, rfl⟩

theorem frame_count (heap : Heap) (tick : Tick) : (heap.count tick).frame? = heap.frame? :=
  rfl

/-- Counting changes no more than the counters. -/
theorem record_eq (heap : Heap) (ticks : List Tick) :
    ∃ traces, traces.size = heap.traces.size ∧ heap.record ticks = { heap with traces } := by
  unfold record
  induction ticks generalizing heap with
  | nil => exact ⟨heap.traces, rfl, rfl⟩
  | cons tick rest ih =>
    obtain ⟨traces, size, recorded⟩ := ih (heap.count tick)
    refine ⟨traces, size.trans Array.size_modify, ?_⟩
    rw [List.foldl_cons, recorded]
    rfl

theorem frame_record (heap : Heap) (ticks : List Tick) :
    (heap.record ticks).frame? = heap.frame? := by
  rw [record]
  induction ticks generalizing heap with
  | nil => rfl
  | cons tick rest ih => rw [List.foldl_cons, ih, frame_count]

theorem frame_addTrace (heap : Heap) (value : Value) :
    (heap.addTrace value).2.frame? = heap.frame? := by
  rw [addTrace]
  split <;> rfl

theorem slot_lt_of_set {slot : Nat} {value : Value}
    (bound : heap.set id slot value = .ok later) : slot < (heap.slots id).length := by
  unfold set at bound
  dsimp only at bound
  split at bound
  · assumption
  · cases bound

theorem get_set {slot index : Nat} {value : Value} (bound : heap.set id slot value = .ok later) :
    later.get other index =
      if other = id ∧ index = slot then some value else heap.get other index := by
  rw [get_eq, get_eq, frame_set bound]
  by_cases same : other = id
  · subst same
    have inside := slot_lt_of_set bound
    cases found : heap.frame? other with
    | none => simp [slots, found] at inside
    | some frame =>
      have inside : slot < frame.slots.length := by simpa [slots, found] using inside
      by_cases here : index = slot
      · subst here
        simp [inside]
      · simp [here, List.getElem?_set_ne (Ne.symm here)]
  · simp [same]

theorem get_allocate (heap : Heap) (frame : Frame) (id : FrameId) (slot : Nat) :
    (heap.allocate frame).2.get id slot =
      if id = heap.frames.size then frame.slots[slot]?.join else heap.get id slot := by
  rw [get_eq, get_eq, frame_allocate]
  split <;> simp

/-- What is bound beside a new frame without bound variables was bound before. -/
theorem get_of_get_allocate_unbound {layout : Layout} {parent : Option FrameId} {slot : Nat}
    {v : Value} (bound : (heap.allocate (.unbound layout parent)).2.get id slot = some v) :
    id ≠ heap.frames.size ∧ heap.get id slot = some v := by
  rw [get_allocate] at bound
  split at bound
  · have member := List.mem_of_getElem? (Option.join_eq_some_iff.mp bound)
    cases List.eq_of_mem_replicate member
  · next old => exact ⟨old, bound⟩

/-- What lies inside another frame beside a new outermost one did so before. -/
theorem parent_of_parent_allocate_unbound {layout : Layout} {parent : FrameId}
    (known : (heap.allocate (.unbound layout none)).2.parent id = some parent) :
    id ≠ heap.frames.size ∧ heap.parent id = some parent := by
  rw [Heap.parent, frame_allocate] at known
  split at known
  · cases known
  · next old => exact ⟨old, known⟩

/-! ### Growth -/

/-- Every frame of `heap` is in `later`, with the same layout and the same parent. -/
def Extends (heap later : Heap) : Prop :=
  ∀ id frame, heap.frame? id = some frame →
    ∃ slots, later.frame? id = some { frame with slots }

theorem Extends.refl (heap : Heap) : heap.Extends heap :=
  fun _ frame found => ⟨frame.slots, found⟩

theorem Extends.trans {last : Heap} (first : heap.Extends later) (second : later.Extends last) :
    heap.Extends last := by
  intro id frame found
  obtain ⟨slots, kept⟩ := first id frame found
  obtain ⟨final, stays⟩ := second id _ kept
  exact ⟨final, stays⟩

theorem extends_of_frame_eq (same : later.frame? = heap.frame?) : heap.Extends later :=
  fun id frame found => ⟨frame.slots, by rw [same, found]⟩

theorem extends_allocate (heap : Heap) (frame : Frame) : heap.Extends (heap.allocate frame).2 := by
  intro id old found
  have inside : id < heap.frames.size := exists_frame_iff.mp ⟨old, found⟩
  refine ⟨old.slots, ?_⟩
  rw [frame_allocate, if_neg (Nat.ne_of_lt inside), found]

theorem extends_set {slot : Nat} {value : Value} (bound : heap.set id slot value = .ok later) :
    heap.Extends later := by
  intro other frame found
  rw [frame_set bound, found]
  by_cases same : other = id
  · exact ⟨frame.slots.set slot (some value), by simp [same]⟩
  · exact ⟨frame.slots, by simp [same]⟩

theorem Extends.layout {layout : Layout} (grows : heap.Extends later)
    (known : heap.layout? id = some layout) : later.layout? id = some layout := by
  obtain ⟨frame, found, rfl⟩ := Option.map_eq_some_iff.mp known
  obtain ⟨slots, kept⟩ := grows id frame found
  rw [layout_of_frame kept]

theorem Extends.lt_size (grows : heap.Extends later) (inside : id < heap.frames.size) :
    id < later.frames.size := by
  obtain ⟨frame, found⟩ := exists_frame_iff.mpr inside
  obtain ⟨slots, kept⟩ := grows id frame found
  exact exists_frame_iff.mp ⟨_, kept⟩

theorem Extends.parent (grows : heap.Extends later) (inside : id < heap.frames.size) :
    later.parent id = heap.parent id := by
  obtain ⟨frame, found⟩ := exists_frame_iff.mpr inside
  obtain ⟨slots, kept⟩ := grows id frame found
  rw [parent_of_frame found, parent_of_frame kept]

end Heap

end Vectorial
