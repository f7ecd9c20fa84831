import Vectorial.Call.Binding
import Vectorial.Value.Coercion

/-!
# Frames

A frame holds the local variables of one activation in the slots of its layout, and has
the frame of the enclosing function as its parent. Frames refer to each other through
parents and through closures in their slots, so they live in a heap and are named by
numbers; a frame keeps its number for ever.

The heap also has the counters of counting views and hands out identities for lists.

## Main definitions

* `Frame`, `Heap`: frames, and the heap that has them;
* `Heap.allocate`: a new frame;
* `Heap.get`, `Heap.set`, `Heap.clear`: reading, binding and emptying slots;
* `Heap.ancestor`: the frame some number of parents up;
* `Frame.ofCall`: the frame of a call;
* `Heap.record`: the counters after some reads.
-/

namespace Vectorial

/-- The variables of one activation. -/
structure Frame where
  layout : Layout
  slots : List (Option Value)
  parent : Option FrameId

namespace Frame

/-- A frame without any variable bound. -/
def unbound (layout : Layout) (parent : Option FrameId) : Frame :=
  ⟨layout, List.replicate layout.frameSize none, parent⟩

/-- What the parameter at a position is bound to at the start of a call: the varargs
marker to the list of what it absorbed, every other one to its actual if it has one. -/
def initialSlot (layout : Layout) (binding : Binding) (actuals : Parts) (fresh : StorageId)
    (index : Nat) : Option Value :=
  if layout.formals.dotsIndex = some index then
    some (.ofParts fresh (binding.dots.filterMap fun actual => actuals[actual]?))
  else (binding.actualFor index).bind fun actual => (actuals[actual]?).map Prod.snd

/-- The frame of a call, before defaults are filled in. The list of absorbed actuals is
kept in the storage `fresh`. -/
def ofCall (layout : Layout) (binding : Binding) (actuals : Parts) (fresh : StorageId)
    (parent : FrameId) : Frame :=
  let bound := (List.range layout.formals.length).map
    (initialSlot layout binding actuals fresh)
  ⟨layout, bound ++ List.replicate (layout.frameSize - bound.length) none, some parent⟩

end Frame

/-- All frames, all counters, and the next free identity of a list. -/
structure Heap where
  frames : Array Frame := #[]
  traces : Array Trace := #[]
  nextStorage : StorageId := 1

namespace Heap

/-- No frames and no counters. -/
def empty : Heap := {}

variable (heap : Heap)

/-! ### Frames -/

/-- One more frame, and its number. -/
def allocate (frame : Frame) : FrameId × Heap :=
  (heap.frames.size, { heap with frames := heap.frames.push frame })

/-- The frame with a number. -/
def frame? (id : FrameId) : Option Frame :=
  heap.frames[id]?

/-- The layout of a frame. -/
def layout? (id : FrameId) : Option Layout :=
  (heap.frame? id).map Frame.layout

/-- The parent of a frame. -/
def parent (id : FrameId) : Option FrameId :=
  (heap.frame? id).bind Frame.parent

/-- The frame `hops` parents up. -/
def ancestor (id : FrameId) : Nat → Option FrameId
  | 0 => some id
  | hops + 1 =>
    match heap.parent id with
    | some parent => ancestor parent hops
    | none => none

/-! ### Slots -/

/-- The slots of a frame. -/
def slots (id : FrameId) : List (Option Value) :=
  ((heap.frame? id).map Frame.slots).getD []

/-- What a slot is bound to. -/
def get (id : FrameId) (slot : Nat) : Option Value :=
  (heap.slots id)[slot]?.join

/-- Binds a slot, which the frame must have. -/
def set (id : FrameId) (slot : Nat) (value : Value) : Except Defect Heap :=
  let size := (heap.slots id).length
  if slot < size then
    .ok { heap with
      frames := heap.frames.modify id fun frame =>
        { frame with slots := frame.slots.set slot (some value) } }
  else .error (.slotPastFrame slot size)

/-- Takes all slots and the parent from a frame. -/
def clear (id : FrameId) : Heap :=
  { heap with frames := heap.frames.modify id fun frame => ⟨frame.layout, [], none⟩ }

/-! ### Counters and lists -/

/-- New counters. -/
def newTrace : TraceId × Heap :=
  (heap.traces.size, { heap with traces := heap.traces.push {} })

/-- The counters of a counting view. -/
def trace (id : TraceId) : Trace :=
  heap.traces.getD id {}

/-- The counters after one event. -/
def count (tick : Tick) : Heap :=
  { heap with traces := heap.traces.modify tick.id fun trace => trace.after tick }

/-- The counters after some events. -/
def record (ticks : List Tick) : Heap :=
  ticks.foldl count heap

/-- An identity for a list. -/
def newStorage : StorageId × Heap :=
  (heap.nextStorage, { heap with nextStorage := heap.nextStorage + 1 })

/-- The value with its view behind new counters, if it is a view without counters. -/
def addTrace (value : Value) : Value × Heap :=
  if value.isUntraced then
    let (id, heap) := heap.newTrace
    (value.traced id, heap)
  else (value, heap)

end Heap

end Vectorial
