import Vectorial.Heap.Basic
import Vectorial.Run
import Vectorial.Value.Assignment

/-!
# Working with values in a heap

An operation on values is performed in a heap: its reads are counted there, and the lists
that it makes get identities from there.

## Main definitions

* `Operation`: an attempt that may take identities for new lists;
* `HeapM`: steps on a heap;
* `HeapM.metered`, `HeapM.attempt`, `HeapM.operate`: operations on values as steps;
* `HeapM.makeList`, `HeapM.zeroed`, `HeapM.traced`, `HeapM.materialize`, `HeapM.assign`:
  making values and changing them.
-/

namespace Vectorial

/-- An attempt that may also take identities for new lists; the state is the next one that
is free. -/
abbrev Operation := StateT StorageId Attempt

/-- An identity that no list has. -/
def Operation.freshStorage : Operation StorageId := do
  let id ← get
  set (id + 1)
  pure id

/-- A step on a heap. -/
abbrev HeapM := Run Heap

namespace HeapM

variable {α : Type}

/-- A reading. Its events are counted. -/
def metered (reading : Metered α) : HeapM α := do
  modify fun heap => heap.record reading.ticks
  pure reading.value

/-- An attempt. Its reads are counted whatever the outcome. -/
def attempt (operation : Attempt α) : HeapM α := do
  let outcome : Except Fault α ← metered operation
  match outcome with
  | .ok a => pure a
  | .error (.error cause) => Run.fail cause
  | .error (.defect defect) => throw (.defect defect)

/-- An operation. The identities that it took are not given out again. -/
def operate (operation : Operation α) : HeapM α := do
  let heap ← get
  let (a, next) ← attempt (operation heap.nextStorage)
  modify fun heap => { heap with nextStorage := next }
  pure a

/-- An identity for a list. -/
def newStorage : HeapM StorageId :=
  modifyGet Heap.newStorage

/-- A new frame. -/
def newFrame (frame : Frame) : HeapM FrameId :=
  modifyGet fun heap => heap.allocate frame

/-- Binds a slot. -/
def setSlot (frame : FrameId) (slot : Nat) (value : Value) : HeapM Unit := do
  let heap ← get
  let heap ← Run.ofDefect (heap.set frame slot value)
  set heap

/-! ### Values -/

/-- A list. -/
def makeList (items : List Value) : HeapM Value := do
  let id ← newStorage
  pure (.ofItems id items)

/-- A vector of zeros, all of whose bytes must be addressable. -/
def zeroed (kind : Kind) (length : Nat) : HeapM Value := do
  if Nat.pow 2 63 ≤ length * kind.width then throw (.defect .capacityOverflow)
  let id ← newStorage
  pure (.zeroed id kind length)

/-- The view behind new counters; other values as they are. -/
def traced (v : Value) : HeapM Value :=
  modifyGet fun heap => heap.addTrace v

/-- The stored vector with the same elements. -/
def materialize (v : Value) : HeapM Value := do
  let id ← newStorage
  metered (v.materialize id)

/-- The vector with one element replaced. -/
def assign (v : Value) (index : Nat) (element : Scalar) : HeapM Value := do
  let id ← newStorage
  attempt (v.set id index element)

/-- A function without parameters whose frame is the outermost of its own. -/
def makeFunction (name : Symbol) : HeapM Value := do
  let heap ← get
  let site : Site := ⟨0, .dummy⟩
  let layout ← Run.ofDefect <| Layout.of heap.frames.size
    { name, site, params := [], body := .literal site .null, locals := [], reads := []
      supers := [] }
  let env ← newFrame (.unbound layout none)
  pure (.closure layout env)

end HeapM

end Vectorial
