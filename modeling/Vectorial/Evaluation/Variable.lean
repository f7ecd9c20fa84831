import Vectorial.Evaluation.Machine

/-!
# Reading and binding variables

A name is first looked for at the address that its layout gives. The variable there may
not be bound yet; then the frames further out are searched by name, and the global
variables last.

## Main definitions

* `Heap.chain`: a frame and those around it;
* `Machine.findOutward`: a variable by name, from a frame outward;
* `Machine.read`: the value of a name in a frame;
* `Machine.bindAt`: a slot bound, or a global variable;
* `Machine.assign`, `Machine.assignOuter`: local and non-local assignment.
-/

namespace Vectorial

namespace Heap

variable (heap : Heap)

/-- At most `fuel` frames from a frame outward. -/
def chainFrom : Nat → Option FrameId → List FrameId
  | 0, _ => []
  | _, none => []
  | fuel + 1, some id => id :: chainFrom fuel (heap.parent id)

/-- A frame and those around it, innermost first. -/
def chain (start : Option FrameId) : List FrameId :=
  heap.chainFrom heap.frames.size start

/-- What a name is bound to in a frame. -/
def localValue (name : Symbol) (id : FrameId) : Option Value :=
  ((heap.layout? id).bind fun layout => layout.slotOf name).bind (heap.get id)

end Heap

namespace Machine

variable (m : Machine)

/-- What a name is bound to in the nearest frame that binds it, from `start` outward, and
else as a global variable. -/
def findOutward (name : Symbol) (start : Option FrameId) : Option Value :=
  ((m.heap.chain start).findSome? (m.heap.localValue name)).or (m.global? name)

/-- What a name is bound to at an address seen from a frame, or else further out. Without
an address the search begins around the frame. -/
def findAt (name : Symbol) (frame : FrameId) (address : Option Address) : Option Value :=
  match address with
  | none => m.findOutward name (m.heap.parent frame)
  | some address =>
    match m.heap.ancestor frame address.hops with
    | none => m.findOutward name (m.heap.parent frame)
    | some owner =>
      (m.heap.get owner address.slot).or (m.findOutward name (m.heap.parent owner))

/-- What was found under a name; an error if nothing was. -/
def found (name : Symbol) : Option Value → Except Cause Value
  | some value => .ok value
  | none => .error (.undefinedVariable name)

/-- The value of a name in a frame. A parameter without a value is missing; any other
local name without one is looked for further out. -/
def read (name : Symbol) (frame : FrameId) : Except Cause Value :=
  match m.heap.layout? frame with
  | none => .error (.undefinedVariable name)
  | some layout =>
    match layout.resolveRead name with
    | some (.here slot outer) =>
      match m.heap.get frame slot with
      | some value => .ok value
      | none =>
        if slot < layout.params.length then .error (.missingArgument layout.name name)
        else found name (m.findAt name frame outer)
    | some (.enclosing address) => found name (m.findAt name frame (some address))
    | some .nowhere => found name (m.findOutward name (m.heap.parent frame))
    | none => found name (m.findOutward name (m.heap.parent frame))

/-- The machine with a slot bound. -/
def setSlot (frame : FrameId) (slot : Nat) (value : Value) : Except Defect Machine :=
  (m.heap.set frame slot value).map fun heap => { m with heap }

/-- The machine with the slot at a place bound, or with the global variable of the name bound
if there is no such place. -/
def bindAt (place : Option (FrameId × Nat)) (name : Symbol) (value : Value) :
    Except Defect Machine :=
  match place with
  | some (owner, slot) => m.setSlot owner slot value
  | none => .ok (m.setGlobal name value)

/-- The slot that local assignment to a name in a frame binds, if there is one. -/
def localSlot (name : Symbol) (frame : FrameId) : Option (FrameId × Nat) :=
  ((m.heap.layout? frame).bind fun layout => layout.slotOf name).map fun slot => (frame, slot)

/-- Local assignment: to the slot of the name, or to the global variable if the frame has
none for it. -/
def assign (name : Symbol) (value : Value) (frame : FrameId) : Except Defect Machine :=
  m.bindAt (m.localSlot name frame) name value

/-- The slot that non-local assignment to a name from a frame binds, if there is one. -/
def outerSlot (name : Symbol) (frame : FrameId) : Option (FrameId × Nat) := do
  let layout ← m.heap.layout? frame
  let resolution ← layout.resolveSuper name
  let address ← resolution.address?
  let owner ← m.heap.ancestor frame address.hops
  pure (owner, address.slot)

/-- Non-local assignment: to the nearest variable of that name around the frame, or to the
global one. -/
def assignOuter (name : Symbol) (value : Value) (frame : FrameId) : Except Defect Machine :=
  m.bindAt (m.outerSlot name frame) name value

end Machine

end Vectorial
