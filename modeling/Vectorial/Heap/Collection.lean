import Vectorial.Heap.References

/-!
# Collecting cycles

Frames that hold each other are never released by themselves. When their owner gives a
set of frames up, those that nothing else can reach are cleared, which breaks the cycles
among them.

A frame has a holder elsewhere if it has more references than the search of the frames
and values given up finds, or if one of those found is shared, since then it is unknown
how many there are. Such a frame and everything it reaches is left alone.

## Main definitions

* `Heap.heldElsewhere`: the frames that have a holder elsewhere;
* `Heap.reached`: the frames that can be reached from some of them;
* `Heap.collect`: the heap without the cycles, and how many frames were cleared.
-/

namespace Vectorial

namespace Heap

variable (heap : Heap)

/-- Extends `kept` by the pending frames and by everything in `tracked` that they lead to.
Each frame is pending once, so that `fuel` need not exceed the number of frames. -/
def extend (next : FrameId → List FrameId) (tracked : List FrameId) :
    Nat → List FrameId → List FrameId → List FrameId
  | 0, _, kept => kept
  | _, [], kept => kept
  | fuel + 1, id :: pending, kept =>
    let new := ((next id).filter fun other => tracked.contains other && !kept.contains other).eraseDups
    extend next tracked fuel (new ++ pending) (new ++ kept)

/-- The tracked frames that can be reached from the given ones. -/
def reached (next : FrameId → List FrameId) (tracked start : List FrameId) : List FrameId :=
  extend next tracked (tracked.length + start.length) start start

/-- What a search of frames and values that are given up finds. -/
def foundEdges (isShared : StorageId → Bool) (tracked : List FrameId) (owned : List Value) :
    List (FrameId × Edge) :=
  tracked.flatMap (heap.edgesOf isShared) ++ owned.flatMap (Value.edges isShared .owned)

/-- The frames, among those that are tracked, that have a holder elsewhere. One reference to
each of them is the handle that was given up. -/
def heldElsewhere (tracked : List FrameId) (owned : List Value) (outside : Holders) :
    List FrameId :=
  let everything : Holders := outside ++ ⟨tracked, owned⟩
  let found := heap.foundEdges (isSharedIn (heap.heldStorages everything)) tracked owned
  let ownedEdges := (found.filter fun edge => edge.2 = .owned).map Prod.fst
  let pinned := (found.filter fun edge => edge.2 = .shared).map Prod.fst
  let single := heap.singleReferences everything
  let lists := heap.heldLists everything
  tracked.filter fun id =>
    pinned.contains id || ownedEdges.count id + 1 < strongCount single lists id

/-- Clears those of the frames `given` that only they and the values `owned` keep alive.
Both are about to be released by their owner; `outside` is everything else that holds
frames. The answer says how many frames were cleared. -/
def collect (given : List FrameId) (owned : List Value) (outside : Holders) : Nat × Heap :=
  let tracked := given.eraseDups
  let kept := reached (fun id => (heap.edgesOf (fun _ => false) id).map Prod.fst) tracked
    (heap.heldElsewhere tracked owned outside)
  let garbage := tracked.filter fun id => !kept.contains id
  let ticks := tracked.flatMap heap.searchTicksOf ++ owned.flatMap Value.searchTicks ++
    kept.flatMap heap.searchTicksOf
  (garbage.length, garbage.foldl clear (heap.record ticks))

end Heap

end Vectorial
