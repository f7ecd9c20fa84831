import Vectorial.Heap.Basic

/-!
# References between frames

A frame is referred to by a handle, by the parent link of another frame and by every
closure over it, wherever that closure is. A search for closures does not see all of
them: it looks into lists and attributes, but not behind views, and of a list that several
values share it cannot tell how often it is held.

A frame is kept as long as something refers to it. Frames that refer to each other in a
cycle are therefore kept for ever.

## Main definitions

* `Value.environments`, `Value.lists`: every frame and every list that a value holds;
* `Value.direct`: the frames that a value holds without a list;
* `Edge`, `Value.edges`: the frames that a search finds, and how it found them;
* `Holders`: what holds frames from outside;
* `Heap.references`: every reference to a frame;
* `Heap.alive`: the frames that have not been released;
* `Heap.strongCount`: how many references to a frame there are.
-/

namespace Vectorial

/-! ### What a value holds -/

mutual

/-- The frames of all closures in a value, as often as they occur. -/
def Value.environments : Value → List FrameId
  | .null => []
  | .vector storage metadata => storage.environments ++ environmentsOfMetadata metadata
  | .closure _ env => [env]
  | .builtin .. => []

/-- The frames of all closures in a storage. -/
def Storage.environments : Storage → List FrameId
  | .atoms .. => []
  | .list _ items => environmentsOfItems items
  | .view source => source.environments

/-- The frames of all closures behind a view. -/
def View.environments : View → List FrameId
  | .sequence _ => []
  | .range _ => []
  | .coerce source _ => source.environments
  | .traced _ inner => inner.environments

/-- The frames of all closures in list items. -/
def environmentsOfItems : List Value → List FrameId
  | [] => []
  | item :: rest => item.environments ++ environmentsOfItems rest

/-- The frames of all closures in metadata. -/
def environmentsOfMetadata : Option Metadata → List FrameId
  | none => []
  | some (.mk _ _ attributes) => environmentsOfAttributes attributes

/-- The frames of all closures in attributes. -/
def environmentsOfAttributes : List (Symbol × Value) → List FrameId
  | [] => []
  | (_, value) :: rest => value.environments ++ environmentsOfAttributes rest

end

mutual

/-- The frames of the closures in a value that are not in a list. A closure in a list is
there as often as the list is, however many values have the list. -/
def Value.direct : Value → List FrameId
  | .null => []
  | .vector storage metadata => storage.direct ++ directOfMetadata metadata
  | .closure _ env => [env]
  | .builtin .. => []

/-- The frames of the closures in a storage that are not in a list. -/
def Storage.direct : Storage → List FrameId
  | .atoms .. => []
  | .list .. => []
  | .view source => source.direct

/-- The frames of the closures behind a view that are not in a list. -/
def View.direct : View → List FrameId
  | .sequence _ => []
  | .range _ => []
  | .coerce source _ => source.direct
  | .traced _ inner => inner.direct

/-- The frames of the closures in metadata that are not in a list. -/
def directOfMetadata : Option Metadata → List FrameId
  | none => []
  | some (.mk _ _ attributes) => directOfAttributes attributes

/-- The frames of the closures in attributes that are not in a list. -/
def directOfAttributes : List (Symbol × Value) → List FrameId
  | [] => []
  | (_, value) :: rest => value.direct ++ directOfAttributes rest

end

mutual

/-- All lists in a value with their items, as often as they occur. -/
def Value.lists : Value → List (StorageId × List Value)
  | .null => []
  | .vector storage metadata => storage.lists ++ listsOfMetadata metadata
  | .closure .. => []
  | .builtin .. => []

/-- All lists in a storage with their items. -/
def Storage.lists : Storage → List (StorageId × List Value)
  | .atoms .. => []
  | .list id items => (id, items) :: listsOfItems items
  | .view source => source.lists

/-- All lists behind a view with their items. -/
def View.lists : View → List (StorageId × List Value)
  | .sequence _ => []
  | .range _ => []
  | .coerce source _ => source.lists
  | .traced _ inner => inner.lists

/-- All lists in list items with their items. -/
def listsOfItems : List Value → List (StorageId × List Value)
  | [] => []
  | item :: rest => item.lists ++ listsOfItems rest

/-- All lists in metadata with their items. -/
def listsOfMetadata : Option Metadata → List (StorageId × List Value)
  | none => []
  | some (.mk _ _ attributes) => listsOfAttributes attributes

/-- All lists in attributes with their items. -/
def listsOfAttributes : List (Symbol × Value) → List (StorageId × List Value)
  | [] => []
  | (_, value) :: rest => value.lists ++ listsOfAttributes rest

end

/-! ### What a search finds -/

/-- How a frame was found. -/
inductive Edge where
  /-- By a reference of which there is exactly this one. -/
  | owned
  /-- Through something that other values may hold too. -/
  | shared
  deriving DecidableEq, Inhabited

mutual

/-- The frames that a search of a value finds, in order. What is found in a list counts
as shared if the list is, what is found in an attribute always. -/
def Value.edges (isShared : StorageId → Bool) (edge : Edge) : Value → List (FrameId × Edge)
  | .null => []
  | .vector storage metadata => storage.edges isShared edge ++ edgesOfMetadata metadata
  | .closure _ env => [(env, edge)]
  | .builtin .. => []

/-- The frames that a search of a storage finds. The search takes its own copy of every
item, so that lists inside lists look shared. -/
def Storage.edges (isShared : StorageId → Bool) (edge : Edge) : Storage → List (FrameId × Edge)
  | .atoms .. => []
  | .list id items => edgesOfItems (if isShared id then .shared else edge) items
  | .view _ => []

/-- The frames that a search of list items finds. -/
def edgesOfItems (edge : Edge) : List Value → List (FrameId × Edge)
  | [] => []
  | item :: rest => item.edges (fun _ => true) edge ++ edgesOfItems edge rest

/-- The frames that a search of metadata finds. -/
def edgesOfMetadata : Option Metadata → List (FrameId × Edge)
  | none => []
  | some (.mk _ _ attributes) => edgesOfAttributes attributes

/-- The frames that a search of attributes finds. -/
def edgesOfAttributes : List (Symbol × Value) → List (FrameId × Edge)
  | [] => []
  | (_, value) :: rest => value.edges (fun _ => true) .shared ++ edgesOfAttributes rest

end

mutual

/-- The events that a search of a value causes: it reads every list item, also of a list
that is computed on demand. -/
def Value.searchTicks : Value → List Tick
  | .null => []
  | .vector storage metadata => storage.searchTicks ++ searchTicksOfMetadata metadata
  | .closure .. => []
  | .builtin .. => []

/-- The events that a search of a storage causes. -/
def Storage.searchTicks : Storage → List Tick
  | .atoms .. => []
  | .list _ items => searchTicksOfItems items
  | .view source =>
    if source.kind = .list then ((List.range source.size).mapM source.element).ticks else []

/-- The events that a search of list items causes. -/
def searchTicksOfItems : List Value → List Tick
  | [] => []
  | item :: rest => item.searchTicks ++ searchTicksOfItems rest

/-- The events that a search of metadata causes. -/
def searchTicksOfMetadata : Option Metadata → List Tick
  | none => []
  | some (.mk _ _ attributes) => searchTicksOfAttributes attributes

/-- The events that a search of attributes causes. -/
def searchTicksOfAttributes : List (Symbol × Value) → List Tick
  | [] => []
  | (_, value) :: rest => value.searchTicks ++ searchTicksOfAttributes rest

end

namespace Frame

/-- The values that the slots are bound to. -/
def values (frame : Frame) : List Value :=
  frame.slots.filterMap id

/-- The frames that a frame refers to, as often as it does. -/
def references (frame : Frame) : List FrameId :=
  frame.parent.toList ++ frame.values.flatMap Value.environments

/-- The frames that a search of a frame finds: its parent, then those in its slots. -/
def edges (isShared : StorageId → Bool) (frame : Frame) : List (FrameId × Edge) :=
  frame.parent.toList.map (fun parent => (parent, Edge.owned)) ++
    frame.values.flatMap (Value.edges isShared .owned)

end Frame

/-! ### Who refers to a frame -/

/-- Handles and values outside the heap. -/
structure Holders where
  handles : List FrameId := []
  values : List Value := []

namespace Holders

/-- Both together. -/
def append (a b : Holders) : Holders :=
  ⟨a.handles ++ b.handles, a.values ++ b.values⟩

instance : Append Holders := ⟨append⟩

/-- The frames that are referred to from outside, as often as they are. -/
def references (holders : Holders) : List FrameId :=
  holders.handles ++ holders.values.flatMap Value.environments

end Holders

/-- Whether a list is one of several occurrences. -/
def isSharedIn (storages : List StorageId) (id : StorageId) : Bool :=
  1 < storages.count id

/-- How often each number below `size` is in the list. -/
def tally (size : Nat) (ids : List Nat) : Array Nat :=
  ids.foldl (fun counts id => counts.modify id (· + 1)) (Array.replicate size 0)

namespace Heap

variable (heap : Heap)

/-- The frames that the frame with a number refers to. -/
def referencesOf (id : FrameId) : List FrameId :=
  ((heap.frame? id).map Frame.references).getD []

/-- Takes one reference from each of the given frames. The frames that have none left are
put before `pending`. -/
def release (counts : Array Nat) (pending : List FrameId) :
    List FrameId → Array Nat × List FrameId
  | [] => (counts, pending)
  | id :: rest =>
    let counts := counts.modify id (· - 1)
    release counts (if counts.getD id 0 = 0 then id :: pending else pending) rest

/-- Releases the pending frames and, one after the other, those that lose their last
reference by it. A frame is released once, so that `fuel` need not exceed the number of
frames. -/
def releaseAll : Nat → Array Nat → List FrameId → Array Nat
  | 0, counts, _ => counts
  | _, counts, [] => counts
  | fuel + 1, counts, id :: pending =>
    let (counts, pending) := release counts pending (heap.referencesOf id)
    releaseAll fuel counts pending

/-- How many references each frame has once all frames without references are released. -/
def referenceCounts (holders : Holders) : Array Nat :=
  let size := heap.frames.size
  let all := holders.references ++ (List.range size).flatMap heap.referencesOf
  let counts := tally size all
  heap.releaseAll size counts ((List.range size).filter fun id => counts.getD id 0 = 0)

/-- The frames that are still referred to. -/
def alive (holders : Holders) : List FrameId :=
  let counts := heap.referenceCounts holders
  (List.range heap.frames.size).filter fun id => 0 < counts.getD id 0

/-- The values that the slots of a frame are bound to. -/
def valuesOf (id : FrameId) : List Value :=
  ((heap.frame? id).map Frame.values).getD []

/-- All values that are still held, those outside and those in the slots of frames that are
alive. -/
def heldValues (holders : Holders) : List Value :=
  holders.values ++ (heap.alive holders).flatMap heap.valuesOf

/-- The lists in all values that are still held, as often as they occur. -/
def heldLists (holders : Holders) : List (StorageId × List Value) :=
  (heap.heldValues holders).flatMap Value.lists

/-- The identities of the lists that are still held, as often as they occur. -/
def heldStorages (holders : Holders) : List StorageId :=
  (heap.heldLists holders).map Prod.fst

/-- The references to frames from handles, parent links and closures that are not in a
list. -/
def singleReferences (holders : Holders) : List FrameId :=
  holders.handles ++ (heap.alive holders).filterMap heap.parent ++
    (heap.heldValues holders).flatMap Value.direct

/-- The references to a frame that closures in a list have. All values that have the list
agree on its items. -/
def referencesInList (lists : List (StorageId × List Value)) (id : FrameId) (list : StorageId) :
    Nat :=
  ((lists.filter fun entry => entry.1 == list).map fun entry =>
    (entry.2.flatMap Value.direct).count id).foldl max 0

/-- The references to a frame that closures in some lists have together. -/
def referencesInLists (lists : List (StorageId × List Value)) (id : FrameId) :
    List StorageId → Nat
  | [] => 0
  | list :: rest => referencesInList lists id list + referencesInLists lists id rest

/-- How many references to a frame there are, those in a list counted once for the list. How
often what is in an attribute or behind a view counts makes no difference, since a search
either finds that it may be shared or does not find it. -/
def strongCount (single : List FrameId) (lists : List (StorageId × List Value)) (id : FrameId) :
    Nat :=
  single.count id + referencesInLists lists id (lists.map Prod.fst).eraseDups

/-- The frames that a search of a frame finds. -/
def edgesOf (isShared : StorageId → Bool) (id : FrameId) : List (FrameId × Edge) :=
  ((heap.frame? id).map (Frame.edges isShared)).getD []

/-- The events that a search of a frame causes. -/
def searchTicksOf (id : FrameId) : List Tick :=
  ((heap.frame? id).map fun frame => frame.values.flatMap Value.searchTicks).getD []

end Heap

end Vectorial
