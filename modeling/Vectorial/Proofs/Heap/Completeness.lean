import Vectorial.Proofs.Heap.Collection
import Vectorial.Proofs.Value.Nested

/-!
# Which cycles a collection breaks

When no list has two holders and no closure is in an attribute or behind a view, the references
to a frame that was given up are all found, unless the frame can still be reached. A collection
would then clear every frame that cannot be reached, were it not for lists inside lists: the
search takes what is in them for shared and keeps it, with everything that it leads to.

## Main definitions

* `Heap.IsSimple`: no list has two holders, and closures are only in slots and in lists;
* `Heap.IsBuried`: frames of closures in lists inside lists;
* `Heap.IsWithheld`: what such frames lead to;
* `Heap.Clears`: what a collection does with the frames that cannot be reached.

## Main results

* `Heap.strongCount_le`: a frame has no more references than there are;
* `Heap.mem_kept_iff`: what is kept can be reached or is withheld;
* `Heap.unreachable_frames_are_cleared`: everything else is cleared.
-/

namespace Vectorial

namespace Heap

variable {heap : Heap} {given tracked : List FrameId} {owned : List Value} {outside : Holders}
  {id other : FrameId}

/-! ### The search of the kept frames adds nothing else -/

section Search

variable {next : FrameId → List FrameId} {pending kept start : List FrameId}
  {P : FrameId → Prop}

/-- What holds of the frames that the search begins with, and goes on from each frame to the
tracked ones it leads to, holds of all frames that are found. -/
theorem forall_mem_extend (steps : ∀ id, P id → ∀ other ∈ next id, other ∈ tracked → P other)
    (fuel : Nat) (waiting : ∀ id ∈ pending, P id) (old : ∀ id ∈ kept, P id) :
    ∀ id ∈ extend next tracked fuel pending kept, P id := by
  induction fuel generalizing pending kept with
  | zero => exact old
  | succ fuel ih =>
    cases pending with
    | nil => exact old
    | cons first pending =>
      obtain ⟨here, later⟩ := List.forall_mem_cons.mp waiting
      have added : ∀ id ∈ ((next first).filter fun other =>
          tracked.contains other && !kept.contains other).eraseDups, P id := by
        intro id member
        obtain ⟨leads, listed, _⟩ := mem_added.mp member
        exact steps first here id leads listed
      exact ih (List.forall_mem_append.mpr ⟨added, later⟩)
        (List.forall_mem_append.mpr ⟨added, old⟩)

theorem forall_mem_reached (steps : ∀ id, P id → ∀ other ∈ next id, other ∈ tracked → P other)
    (starts : ∀ id ∈ start, P id) : ∀ id ∈ reached next tracked start, P id :=
  forall_mem_extend steps _ starts starts

end Search

/-! ### A frame has no more references than there are -/

section Counting

variable {lists : List (StorageId × List Value)}

theorem foldl_max_le (counts : List Nat) {start other more : Nat} (le : start ≤ more + other) :
    counts.foldl max start ≤ more + counts.foldl max other := by
  induction counts generalizing start other with
  | nil => exact le
  | cons count rest ih => exact ih (by omega)

theorem referencesInList_cons_le (entry : StorageId × List Value) (list : StorageId) :
    referencesInList (entry :: lists) id list ≤
      (if entry.1 = list then (entry.2.flatMap Value.direct).count id else 0) +
        referencesInList lists id list := by
  by_cases same : entry.1 = list
  · rw [referencesInList, List.filter_cons_of_pos (by simpa using same), if_pos same,
      List.map_cons, List.foldl_cons]
    exact foldl_max_le _ (by omega)
  · rw [referencesInList, List.filter_cons_of_neg (by simpa using same), if_neg same,
      Nat.zero_add]
    exact Nat.le_refl _

theorem referencesInLists_cons_le (entry : StorageId × List Value) (names : List StorageId) :
    referencesInLists (entry :: lists) id names ≤
      names.count entry.1 * (entry.2.flatMap Value.direct).count id +
        referencesInLists lists id names := by
  induction names with
  | nil => exact Nat.zero_le _
  | cons name rest ih =>
    have here : referencesInList (entry :: lists) id name ≤ _ :=
      referencesInList_cons_le entry name
    rw [referencesInLists, referencesInLists]
    -- The entry is looked up for its own name only.
    by_cases same : entry.1 = name
    · subst same
      rw [if_pos rfl] at here
      rw [List.count_cons_self, Nat.add_mul]
      omega
    · rw [if_neg same] at here
      rw [List.count_cons_of_ne (Ne.symm same)]
      omega

/-- Lists that are counted once each have no more references to a frame than all lists. -/
theorem referencesInLists_le {names : List StorageId} (distinct : names.Nodup) :
    referencesInLists lists id names ≤
      (lists.flatMap fun list => list.2.flatMap Value.direct).count id := by
  induction lists with
  | nil =>
    have none_left (names : List StorageId) : referencesInLists [] id names = 0 := by
      induction names with
      | nil => rfl
      | cons name rest ih => rw [referencesInLists, ih]; rfl
    rw [none_left]
    exact Nat.zero_le _
  | cons entry rest ih =>
    have once : names.count entry.1 ≤ 1 := List.nodup_iff_count_le_one.mp distinct entry.1
    have first : names.count entry.1 * (entry.2.flatMap Value.direct).count id ≤
        (entry.2.flatMap Value.direct).count id := by
      simpa using Nat.mul_le_mul_right _ once
    have all : referencesInLists (entry :: rest) id names ≤ _ :=
      referencesInLists_cons_le entry names
    rw [List.flatMap_cons, List.count_append]
    omega

theorem count_flatMap_environments (values : List Value) (id : FrameId) :
    (values.flatMap Value.environments).count id =
      (values.flatMap Value.direct).count id +
        ((values.flatMap Value.lists).flatMap fun list =>
          list.2.flatMap Value.direct).count id := by
  induction values with
  | nil => rfl
  | cons v rest ih =>
    simp only [List.flatMap_cons, List.flatMap_append, List.count_append, ih,
      v.count_environments id]
    omega

theorem count_referencesOf (ids : List FrameId) (id : FrameId) :
    (ids.flatMap heap.referencesOf).count id =
      (ids.flatMap fun id => (heap.parent id).toList).count id +
        ((ids.flatMap heap.valuesOf).flatMap Value.environments).count id := by
  induction ids with
  | nil => rfl
  | cons first rest ih =>
    simp only [List.flatMap_cons, List.flatMap_append, List.count_append, ih, referencesOf_eq]
    omega

/-- A frame has no more references than there are from outside and from frames that are alive. -/
theorem strongCount_le (heap : Heap) (holders : Holders) (id : FrameId) :
    strongCount (heap.singleReferences holders) (heap.heldLists holders) id ≤
      holders.references.count id +
        ((heap.alive holders).flatMap heap.referencesOf).count id := by
  have lists : referencesInLists (heap.heldLists holders) id
      ((heap.heldLists holders).map Prod.fst).eraseDups ≤ _ :=
    referencesInLists_le (nodup_eraseDups _)
  have values := count_flatMap_environments (heap.heldValues holders) id
  have frames := heap.count_referencesOf (heap.alive holders) id
  rw [heldValues, List.flatMap_append, List.count_append] at values
  rw [strongCount, singleReferences, List.filterMap_eq_flatMap_toList, Holders.references]
  simp only [List.count_append]
  rw [heldLists] at lists ⊢
  rw [heldValues] at lists ⊢
  omega

end Counting

/-! ### What is kept -/

/-- Whether no list has two holders, closures are only in slots and in lists, and no reference
dangles. -/
structure IsSimple (heap : Heap) (given : List FrameId) (owned : List Value)
    (outside : Holders) : Prop where
  closed : heap.IsClosed
  unshared : (heap.heldStorages (outside ++ ⟨given, owned⟩)).Nodup
  plain : ∀ v ∈ heap.givenUp given owned, v.IsPlain

/-- Whether a value that is given up has a closure over a frame in a list inside its list. -/
def IsBuried (heap : Heap) (given : List FrameId) (owned : List Value) (id : FrameId) : Prop :=
  ∃ v ∈ heap.givenUp given owned, id ∈ v.nested

theorem mem_givenUp_eraseDups {v : Value} :
    v ∈ heap.givenUp given.eraseDups owned ↔ v ∈ heap.givenUp given owned := by
  simp [givenUp]

theorem heldStorages_eraseDups (closed : heap.IsClosed) :
    heap.heldStorages (outside ++ ⟨given.eraseDups, owned⟩) =
      heap.heldStorages (outside ++ ⟨given, owned⟩) := by
  have alive : heap.alive (outside ++ ⟨given.eraseDups, owned⟩) =
      heap.alive (outside ++ ⟨given, owned⟩) :=
    alive_congr closed fun _ => mem_references_eraseDups
  have values : (outside ++ ⟨given.eraseDups, owned⟩ : Holders).values =
      (outside ++ ⟨given, owned⟩ : Holders).values := rfl
  rw [heldStorages, heldLists, heldValues, alive, values]
  rfl

/-- Frames given up more than once are given up. -/
theorem IsSimple.eraseDups (simple : heap.IsSimple given owned outside) :
    heap.IsSimple given.eraseDups owned outside where
  closed := simple.closed
  unshared := by
    rw [heldStorages_eraseDups simple.closed]
    exact simple.unshared
  plain v member := simple.plain v (mem_givenUp_eraseDups.mp member)

/-- No list looks shared. -/
theorem IsSimple.looksShared_eq (simple : heap.IsSimple tracked owned outside)
    (name : StorageId) : heap.looksShared tracked owned outside name = false := by
  have once := List.nodup_iff_count_le_one.mp simple.unshared name
  simpa [looksShared, isSharedIn] using once

/-- What a frame that was given up refers to is found. -/
theorem IsSimple.mem_edgesOf_iff (simple : heap.IsSimple tracked owned outside)
    (member : other ∈ tracked) :
    id ∈ (heap.edgesOf (fun _ => false) other).map Prod.fst ↔ id ∈ heap.referencesOf other := by
  rw [referencesOf_eq, edgesOf_eq, List.map_append, List.mem_append, List.mem_append,
    List.map_flatMap, List.mem_flatMap, List.mem_flatMap]
  refine or_congr (by simp) (exists_congr fun v => and_congr_right fun slot => ?_)
  exact (simple.plain v (mem_givenUp.mpr (.inr ⟨other, member, slot⟩))).mem_edges_iff _ _

/-- What looks shared is in a value, since parents are owned. -/
theorem shared_mem_foundEdges {f : StorageId → Bool} :
    (id, Edge.shared) ∈ heap.foundEdges f tracked owned ↔
      ∃ v ∈ heap.givenUp tracked owned, (id, Edge.shared) ∈ v.edges f .owned := by
  have inFrame (other : FrameId) : (id, Edge.shared) ∈ heap.edgesOf f other ↔
      ∃ v ∈ heap.valuesOf other, (id, Edge.shared) ∈ v.edges f .owned := by
    simp [edgesOf_eq]
  rw [foundEdges, List.mem_append, List.mem_flatMap, List.mem_flatMap]
  constructor
  · rintro (⟨other, member, found⟩ | ⟨v, member, found⟩)
    · obtain ⟨v, slot, found⟩ := (inFrame other).mp found
      exact ⟨v, mem_givenUp.mpr (.inr ⟨other, member, slot⟩), found⟩
    · exact ⟨v, mem_givenUp.mpr (.inl member), found⟩
  · rintro ⟨v, given, found⟩
    rcases mem_givenUp.mp given with direct | ⟨other, member, slot⟩
    · exact .inr ⟨v, direct, found⟩
    · exact .inl ⟨other, member, (inFrame other).mpr ⟨v, slot, found⟩⟩

/-- What looks shared is what is buried. -/
theorem IsSimple.shared_mem_iff (simple : heap.IsSimple tracked owned outside) :
    (id, Edge.shared) ∈ heap.foundEdges (heap.looksShared tracked owned outside) tracked owned ↔
      heap.IsBuried tracked owned id := by
  refine shared_mem_foundEdges.trans (exists_congr fun v => and_congr_right fun given => ?_)
  exact (simple.plain v given).shared_mem_edges_iff simple.looksShared_eq

/-- A frame that is buried has a holder elsewhere, as far as the search can tell. -/
theorem IsSimple.mem_heldElsewhere_of_isBuried (simple : heap.IsSimple tracked owned outside)
    (member : id ∈ tracked) (buried : heap.IsBuried tracked owned id) :
    id ∈ heap.heldElsewhere tracked owned outside := by
  refine List.mem_filter.mpr ⟨member, ?_⟩
  rw [Bool.or_eq_true, List.contains_iff_mem]
  refine .inl (List.mem_map.mpr ⟨(id, .shared), List.mem_filter.mpr ⟨?_, rfl⟩, rfl⟩)
  exact simple.shared_mem_iff.mpr buried

/-- All references to a frame are found if nothing else refers to it and it is not buried. -/
theorem IsSimple.strongCount_le_found (simple : heap.IsSimple tracked owned outside)
    (distinct : tracked.Nodup) (unheld : id ∉ outside.references)
    (unreferred : ∀ other ∈ heap.others tracked owned outside, id ∉ heap.referencesOf other)
    (unburied : ¬ heap.IsBuried tracked owned id) :
    strongCount (heap.singleReferences (outside ++ ⟨tracked, owned⟩))
        (heap.heldLists (outside ++ ⟨tracked, owned⟩)) id ≤
      (ownedFrames
        (heap.foundEdges (heap.looksShared tracked owned outside) tracked owned)).count id + 1 := by
  have total := heap.strongCount_le (outside ++ ⟨tracked, owned⟩) id
  have beyond (id : FrameId) (past : heap.frames.size ≤ id) : heap.referencesOf id = [] := by
    rw [referencesOf, frame_eq_none_iff.mpr past]
    rfl
  have parts :=
    (perm_flatMap_alive heap owned outside distinct heap.referencesOf beyond).count_eq id
  have others : ((heap.others tracked owned outside).flatMap heap.referencesOf).count id = 0 := by
    refine List.count_eq_zero.mpr fun inside => ?_
    obtain ⟨other, member, refers⟩ := List.mem_flatMap.mp inside
    exact unreferred other member refers
  have holders : (outside ++ ⟨tracked, owned⟩ : Holders).references.count id =
      tracked.count id + (owned.flatMap Value.environments).count id := by
    have nothing := List.count_eq_zero.mpr unheld
    rw [Holders.references, List.count_append] at nothing
    have both : (outside ++ ⟨tracked, owned⟩ : Holders).references =
        (outside.handles ++ tracked) ++ (outside.values ++ owned).flatMap Value.environments := rfl
    rw [both, List.flatMap_append]
    simp only [List.count_append]
    omega
  have once : tracked.count id ≤ 1 := List.nodup_iff_count_le_one.mp distinct id
  have frames := heap.count_referencesOf tracked id
  have found := heap.count_foundEdges tracked owned id (heap.looksShared tracked owned outside)
  -- In every value that is given up, all references are found.
  have values : ((heap.givenUp tracked owned).flatMap Value.environments).count id ≤
      ((heap.givenUp tracked owned).flatMap fun v =>
        ownedFrames (v.edges (heap.looksShared tracked owned outside) .owned)).count id := by
    refine count_flatMap_le fun v member => ?_
    have unnested : v.nested.count id = 0 :=
      List.count_eq_zero.mpr fun nested => unburied ⟨v, member, nested⟩
    have counted : v.environments.count id ≤ _ :=
      (simple.plain v member).count_environments_le simple.looksShared_eq
    omega
  rw [givenUp, List.flatMap_append, List.count_append, ← givenUp] at values
  rw [List.count_append] at parts
  omega

/-- A frame that nothing else refers to and that is not buried has no holder elsewhere. -/
theorem IsSimple.notMem_heldElsewhere (simple : heap.IsSimple tracked owned outside)
    (distinct : tracked.Nodup) (unheld : id ∉ outside.references)
    (unreferred : ∀ other ∈ heap.others tracked owned outside, id ∉ heap.referencesOf other)
    (unburied : ¬ heap.IsBuried tracked owned id) :
    id ∉ heap.heldElsewhere tracked owned outside := by
  intro member
  have elsewhere := (List.mem_filter.mp member).2
  rw [Bool.or_eq_true, List.contains_iff_mem] at elsewhere
  rcases elsewhere with pinned | more
  · obtain ⟨⟨name, edge⟩, found, rfl⟩ := List.mem_map.mp pinned
    obtain ⟨listed, shared⟩ := List.mem_filter.mp found
    obtain rfl : edge = .shared := of_decide_eq_true shared
    exact unburied (simple.shared_mem_iff.mp listed)
  · have most := simple.strongCount_le_found distinct unheld unreferred unburied
    exact absurd (of_decide_eq_true more) (Nat.not_lt_of_le most)

/-- A frame that is buried remains. -/
theorem IsBuried.remains (buried : heap.IsBuried given owned id) :
    heap.Remains (outside ++ ⟨given, owned⟩) id := by
  obtain ⟨v, member, nested⟩ := buried
  have held := v.nested_subset nested
  rcases mem_givenUp.mp member with direct | ⟨other, listed, slot⟩
  · refine remains_of_mem ((references_append _ _ _).mpr (.inr ?_))
    exact List.mem_append_right _ (List.mem_flatMap.mpr ⟨v, direct, held⟩)
  · -- The frame that has the value is given up, and refers to it.
    have handle : heap.Remains (outside ++ ⟨given, owned⟩) other :=
      remains_of_mem ((references_append _ _ _).mpr (.inr (List.mem_append_left _ listed)))
    refine handle.references ?_
    rw [referencesOf_eq]
    exact List.mem_append_right _ (List.mem_flatMap.mpr ⟨v, slot, held⟩)

/-- Whether a frame that is buried leads to a frame. -/
def IsWithheld (heap : Heap) (given : List FrameId) (owned : List Value) (id : FrameId) :
    Prop :=
  ∃ other, heap.IsBuried given owned other ∧ heap.Leads other id

theorem kept_of_isWithheld (simple : heap.IsSimple given owned outside)
    (led : heap.IsWithheld given owned id) (member : id ∈ given) :
    id ∈ heap.kept given owned outside := by
  obtain ⟨other, buried, leads⟩ := led
  -- Along the way the frames remain, and those that were given up are kept.
  suffices both : heap.Remains (outside ++ ⟨given, owned⟩) id ∧
      (id ∈ given → id ∈ heap.kept given owned outside) from both.2 member
  clear member
  induction leads with
  | refl =>
    refine ⟨buried.remains, fun listed => start_subset_reached ?_⟩
    obtain ⟨v, inside, nested⟩ := buried
    exact simple.eraseDups.mem_heldElsewhere_of_isBuried (List.mem_eraseDups.mpr listed)
      ⟨v, mem_givenUp_eraseDups.mpr inside, nested⟩
  | @tail middle last _ refers ih =>
    obtain ⟨remains, kept⟩ := ih
    refine ⟨remains.references refers, fun listed => ?_⟩
    by_cases known : middle ∈ given
    · have found := (simple.eraseDups.mem_edgesOf_iff (List.mem_eraseDups.mpr known)).mpr refers
      exact closed_reached (kept known) found (List.mem_eraseDups.mpr listed)
    · exact kept_of_reaches (.other remains known refers) listed

/-- What is kept can be reached or is withheld. -/
theorem mem_kept_iff (simple : heap.IsSimple given owned outside) :
    id ∈ heap.kept given owned outside ↔
      id ∈ given ∧
        (heap.Reaches given owned outside id ∨ heap.IsWithheld given owned id) := by
  constructor
  · refine forall_mem_reached (P := fun id => id ∈ given ∧
      (heap.Reaches given owned outside id ∨ heap.IsWithheld given owned id)) ?_ ?_ id
    · rintro id ⟨member, way⟩ other found listed
      have refers := (simple.eraseDups.mem_edgesOf_iff (List.mem_eraseDups.mpr member)).mp found
      refine ⟨List.mem_eraseDups.mp listed, way.imp (fun reaches => .step reaches refers) ?_⟩
      exact fun ⟨start, buried, leads⟩ => ⟨start, buried, leads.tail refers⟩
    -- A frame that neither is held, nor is referred to from outside, nor hides a closure, has only
    -- the references that are found, and so it is not held elsewhere.
    · intro id elsewhere
      have listed : id ∈ given.eraseDups := (List.mem_filter.mp elsewhere).1
      refine ⟨List.mem_eraseDups.mp listed, ?_⟩
      by_contra neither
      obtain ⟨unreached, unled⟩ := not_or.mp neither
      refine simple.eraseDups.notMem_heldElsewhere (nodup_eraseDups _) ?_ ?_ ?_ elsewhere
      · exact fun held => unreached (.held held)
      · intro other member refers
        obtain ⟨alive, unlisted⟩ := List.mem_filter.mp member
        have ungiven : other ∉ given := by simpa using unlisted
        have remains := ((mem_alive_iff simple.closed).mp alive).2.mono
          fun _ held => mem_references_eraseDups.mp held
        exact unreached (.other remains ungiven refers)
      · rintro ⟨v, inside, nested⟩
        exact unled ⟨id, ⟨v, mem_givenUp_eraseDups.mp inside, nested⟩, .refl⟩
  · rintro ⟨member, reaches | led⟩
    · exact kept_of_reaches reaches member
    · exact kept_of_isWithheld simple led member

/-! ### What is cleared -/

/-- Nothing can be reached when nothing is held outside and every frame is given up. -/
theorem not_reaches_of_forall_mem (unheld : outside.references = [])
    (all : ∀ id < heap.frames.size, id ∈ given) : ¬ heap.Reaches given owned outside id := by
  intro reaches
  induction reaches with
  | held held =>
    rw [unheld] at held
    exact List.not_mem_nil held
  | other _ ungiven refers => exact ungiven (all _ (lt_size_of_mem_referencesOf refers))
  | step _ _ ih => exact ih

/-- What a collection does with the frames that cannot be reached: it clears them, those apart
that are withheld, which it leaves as they are. -/
structure Clears (heap : Heap) (given : List FrameId) (owned : List Value) (outside : Holders)
    (later : Heap) : Prop where
  /-- A frame that cannot be reached and is not withheld has lost its slots and its parent. -/
  cleared : ∀ id ∈ given, ¬ heap.Reaches given owned outside id → ¬ heap.IsWithheld given owned id →
    later.frame? id = (heap.frame? id).map Frame.cleared
  /-- A frame that is withheld has not, whether or not it can be reached. -/
  withheld : ∀ id, heap.IsWithheld given owned id → later.frame? id = heap.frame? id

theorem clears_collect (simple : heap.IsSimple given owned outside) :
    heap.Clears given owned outside (heap.collect given owned outside).2 where
  cleared id member unreached unwithheld := by
    have unkept : id ∉ heap.kept given owned outside := fun kept =>
      ((mem_kept_iff simple).mp kept).2.elim unreached unwithheld
    rw [frame_collect, if_pos (mem_garbage.mpr ⟨member, unkept⟩)]
  withheld id withheld := by
    rw [frame_collect, if_neg]
    intro garbage
    obtain ⟨member, unkept⟩ := mem_garbage.mp garbage
    exact unkept (kept_of_isWithheld simple withheld member)

end Heap

namespace Interpreter

/-- The frames that an interpreter gives up when it is dropped. -/
def released (interpreter : Interpreter) (outside : Holders) : List FrameId :=
  interpreter.liveActivations outside ++ [interpreter.root]

/-- The values that an interpreter gives up when it is dropped. -/
def globalValues (interpreter : Interpreter) : List Value :=
  interpreter.machine.globals.map Prod.snd

/-- An interpreter gives up its root and all its activations that are still alive. -/
theorem mem_released {interpreter : Interpreter} {outside : Holders} {id : FrameId} :
    id ∈ interpreter.released outside ↔ id = interpreter.root ∨
      id ∈ interpreter.machine.activations ∧
        id ∈ interpreter.machine.heap.alive
          (outside ++ ⟨[interpreter.root], interpreter.globalValues⟩) := by
  simp [released, liveActivations, globalValues, or_comm]

end Interpreter

namespace Heap

/-- If no list has two holders and closures are only in slots and in lists, a collection clears
every frame that cannot be reached, unless a closure in a list inside a list leads to it. So the
end of an interpreter breaks the cycles of its frames, but not those through such closures. -/
theorem unreachable_frames_are_cleared (outside : Holders) :
    (∀ (heap : Heap) (given : List FrameId) (owned : List Value),
      heap.IsSimple given owned outside →
      heap.Clears given owned outside (heap.collect given owned outside).2) ∧
    ∀ (interpreter : Interpreter) (id : FrameId),
      interpreter.machine.heap.IsSimple (interpreter.released outside) interpreter.globalValues
        outside →
      id = interpreter.root ∨ id ∈ interpreter.machine.activations ∧
        id ∈ interpreter.machine.heap.alive
          (outside ++ ⟨[interpreter.root], interpreter.globalValues⟩) →
      ¬ interpreter.machine.heap.Reaches (interpreter.released outside) interpreter.globalValues
        outside id →
      ¬ interpreter.machine.heap.IsWithheld (interpreter.released outside)
        interpreter.globalValues id →
      (interpreter.drop outside).frame? id =
        (interpreter.machine.heap.frame? id).map Frame.cleared := by
  refine ⟨fun heap given owned simple => clears_collect simple, ?_⟩
  intro interpreter id simple own unreached unwithheld
  exact (clears_collect simple).cleared id (Interpreter.mem_released.mpr own) unreached unwithheld

/-- A closure over the first frame in lists inside each other, as many as the depth. -/
def wrapped : Nat → Value
  | 0 => .closure bareLayout 0
  | depth + 1 => .vector (.list depth [wrapped depth]) none

/-- A frame that holds itself through lists inside each other. -/
def cycleThrough (depth : Nat) : Heap where
  frames := #[⟨bareLayout, [some (wrapped depth)], none⟩]

theorem environments_wrapped (depth : Nat) : (wrapped depth).environments = [0] := by
  induction depth with
  | zero => rfl
  | succ depth ih =>
    simp [wrapped, Value.environments, Storage.environments, environmentsOfItems,
      environmentsOfMetadata, ih]

theorem isPlain_wrapped (depth : Nat) : (wrapped depth).IsPlain := by
  induction depth with
  | zero => exact trivial
  | succ depth ih => exact ⟨⟨ih, trivial⟩, rfl⟩

theorem isSimple_cycleThrough {depth : Nat}
    (unshared : ((cycleThrough depth).heldStorages ({} ++ ⟨[0], []⟩)).Nodup) :
    (cycleThrough depth).IsSimple [0] [] {} where
  closed id other refers := by
    have zero : id = 0 := Nat.lt_one_iff.mp (lt_size_of_mem_referencesOf refers)
    subst zero
    have references : (cycleThrough depth).referencesOf 0 = [0] :=
      (List.append_nil _).trans (environments_wrapped depth)
    rw [references] at refers
    exact List.mem_singleton.mp refers ▸ Nat.one_pos
  unshared := unshared
  plain v member := List.mem_singleton.mp member ▸ isPlain_wrapped depth

theorem not_reaches_cycleThrough (depth : Nat) (id : FrameId) :
    ¬ (cycleThrough depth).Reaches [0] [] {} id :=
  not_reaches_of_forall_mem rfl fun _ inside => List.mem_singleton.mpr (Nat.lt_one_iff.mp inside)

/-- A cycle through a list is broken. -/
theorem unreachable_frames_are_cleared_throughList :
    ((cycleThrough 1).collect [0] [] {}).2.frame? 0 =
      ((cycleThrough 1).frame? 0).map Frame.cleared := by
  have simple : (cycleThrough 1).IsSimple [0] [] {} := isSimple_cycleThrough (by decide)
  refine ((unreachable_frames_are_cleared {}).1 _ _ _ simple).cleared 0 List.mem_cons_self
    (not_reaches_cycleThrough 1 0) ?_
  rintro ⟨other, ⟨v, member, nested⟩, _⟩
  rw [List.mem_singleton.mp member] at nested
  exact List.not_mem_nil nested

/-- A cycle through a list inside a list is not. -/
theorem not_cleared_throughNestedList :
    (cycleThrough 2).IsSimple [0] [] {} ∧ ¬ (cycleThrough 2).Reaches [0] [] {} 0 ∧
      ((cycleThrough 2).collect [0] [] {}).2.frame? 0 ≠
        ((cycleThrough 2).frame? 0).map Frame.cleared := by
  refine ⟨isSimple_cycleThrough (by decide), not_reaches_cycleThrough 2 0, fun same => ?_⟩
  have slots : some 1 = some 0 := congrArg (Option.map fun frame : Frame => frame.slots.length) same
  exact absurd slots (by decide)

end Heap

end Vectorial
