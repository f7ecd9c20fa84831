import Mathlib.Data.List.Basic
import Vectorial.Heap.Collection
import Vectorial.Proofs.Heap.Release
import Vectorial.Proofs.Value.Search

/-!
# Accounting for references

When some frames and values are given up, every reference to a frame is in one of them or
elsewhere. The references that a search of what is given up finds to be owned are different
references, and none of them is elsewhere. A reference elsewhere, or one that the search
misses, therefore makes the count of the frame larger than what was found.

A list that no other value has is counted with the value that has it. Every other list is
counted once.

## Main definitions

* `Heap.others`: the frames that are alive and not given up;
* `Heap.givenUp`, `Heap.elsewhere`: the values given up, and all others;
* `Heap.HasOther`: the ways in which a frame has more references than are found.

## Main results

* `Heap.mem_heldElsewhere_of_hasOther`: such frames have a holder elsewhere.
-/

namespace Vectorial

namespace Heap

/-- The frames that are alive and not given up. -/
def others (heap : Heap) (tracked : List FrameId) (owned : List Value) (outside : Holders) :
    List FrameId :=
  (heap.alive (outside ++ ⟨tracked, owned⟩)).filter fun id => !tracked.contains id

/-- The values that are given up, those in the slots of frames included. -/
def givenUp (heap : Heap) (tracked : List FrameId) (owned : List Value) : List Value :=
  owned ++ tracked.flatMap heap.valuesOf

/-- All other values. -/
def elsewhere (heap : Heap) (tracked : List FrameId) (owned : List Value) (outside : Holders) :
    List Value :=
  outside.values ++ (heap.others tracked owned outside).flatMap heap.valuesOf

variable {heap : Heap} {tracked : List FrameId} {owned : List Value} {outside : Holders}
  {id : FrameId}

/-! ### What is held -/

theorem mem_givenUp {v : Value} : v ∈ heap.givenUp tracked owned ↔
    v ∈ owned ∨ ∃ other ∈ tracked, v ∈ heap.valuesOf other := by
  rw [givenUp, List.mem_append, List.mem_flatMap]

theorem flatMap_inside {α : Type} (ids : List FrameId) (f : FrameId → List α)
    (nothing : ∀ id, heap.frames.size ≤ id → f id = []) :
    (ids.filter (· < heap.frames.size)).flatMap f = ids.flatMap f := by
  induction ids with
  | nil => rfl
  | cons id rest ih =>
    by_cases inside : id < heap.frames.size
    · rw [List.filter_cons_of_pos (by simpa using inside), List.flatMap_cons, ih,
        List.flatMap_cons]
    · rw [List.filter_cons_of_neg (by simpa using inside), ih, List.flatMap_cons,
        nothing id (Nat.le_of_not_lt inside), List.nil_append]

theorem mem_alive_of_mem_tracked (member : id ∈ tracked) (inside : id < heap.frames.size) :
    id ∈ heap.alive (outside ++ ⟨tracked, owned⟩) := by
  apply mem_alive_of_remains inside
  exact remains_of_mem (List.mem_append_left _ (List.mem_append_right _ member))

theorem perm_alive (heap : Heap) (owned : List Value) (outside : Holders)
    (distinct : tracked.Nodup) :
    (heap.alive (outside ++ ⟨tracked, owned⟩)).Perm
      (tracked.filter (· < heap.frames.size) ++ heap.others tracked owned outside) := by
  -- No frame is on both sides, so that it is enough to compare which frames there are.
  have apart : (tracked.filter (· < heap.frames.size) ++
      heap.others tracked owned outside).Nodup := by
    refine List.nodup_append.mpr ⟨distinct.filter _, (nodup_alive ..).filter _, ?_⟩
    rintro id given _ other rfl
    have listed := (List.mem_filter.mp given).1
    have unlisted := (List.mem_filter.mp other).2
    simp [listed] at unlisted
  refine (List.perm_ext_iff_of_nodup (nodup_alive ..) apart).mpr fun id => ?_
  rw [List.mem_append, others, List.mem_filter, List.mem_filter]
  constructor
  · intro alive
    have inside : id < heap.frames.size := List.mem_range.mp (List.mem_filter.mp alive).1
    by_cases given : id ∈ tracked
    · exact .inl ⟨given, by simpa using inside⟩
    · exact .inr ⟨alive, by simpa using given⟩
  · rintro (⟨given, inside⟩ | ⟨alive, _⟩)
    · exact mem_alive_of_mem_tracked given (by simpa using inside)
    · exact alive

theorem perm_flatMap_alive {α : Type} (heap : Heap) (owned : List Value) (outside : Holders)
    (distinct : tracked.Nodup) (f : FrameId → List α)
    (nothing : ∀ id, heap.frames.size ≤ id → f id = []) :
    ((heap.alive (outside ++ ⟨tracked, owned⟩)).flatMap f).Perm
      (tracked.flatMap f ++ (heap.others tracked owned outside).flatMap f) := by
  have parts := (perm_alive heap owned outside distinct).flatMap_right f
  rwa [List.flatMap_append, flatMap_inside tracked f nothing] at parts

theorem valuesOf_eq_nil (id : FrameId) (past : heap.frames.size ≤ id) :
    heap.valuesOf id = [] := by
  rw [valuesOf, frame_eq_none_iff.mpr past]
  rfl

theorem parent_eq_none (id : FrameId) (past : heap.frames.size ≤ id) :
    (heap.parent id).toList = [] := by
  rw [parent, frame_eq_none_iff.mpr past]
  rfl

/-- What is held is given up or elsewhere. -/
theorem perm_heldValues (heap : Heap) (owned : List Value) (outside : Holders)
    (distinct : tracked.Nodup) :
    (heap.heldValues (outside ++ ⟨tracked, owned⟩)).Perm
      (heap.givenUp tracked owned ++ heap.elsewhere tracked owned outside) := by
  have frames := perm_flatMap_alive heap owned outside distinct heap.valuesOf valuesOf_eq_nil
  have values : (outside ++ ⟨tracked, owned⟩ : Holders).values = outside.values ++ owned := rfl
  rw [heldValues, values, givenUp, elsewhere]
  refine (List.perm_append_comm.append frames).trans ?_
  simp only [List.append_assoc]
  exact .append_left _ (List.perm_append_comm_assoc ..)

/-! ### Lists -/

theorem nodup_eraseDups (ids : List Nat) : ids.eraseDups.Nodup := by
  cases ids with
  | nil => exact List.nodup_nil
  | cons id rest =>
    rw [List.eraseDups_cons]
    refine List.nodup_cons.mpr ⟨fun again => ?_, nodup_eraseDups _⟩
    simpa using List.mem_eraseDups.mp again
termination_by ids.length
decreasing_by exact Nat.lt_succ_of_le (List.length_filter_le ..)

theorem le_foldl_max (counts : List Nat) (start : Nat) :
    start ≤ counts.foldl max start ∧ ∀ count ∈ counts, count ≤ counts.foldl max start := by
  induction counts generalizing start with
  | nil => exact ⟨Nat.le_refl _, fun _ member => absurd member List.not_mem_nil⟩
  | cons first rest ih =>
    obtain ⟨above, all⟩ := ih (max start first)
    refine ⟨Nat.le_trans (Nat.le_max_left ..) above, fun count member => ?_⟩
    rcases List.mem_cons.mp member with rfl | later
    · exact Nat.le_trans (Nat.le_max_right ..) above
    · exact all count later

variable {lists own foreign : List (StorageId × List Value)}

/-- A list has at least as many references to a frame as its items have. -/
theorem le_referencesInList (id : FrameId) {list : StorageId × List Value}
    (member : list ∈ lists) :
    (list.2.flatMap Value.direct).count id ≤ referencesInList lists id list.1 := by
  refine (le_foldl_max _ 0).2 _ (List.mem_map.mpr ⟨list, ?_, rfl⟩)
  exact List.mem_filter.mpr ⟨member, by simp⟩

theorem referencesInLists_append (some more : List StorageId) :
    referencesInLists lists id (some ++ more) =
      referencesInLists lists id some + referencesInLists lists id more := by
  induction some with
  | nil => simp [referencesInLists]
  | cons list rest ih =>
    rw [List.cons_append, referencesInLists, ih, referencesInLists, Nat.add_assoc]

theorem referencesInLists_perm {some other : List StorageId} (same : some.Perm other) :
    referencesInLists lists id some = referencesInLists lists id other := by
  induction same with
  | nil => rfl
  | cons list _ ih => rw [referencesInLists, ih, referencesInLists]
  | swap => simp only [referencesInLists, Nat.add_left_comm]
  | trans _ _ first second => rw [first, second]

theorem referencesInList_le (lists : List (StorageId × List Value)) (id : FrameId)
    {list : StorageId} {some : List StorageId} (member : list ∈ some) :
    referencesInList lists id list ≤ referencesInLists lists id some := by
  obtain ⟨before, after, rfl⟩ := List.append_of_mem member
  rw [referencesInLists_append, referencesInLists]
  omega

theorem le_referencesInLists (id : FrameId) (listed : ∀ list ∈ own, list ∈ lists) :
    (own.flatMap fun list => list.2.flatMap Value.direct).count id ≤
      referencesInLists lists id (own.map Prod.fst) := by
  induction own with
  | nil => exact Nat.le_refl _
  | cons list rest ih =>
    rw [List.flatMap_cons, List.count_append, List.map_cons, referencesInLists]
    exact Nat.add_le_add (le_referencesInList id (listed list List.mem_cons_self))
      (ih fun other member => listed other (List.mem_cons_of_mem _ member))

/-- A list that is not shared has no second occurrence. -/
theorem count_own_le (split : lists.Perm (own ++ foreign)) {list : StorageId × List Value}
    (member : list ∈ own) (unshared : isSharedIn (lists.map Prod.fst) list.1 = false) :
    (own.map Prod.fst).count list.1 + (foreign.map Prod.fst).count list.1 = 1 := by
  have total := (split.map Prod.fst).count_eq list.1
  have present : 0 < (own.map Prod.fst).count list.1 :=
    List.count_pos_iff.mpr (List.mem_map_of_mem member)
  have single : ¬ 1 < (lists.map Prod.fst).count list.1 := by simpa [isSharedIn] using unshared
  rw [List.map_append, List.count_append] at total
  omega

/-- Lists that are not shared are counted apart from the other lists. -/
theorem referencesInLists_split (id : FrameId) (split : lists.Perm (own ++ foreign))
    (unshared : ∀ list ∈ own, isSharedIn (lists.map Prod.fst) list.1 = false) :
    ∃ rest, (∀ list ∈ foreign, list.1 ∈ rest) ∧
      referencesInLists lists id (lists.map Prod.fst).eraseDups =
        referencesInLists lists id (own.map Prod.fst) + referencesInLists lists id rest := by
  let rest := (lists.map Prod.fst).eraseDups.filter fun list => !(own.map Prod.fst).contains list
  have members (list : StorageId) : list ∈ rest ↔
      list ∈ lists.map Prod.fst ∧ list ∉ own.map Prod.fst := by
    rw [List.mem_filter, List.mem_eraseDups, Bool.not_eq_true', List.contains_eq_mem,
      decide_eq_false_iff_not]
  have distinct : (own.map Prod.fst).Nodup := by
    refine List.nodup_iff_count.mpr fun list => ?_
    by_cases present : list ∈ own.map Prod.fst
    · obtain ⟨entry, member, rfl⟩ := List.mem_map.mp present
      have := count_own_le split member (unshared entry member)
      omega
    · rw [List.count_eq_zero.mpr present]
      exact Nat.zero_le 1
  have apart : (own.map Prod.fst ++ rest).Nodup := by
    refine List.nodup_append.mpr ⟨distinct, (nodup_eraseDups _).filter _, ?_⟩
    rintro list present _ other rfl
    exact ((members list).mp other).2 present
  have same : (lists.map Prod.fst).eraseDups.Perm (own.map Prod.fst ++ rest) := by
    refine (List.perm_ext_iff_of_nodup (nodup_eraseDups _) apart).mpr fun list => ?_
    have inside : list ∈ own.map Prod.fst → list ∈ lists.map Prod.fst := fun present =>
      (split.map Prod.fst).mem_iff.mpr (by simpa using .inl (by simpa using present))
    rw [List.mem_eraseDups, List.mem_append, members]
    constructor
    · exact fun listed => or_iff_not_imp_left.mpr fun absent => ⟨listed, absent⟩
    · rintro (present | ⟨listed, _⟩)
      · exact inside present
      · exact listed
  refine ⟨rest, fun list member => (members list.1).mpr ⟨?_, fun present => ?_⟩, ?_⟩
  · exact List.mem_map_of_mem (split.mem_iff.mpr (List.mem_append_right _ member))
  · -- A second occurrence of the list would be shared.
    obtain ⟨entry, owned, names⟩ := List.mem_map.mp present
    have once := count_own_le split owned (unshared entry owned)
    have first : 0 < (own.map Prod.fst).count entry.1 :=
      List.count_pos_iff.mpr (List.mem_map_of_mem owned)
    have second : 0 < (foreign.map Prod.fst).count entry.1 :=
      List.count_pos_iff.mpr (names ▸ List.mem_map_of_mem member)
    omega
  · rw [referencesInLists_perm same, referencesInLists_append]

/-! ### What is found -/

theorem count_flatMap_le {α : Type} {found held : α → List FrameId} {all : List α}
    (le : ∀ a ∈ all, (found a).count id ≤ (held a).count id) :
    (all.flatMap found).count id ≤ (all.flatMap held).count id := by
  induction all with
  | nil => exact Nat.le_refl _
  | cons a rest ih =>
    rw [List.flatMap_cons, List.flatMap_cons, List.count_append, List.count_append]
    exact Nat.add_le_add (le a List.mem_cons_self)
      (ih fun other member => le other (List.mem_cons_of_mem _ member))

theorem count_flatMap_lt {α : Type} {found held : α → List FrameId} {all : List α} {a : α}
    (le : ∀ a, (found a).count id ≤ (held a).count id) (member : a ∈ all)
    (lt : (found a).count id < (held a).count id) :
    (all.flatMap found).count id < (all.flatMap held).count id := by
  obtain ⟨before, after, rfl⟩ := List.append_of_mem member
  have first : (before.flatMap found).count id ≤ (before.flatMap held).count id :=
    count_flatMap_le fun a _ => le a
  have last : (after.flatMap found).count id ≤ (after.flatMap held).count id :=
    count_flatMap_le fun a _ => le a
  rw [List.flatMap_append, List.flatMap_append, List.flatMap_cons, List.flatMap_cons]
  simp only [List.count_append]
  omega

theorem ownedFrames_flatMap {α : Type} (edges : α → List (FrameId × Edge)) (all : List α) :
    ownedFrames (all.flatMap edges) = all.flatMap fun a => ownedFrames (edges a) := by
  induction all with
  | nil => rfl
  | cons a rest ih => rw [List.flatMap_cons, ownedFrames_append, ih, List.flatMap_cons]

/-- The references that values have of their own are direct or in lists of their own. -/
theorem count_ownReferences (f : StorageId → Bool) (values : List Value) :
    (values.flatMap (Value.ownReferences f)).count id =
      (values.flatMap Value.direct).count id +
        ((values.filterMap (Value.ownList f)).flatMap fun list =>
          list.2.flatMap Value.direct).count id := by
  induction values with
  | nil => rfl
  | cons v rest ih =>
    rw [List.flatMap_cons, List.flatMap_cons, List.count_append, ih, Value.ownReferences]
    -- A value has one list of its own at most.
    cases own : v.ownList f with
    | none =>
      rw [List.filterMap_cons_none own]
      simp only [Option.toList_none, List.flatMap_nil, List.count_append, List.count_nil]
      omega
    | some list =>
      rw [List.filterMap_cons_some own]
      simp only [Option.toList_some, List.flatMap_cons, List.flatMap_nil, List.count_append,
        List.count_nil]
      omega

theorem perm_lists (f : StorageId → Bool) (values : List Value) :
    (values.flatMap Value.lists).Perm
      (values.filterMap (Value.ownList f) ++ values.flatMap (Value.otherLists f)) := by
  induction values with
  | nil => exact .refl _
  | cons v rest ih =>
    have first : (v :: rest).filterMap (Value.ownList f) =
        (v.ownList f).toList ++ rest.filterMap (Value.ownList f) := by
      cases own : v.ownList f with
      | none => rw [List.filterMap_cons_none own, Option.toList_none, List.nil_append]
      | some list =>
        rw [List.filterMap_cons_some own, Option.toList_some, List.singleton_append]
    rw [List.flatMap_cons, List.flatMap_cons, first, v.lists_eq f, List.append_assoc,
      List.append_assoc]
    refine .append_left _ ((List.Perm.append_left _ ih).trans ?_)
    exact List.perm_append_comm_assoc ..

theorem edgesOf_eq (f : StorageId → Bool) (id : FrameId) :
    heap.edgesOf f id = (heap.parent id).toList.map (fun parent => (parent, Edge.owned)) ++
      (heap.valuesOf id).flatMap (Value.edges f .owned) := by
  rw [edgesOf, parent, valuesOf]
  cases heap.frame? id with
  | none => rfl
  | some frame => rfl

/-- What is found to be owned is a parent or in a value that is given up. -/
theorem count_foundEdges (heap : Heap) (tracked : List FrameId) (owned : List Value)
    (id : FrameId) (f : StorageId → Bool) :
    (ownedFrames (heap.foundEdges f tracked owned)).count id =
      (tracked.flatMap fun id => (heap.parent id).toList).count id +
        ((heap.givenUp tracked owned).flatMap fun v =>
          ownedFrames (v.edges f .owned)).count id := by
  have parents (ids : List FrameId) :
      ownedFrames (ids.map fun parent => (parent, Edge.owned)) = ids := by
    induction ids with
    | nil => rfl
    | cons parent rest ih => exact congrArg (parent :: ·) ih
  have frames : (ownedFrames (tracked.flatMap (heap.edgesOf f))).count id =
      (tracked.flatMap fun id => (heap.parent id).toList).count id +
        ((tracked.flatMap heap.valuesOf).flatMap fun v =>
          ownedFrames (v.edges f .owned)).count id := by
    induction tracked with
    | nil => rfl
    | cons other rest ih =>
      simp only [List.flatMap_cons, ownedFrames_append, edgesOf_eq, parents, List.count_append,
        List.flatMap_append, ownedFrames_flatMap] at ih ⊢
      omega
  rw [foundEdges, ownedFrames_append, List.count_append, frames, ownedFrames_flatMap, givenUp,
    List.flatMap_append, List.count_append]
  omega

/-! ### More references than found -/

/-- Which lists look shared when some frames and values are given up. -/
def looksShared (heap : Heap) (tracked : List FrameId) (owned : List Value) (outside : Holders) :
    StorageId → Bool :=
  isSharedIn (heap.heldStorages (outside ++ ⟨tracked, owned⟩))

/-- All lists but those that a value given up has to itself. -/
def foreignLists (heap : Heap) (tracked : List FrameId) (owned : List Value)
    (outside : Holders) : List (StorageId × List Value) :=
  (heap.givenUp tracked owned).flatMap
      (Value.otherLists (heap.looksShared tracked owned outside)) ++
    (heap.elsewhere tracked owned outside).flatMap Value.lists

/-- The ways in which a frame has more references than are found in what is given up. -/
inductive HasOther (heap : Heap) (tracked : List FrameId) (owned : List Value)
    (outside : Holders) (id : FrameId) : Prop where
  /-- A handle has it. -/
  | handle (held : id ∈ outside.handles)
  /-- It is the parent of a frame that is not given up. -/
  | parent (refers : id ∈ (heap.others tracked owned outside).flatMap fun other =>
      (heap.parent other).toList)
  /-- Another value has it. -/
  | direct (refers : id ∈ (heap.elsewhere tracked owned outside).flatMap Value.direct)
  /-- Another list has it. -/
  | list (list : StorageId × List Value)
      (member : list ∈ heap.foreignLists tracked owned outside)
      (refers : id ∈ list.2.flatMap Value.direct)
  /-- The search misses it in a value that is given up. -/
  | missed (v : Value) (given : v ∈ heap.givenUp tracked owned)
      (more : (ownedFrames (v.edges (heap.looksShared tracked owned outside) .owned)).count id <
        (v.ownReferences (heap.looksShared tracked owned outside)).count id)

theorem perm_heldLists (heap : Heap) (owned : List Value) (outside : Holders)
    (distinct : tracked.Nodup) :
    (heap.heldLists (outside ++ ⟨tracked, owned⟩)).Perm
      ((heap.givenUp tracked owned).filterMap
          (Value.ownList (heap.looksShared tracked owned outside)) ++
        heap.foreignLists tracked owned outside) := by
  have values := (perm_heldValues heap owned outside distinct).flatMap_right Value.lists
  rw [List.flatMap_append] at values
  rw [foreignLists, ← List.append_assoc]
  exact values.trans ((perm_lists _ _).append_right _)

theorem count_singleReferences (heap : Heap) (owned : List Value) (outside : Holders)
    (distinct : tracked.Nodup)
    (id : FrameId) :
    (heap.singleReferences (outside ++ ⟨tracked, owned⟩)).count id =
      outside.handles.count id + tracked.count id +
      (tracked.flatMap fun id => (heap.parent id).toList).count id +
      ((heap.others tracked owned outside).flatMap fun id => (heap.parent id).toList).count id +
      ((heap.givenUp tracked owned).flatMap Value.direct).count id +
      ((heap.elsewhere tracked owned outside).flatMap Value.direct).count id := by
  have handles : (outside ++ ⟨tracked, owned⟩ : Holders).handles = outside.handles ++ tracked :=
    rfl
  have parents := (perm_flatMap_alive heap owned outside distinct
    (fun id => (heap.parent id).toList) parent_eq_none).count_eq id
  have values :=
    ((perm_heldValues heap owned outside distinct).flatMap_right Value.direct).count_eq id
  rw [List.flatMap_append, List.count_append] at values
  rw [List.count_append] at parents
  rw [singleReferences, handles, List.filterMap_eq_flatMap_toList]
  simp only [List.count_append]
  omega

/-- What is found to be owned, and one handle, are among the references to a frame. If it
has others, they are not all. -/
theorem count_foundEdges_lt (distinct : tracked.Nodup) (member : id ∈ tracked)
    (other : heap.HasOther tracked owned outside id) :
    (ownedFrames (heap.foundEdges (heap.looksShared tracked owned outside) tracked owned)).count id
        + 1 <
      strongCount (heap.singleReferences (outside ++ ⟨tracked, owned⟩))
        (heap.heldLists (outside ++ ⟨tracked, owned⟩)) id := by
  have split := perm_heldLists heap owned outside distinct
  have unshared : ∀ list ∈ (heap.givenUp tracked owned).filterMap
      (Value.ownList (heap.looksShared tracked owned outside)),
      heap.looksShared tracked owned outside list.1 = false := by
    intro list member
    obtain ⟨v, _, own⟩ := List.mem_filterMap.mp member
    exact v.unshared_of_ownList own
  obtain ⟨rest, foreign, lists⟩ := referencesInLists_split id split unshared
  -- Of the lists only those count that are given up and not shared; they are counted once each.
  have own := le_referencesInLists id fun list (member : list ∈ _) =>
    split.mem_iff.mpr (List.mem_append_left _ member)
  have handle : 0 < tracked.count id := List.count_pos_iff.mpr member
  have single := count_singleReferences heap owned outside distinct id
  have found := heap.count_foundEdges tracked owned id (heap.looksShared tracked owned outside)
  have least (v : Value) := v.count_ownedFrames_le id (heap.looksShared tracked owned outside)
  have most : ((heap.givenUp tracked owned).flatMap fun v =>
        ownedFrames (v.edges (heap.looksShared tracked owned outside) .owned)).count id ≤
      ((heap.givenUp tracked owned).flatMap
        (Value.ownReferences (heap.looksShared tracked owned outside))).count id :=
    count_flatMap_le fun v _ => least v
  rw [count_ownReferences] at most
  rw [strongCount, lists, single, found]
  -- Whatever the other reference is, it is counted on the right but not on the left.
  cases other with
  | handle held =>
    have := List.count_pos_iff.mpr held
    omega
  | parent refers =>
    have := List.count_pos_iff.mpr refers
    omega
  | direct refers =>
    have := List.count_pos_iff.mpr refers
    omega
  | list list listed refers =>
    have items := List.count_pos_iff.mpr refers
    have all := le_referencesInList id (split.mem_iff.mpr (List.mem_append_right _ listed))
    have counted := referencesInList_le (heap.heldLists (outside ++ ⟨tracked, owned⟩)) id
      (foreign list listed)
    omega
  | missed v given more =>
    have fewer := count_flatMap_lt least given more
    rw [count_ownReferences] at fewer
    omega

/-- A frame with other references than those that are found has a holder elsewhere. -/
theorem mem_heldElsewhere_of_hasOther (distinct : tracked.Nodup) (member : id ∈ tracked)
    (other : heap.HasOther tracked owned outside id) :
    id ∈ heap.heldElsewhere tracked owned outside := by
  refine List.mem_filter.mpr ⟨member, ?_⟩
  rw [Bool.or_eq_true]
  exact .inr (decide_eq_true (count_foundEdges_lt distinct member other))

end Heap

end Vectorial
