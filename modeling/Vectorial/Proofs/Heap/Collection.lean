import Mathlib.Logic.Relation
import Vectorial.Interpreter
import Vectorial.Proofs.Heap.Accounting

/-!
# Collecting cycles spares what can be reached

A collection is given frames and values by their owner. A frame can still be reached if a
handle or a value outside leads to it, or a frame that is alive and was not given up. The
first frame on the way that was given up has a holder elsewhere, and the search for frames
that are to be kept follows the way from there, except where it misses a closure; but then
the frame that is missed has a holder elsewhere too.

## Main definitions

* `Heap.Reaches`: frames that can still be reached when some are given up;
* `Heap.Spares`: what a collection leaves as it is;
* `Heap.Leads`: the frames in the environment of a closure.

## Main results

* `Heap.closed_reached`: the search of the kept frames goes as far as it can;
* `Heap.kept_of_reaches`: what can be reached is kept;
* `Heap.reachable_frames_survive`: collections and the end of an interpreter are safe.
-/

namespace Vectorial

/-- A frame that has lost its slots and its parent. -/
def Frame.cleared (frame : Frame) : Frame :=
  ⟨frame.layout, [], none⟩

namespace Heap

variable {heap : Heap} {given : List FrameId} {owned : List Value} {outside : Holders}
  {id other : FrameId}

/-! ### The search of the kept frames -/

section Search

variable {next : FrameId → List FrameId} {tracked pending kept start : List FrameId}

theorem subset_extend (fuel : Nat) : kept ⊆ extend next tracked fuel pending kept := by
  induction fuel generalizing pending kept with
  | zero => exact List.Subset.refl _
  | succ fuel ih =>
    cases pending with
    | nil => exact List.Subset.refl _
    | cons id pending => exact List.Subset.trans (List.subset_append_right _ _) ih

/-- The frames that the search of a frame adds. -/
theorem mem_added : other ∈ ((next id).filter fun other =>
      tracked.contains other && !kept.contains other).eraseDups ↔
    other ∈ next id ∧ other ∈ tracked ∧ other ∉ kept := by
  rw [List.mem_eraseDups, List.mem_filter]
  simp

/-- Each frame that is added is one less that can be added later. -/
theorem length_added_le {new : List FrameId} (distinct : new.Nodup)
    (fresh : ∀ id ∈ new, id ∈ tracked ∧ id ∉ kept) :
    new.length + (tracked.filter fun id => !(new ++ kept).contains id).length ≤
      (tracked.filter fun id => !kept.contains id).length := by
  -- Those not kept yet are split into the ones that are added now and the others.
  have parts := (tracked.filter fun id => !kept.contains id).length_eq_length_filter_add
    fun id => new.contains id
  have some : new.length ≤
      ((tracked.filter fun id => !kept.contains id).filter fun id => new.contains id).length := by
    refine distinct.length_le_of_subset fun id member => ?_
    obtain ⟨listed, unkept⟩ := fresh id member
    simp [listed, unkept, member]
  have others : ((tracked.filter fun id => !kept.contains id).filter fun id => !new.contains id) =
      tracked.filter fun id => !(new ++ kept).contains id := by
    rw [List.filter_filter]
    refine List.filter_congr fun id _ => ?_
    simp
  rw [others] at parts
  omega

/-- With enough fuel for the pending frames and all that can still be added, the search ends
with everything that its frames lead to. -/
theorem closed_extend {fuel : Nat}
    (enough : pending.length + (tracked.filter fun id => !kept.contains id).length ≤ fuel)
    (searched : ∀ id ∈ kept, id ∈ pending ∨ ∀ other ∈ next id, other ∈ tracked → other ∈ kept) :
    ∀ id ∈ extend next tracked fuel pending kept, ∀ other ∈ next id, other ∈ tracked →
      other ∈ extend next tracked fuel pending kept := by
  induction fuel generalizing pending kept with
  | zero =>
    have empty : pending = [] := List.eq_nil_of_length_eq_zero (by omega)
    subst empty
    exact fun id member => (searched id member).resolve_left List.not_mem_nil
  | succ fuel ih =>
    cases pending with
    | nil => exact fun id member => (searched id member).resolve_left List.not_mem_nil
    | cons first pending =>
      refine ih ?_ ?_
      · have fewer := length_added_le (nodup_eraseDups _)
          fun id (member : id ∈ ((next first).filter fun other =>
            tracked.contains other && !kept.contains other).eraseDups) => (mem_added.mp member).2
        rw [List.length_append]
        rw [List.length_cons] at enough
        omega
      · intro id member
        rcases List.mem_append.mp member with new | old
        · exact .inl (List.mem_append_left _ new)
        · rcases searched id old with waiting | done
          · rcases List.mem_cons.mp waiting with rfl | later
            · -- The frame just searched: what it leads to is old or added.
              refine .inr fun other leads listed => ?_
              by_cases known : other ∈ kept
              · exact List.mem_append_right _ known
              · exact List.mem_append_left _ (mem_added.mpr ⟨leads, listed, known⟩)
            · exact .inl (List.mem_append_right _ later)
          · exact .inr fun other leads listed => List.mem_append_right _ (done other leads listed)

theorem start_subset_reached : start ⊆ reached next tracked start :=
  subset_extend _

/-- The search goes as far as it can. -/
theorem closed_reached (member : id ∈ reached next tracked start) (leads : other ∈ next id)
    (listed : other ∈ tracked) : other ∈ reached next tracked start := by
  refine closed_extend ?_ (fun _ member => .inl member) id member other leads listed
  have := List.length_filter_le (fun id => !start.contains id) tracked
  omega

end Search

/-! ### What can be reached -/

/-- Whether a frame can be reached when frames and values are given up: from outside, or from
a frame that is alive and was not given up. -/
inductive Reaches (heap : Heap) (given : List FrameId) (owned : List Value)
    (outside : Holders) : FrameId → Prop where
  /-- It is held from outside. -/
  | held {id : FrameId} (held : id ∈ outside.references) : Reaches heap given owned outside id
  /-- A frame that was not given up refers to it. -/
  | other {id other : FrameId} (remains : heap.Remains (outside ++ ⟨given, owned⟩) other)
      (ungiven : other ∉ given) (refers : id ∈ heap.referencesOf other) :
      Reaches heap given owned outside id
  /-- A frame that can be reached refers to it. -/
  | step {id other : FrameId} (reaches : Reaches heap given owned outside other)
      (refers : id ∈ heap.referencesOf other) : Reaches heap given owned outside id

theorem referencesOf_eq (heap : Heap) (id : FrameId) :
    heap.referencesOf id =
      (heap.parent id).toList ++ (heap.valuesOf id).flatMap Value.environments := by
  rw [referencesOf, parent, valuesOf]
  cases heap.frame? id with
  | none => rfl
  | some frame => rfl

theorem references_append (a b : Holders) :
    ∀ id, id ∈ (a ++ b).references ↔ id ∈ a.references ∨ id ∈ b.references := by
  intro id
  have parts : (a ++ b).references =
      (a.handles ++ b.handles) ++ (a.values ++ b.values).flatMap Value.environments := rfl
  rw [parts, List.flatMap_append]
  simp only [Holders.references, List.mem_append]
  tauto

/-- A frame that can be reached remains. -/
theorem Reaches.remains (reaches : heap.Reaches given owned outside id) :
    heap.Remains (outside ++ ⟨given, owned⟩) id := by
  induction reaches with
  | held held => exact remains_of_mem ((references_append _ _ _).mpr (.inl held))
  | other remains _ refers => exact remains.references refers
  | step _ refers ih => exact ih.references refers

/-! ### What is kept -/

theorem mem_references_eraseDups :
    id ∈ (outside ++ ⟨given.eraseDups, owned⟩ : Holders).references ↔
      id ∈ (outside ++ ⟨given, owned⟩ : Holders).references := by
  rw [references_append, references_append]
  simp [Holders.references]

theorem remains_eraseDups (remains : heap.Remains (outside ++ ⟨given, owned⟩) id) :
    heap.Remains (outside ++ ⟨given.eraseDups, owned⟩) id :=
  remains.mono fun _ held => mem_references_eraseDups.mpr held

section Kept

variable {tracked : List FrameId}

/-- A frame held by a value that is not given up has other references. -/
theorem hasOther_of_elsewhere {v : Value} (member : v ∈ heap.elsewhere tracked owned outside)
    (held : id ∈ v.environments) : heap.HasOther tracked owned outside id := by
  rcases v.mem_environments held with direct | ⟨list, listed, refers⟩
  · exact .direct (List.mem_flatMap.mpr ⟨v, member, direct⟩)
  · exact .list list (List.mem_append_right _ (List.mem_flatMap.mpr ⟨v, member, listed⟩)) refers

theorem hasOther_of_outside (held : id ∈ outside.references) :
    heap.HasOther tracked owned outside id := by
  rcases List.mem_append.mp held with handle | inside
  · exact .handle handle
  · obtain ⟨v, member, refers⟩ := List.mem_flatMap.mp inside
    exact hasOther_of_elsewhere (List.mem_append_left _ member) refers

theorem hasOther_of_other (remains : heap.Remains (outside ++ ⟨tracked, owned⟩) other)
    (ungiven : other ∉ tracked) (refers : id ∈ heap.referencesOf other) :
    heap.HasOther tracked owned outside id := by
  have member : other ∈ heap.others tracked owned outside :=
    List.mem_filter.mpr ⟨mem_alive_of_remains (lt_size_of_mem_referencesOf refers) remains,
      by simpa using ungiven⟩
  rw [referencesOf_eq] at refers
  rcases List.mem_append.mp refers with parent | inside
  · exact .parent (List.mem_flatMap.mpr ⟨other, member, parent⟩)
  · obtain ⟨v, slot, held⟩ := List.mem_flatMap.mp inside
    exact hasOther_of_elsewhere
      (List.mem_append_right _ (List.mem_flatMap.mpr ⟨other, member, slot⟩)) held

/-- What a frame that is given up refers to is found, or has other references. -/
theorem found_or_hasOther (member : other ∈ tracked) (refers : id ∈ heap.referencesOf other) :
    id ∈ (heap.edgesOf (fun _ => false) other).map Prod.fst ∨
      heap.HasOther tracked owned outside id := by
  rw [referencesOf_eq] at refers
  rw [edgesOf_eq, List.map_append, List.mem_append]
  rcases List.mem_append.mp refers with parent | inside
  · exact .inl (.inl (by simpa using parent))
  · obtain ⟨v, slot, held⟩ := List.mem_flatMap.mp inside
    have given : v ∈ heap.givenUp tracked owned := mem_givenUp.mpr (.inr ⟨other, member, slot⟩)
    by_cases found : id ∈ (v.edges (fun _ => false) .owned).map Prod.fst
    · rw [List.map_flatMap]
      exact .inl (.inr (List.mem_flatMap.mpr ⟨v, slot, found⟩))
    · rw [v.map_fst_edges _ (heap.looksShared tracked owned outside) _ .owned] at found
      rcases v.missed held found with more | ⟨list, listed, refers⟩
      · exact .inr (.missed v given more)
      · exact .inr (.list list
          (List.mem_append_left _ (List.mem_flatMap.mpr ⟨v, given, listed⟩)) refers)

end Kept

/-- The frames that a collection keeps, of those it is given. -/
def kept (heap : Heap) (given : List FrameId) (owned : List Value) (outside : Holders) :
    List FrameId :=
  reached (fun id => (heap.edgesOf (fun _ => false) id).map Prod.fst) given.eraseDups
    (heap.heldElsewhere given.eraseDups owned outside)

/-- What can be reached is kept. -/
theorem kept_of_reaches (reaches : heap.Reaches given owned outside id) (member : id ∈ given) :
    id ∈ heap.kept given owned outside := by
  have holder {id : FrameId} (member : id ∈ given)
      (other : heap.HasOther given.eraseDups owned outside id) :
      id ∈ heap.kept given owned outside :=
    start_subset_reached (mem_heldElsewhere_of_hasOther (nodup_eraseDups _)
      (List.mem_eraseDups.mpr member) other)
  -- Along the way to the frame, every frame that was given up is kept.
  induction reaches with
  | held held => exact holder member (hasOther_of_outside held)
  | other remains ungiven refers =>
    exact holder member (hasOther_of_other (remains_eraseDups remains)
      (fun listed => ungiven (List.mem_eraseDups.mp listed)) refers)
  | @step id other reaches refers ih =>
    by_cases listed : other ∈ given
    · rcases found_or_hasOther (List.mem_eraseDups.mpr listed) refers with found | more
      · exact closed_reached (ih listed) found (List.mem_eraseDups.mpr member)
      · exact holder member more
    · exact holder member (hasOther_of_other (remains_eraseDups reaches.remains)
        (fun listed' => listed (List.mem_eraseDups.mp listed')) refers)

/-! ### Clearing -/

theorem frame_clear (heap : Heap) (id other : FrameId) :
    (heap.clear id).frame? other =
      if other = id then (heap.frame? other).map Frame.cleared
      else heap.frame? other := by
  simp only [clear, frame?, Array.getElem?_modify, eq_comm (a := id)]
  rfl

theorem frame_foldl_clear (heap : Heap) (ids : List FrameId) (id : FrameId) :
    (ids.foldl clear heap).frame? id =
      if id ∈ ids then (heap.frame? id).map Frame.cleared
      else heap.frame? id := by
  induction ids generalizing heap with
  | nil => simp
  | cons first rest ih =>
    rw [List.foldl_cons, ih, frame_clear]
    by_cases here : id = first
    · subst here
      by_cases again : id ∈ rest
      · cases heap.frame? id <;> simp [again, Frame.cleared]
      · simp [again]
    · simp [here]

/-- What a collection does: it clears some of the frames it is given, answers how many, and
leaves all other frames as they are, those among them that can be reached. -/
structure Spares (heap : Heap) (given : List FrameId) (owned : List Value) (outside : Holders)
    (count : Nat) (later : Heap) : Prop where
  /-- A frame that can be reached has all its slots and its parent. -/
  reached : ∀ id, heap.Reaches given owned outside id → later.frame? id = heap.frame? id
  /-- So has a frame that was not given up. -/
  others : ∀ id, id ∉ given → later.frame? id = heap.frame? id
  /-- The answer is the number of frames that were cleared. -/
  cleared : ∃ cleared : List FrameId, cleared.Nodup ∧ cleared ⊆ given ∧ cleared.length = count ∧
    ∀ id, later.frame? id =
      if id ∈ cleared then (heap.frame? id).map Frame.cleared
      else heap.frame? id

/-- The frames that a collection clears. -/
def garbage (heap : Heap) (given : List FrameId) (owned : List Value) (outside : Holders) :
    List FrameId :=
  given.eraseDups.filter fun id => !(heap.kept given owned outside).contains id

theorem mem_garbage : id ∈ heap.garbage given owned outside ↔
    id ∈ given ∧ id ∉ heap.kept given owned outside := by
  simp [garbage]

theorem frame_collect (heap : Heap) (given : List FrameId) (owned : List Value)
    (outside : Holders) (id : FrameId) :
    (heap.collect given owned outside).2.frame? id =
      if id ∈ heap.garbage given owned outside then (heap.frame? id).map Frame.cleared
      else heap.frame? id := by
  refine (frame_foldl_clear ..).trans ?_
  rw [frame_record]
  rfl

/-- A collection takes no frame, no counter and no storage. -/
theorem collect_keeps (heap : Heap) (given : List FrameId) (owned : List Value)
    (outside : Holders) :
    (heap.collect given owned outside).2.frames.size = heap.frames.size ∧
      (heap.collect given owned outside).2.nextStorage = heap.nextStorage ∧
      (heap.collect given owned outside).2.traces.size = heap.traces.size := by
  have cleared (heap : Heap) (ids : List FrameId) :
      (ids.foldl clear heap).frames.size = heap.frames.size ∧
        (ids.foldl clear heap).nextStorage = heap.nextStorage ∧
        (ids.foldl clear heap).traces = heap.traces := by
    induction ids generalizing heap with
    | nil => exact ⟨rfl, rfl, rfl⟩
    | cons id rest ih =>
      obtain ⟨size, storage, traces⟩ := ih (heap.clear id)
      exact ⟨size.trans Array.size_modify, storage, traces⟩
  -- How much the walk has been counted does not matter.
  suffices counted : ∀ ticks,
      let later := (heap.garbage given owned outside).foldl clear (heap.record ticks)
      later.frames.size = heap.frames.size ∧ later.nextStorage = heap.nextStorage ∧
        later.traces.size = heap.traces.size from counted _
  intro ticks later
  obtain ⟨counters, same_size, recorded⟩ := heap.record_eq ticks
  obtain ⟨size, storage, traces⟩ :=
    cleared (heap.record ticks) (heap.garbage given owned outside)
  refine ⟨size.trans ?_, storage.trans ?_, (congrArg Array.size traces).trans ?_⟩
  · rw [recorded]
  · rw [recorded]
  · rw [recorded, same_size]

theorem spares_collect (heap : Heap) (given : List FrameId) (owned : List Value)
    (outside : Holders) :
    heap.Spares given owned outside (heap.collect given owned outside).1
      (heap.collect given owned outside).2 := by
  refine ⟨fun id reaches => ?_, fun id ungiven => ?_, heap.garbage given owned outside,
    (nodup_eraseDups _).filter _, ?_, rfl, heap.frame_collect given owned outside⟩
  · rw [frame_collect, if_neg]
    intro member
    obtain ⟨listed, unkept⟩ := mem_garbage.mp member
    exact unkept (kept_of_reaches reaches listed)
  · rw [frame_collect, if_neg]
    exact fun member => ungiven (mem_garbage.mp member).1
  · exact fun id member => (mem_garbage.mp member).1

/-- Whether a frame leads to another through parents and closures. -/
def Leads (heap : Heap) : FrameId → FrameId → Prop :=
  Relation.ReflTransGen fun other id => id ∈ heap.referencesOf other

end Heap

namespace Interpreter

open Heap

/-- What a closure or a handle outside leads to is as it was before the interpreter was
dropped. -/
theorem frame_drop (interpreter : Interpreter) {outside : Holders} {env id : FrameId}
    (held : env ∈ outside.references) (leads : interpreter.machine.heap.Leads env id) :
    (interpreter.drop outside).frame? id = interpreter.machine.heap.frame? id := by
  apply (spares_collect ..).reached
  induction leads with
  | refl => exact .held held
  | tail _ refers ih => exact .step ih refers

end Interpreter

namespace Heap

/-- A collection spares what can be reached and what is not its own, and says how many frames
it cleared. So after the end of an interpreter every closure that the host still holds has
the environment that it had before. -/
theorem reachable_frames_survive :
    (∀ (heap : Heap) (given : List FrameId) (owned : List Value) (outside : Holders),
      heap.Spares given owned outside (heap.collect given owned outside).1
        (heap.collect given owned outside).2) ∧
    ∀ (interpreter : Interpreter) (outside : Holders) (env id : FrameId),
      env ∈ outside.references → interpreter.machine.heap.Leads env id →
      (interpreter.drop outside).frame? id = interpreter.machine.heap.frame? id :=
  ⟨spares_collect, fun interpreter _ _ _ held leads => interpreter.frame_drop held leads⟩

/-- A layout without slots. -/
def bareLayout : Layout where
  name := "f"
  site := default
  edition := 0
  params := []
  formals := ⟨"f", [], by decide, by decide⟩
  body := .ident default "x"
  locals := []
  reads := []
  supers := []
  formals_names := rfl
  params_leading := List.nil_prefix

/-- Two frames that hold themselves, and one inside the second. -/
def twoCycles : Heap where
  frames := #[⟨bareLayout, [some (.closure bareLayout 0)], none⟩,
    ⟨bareLayout, [some (.closure bareLayout 1)], none⟩, ⟨bareLayout, [], some 1⟩]

/-- One cycle is cleared; the other is the environment of a closure outside. -/
theorem reachable_frames_survive_twoCycles :
    (twoCycles.collect [0, 1, 0] [] ⟨[], [.closure bareLayout 2]⟩).1 = 1 ∧
      (twoCycles.collect [0, 1, 0] [] ⟨[], [.closure bareLayout 2]⟩).2.frame? 1 =
        twoCycles.frame? 1 := by
  refine ⟨rfl, (reachable_frames_survive.1 _ _ _ _).reached 1 ?_⟩
  have held : 2 ∈ (⟨[], [.closure bareLayout 2]⟩ : Holders).references :=
    List.mem_singleton.mpr rfl
  exact .step (.held held) (List.mem_singleton.mpr rfl)

end Heap

end Vectorial
