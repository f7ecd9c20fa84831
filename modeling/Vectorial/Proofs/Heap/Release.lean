import Mathlib.Data.List.Nodup
import Vectorial.Proofs.Heap.Frames
import Vectorial.Heap.References

/-!
# Frames that are never released

A frame remains as long as it is in a set of frames each of which is referred to, from
outside or from within the set. This does not mention how releasing goes on: the frames of a
cycle support each other.

Releasing takes references away one at a time. The count of a frame is then at all times the
number of references from outside, from frames that have not been released, and of those that
are about to be taken away. The count of a frame that remains is never zero, whatever has been
released, and whether or not the release is complete.

## Main definitions

* `Heap.Remains`: frames that are in a set that supports itself;
* `Heap.Releasing`: the counts during a release;
* `Heap.Waiting`: what is still to be released.

## Main results

* `Heap.mem_alive_of_remains`: frames that remain are alive;
* `Heap.mem_alive_iff`: no others are, if references lead to frames only.
-/

namespace Vectorial.Heap

/-- Whether every frame of a set is referred to from outside or from within the set. -/
def Supported (heap : Heap) (holders : Holders) (S : FrameId → Prop) : Prop :=
  ∀ id, S id → id ∈ holders.references ∨ ∃ other, S other ∧ id ∈ heap.referencesOf other

/-- Whether a frame is in a set that supports itself. -/
def Remains (heap : Heap) (holders : Holders) (id : FrameId) : Prop :=
  ∃ S, heap.Supported holders S ∧ S id

variable {heap : Heap} {holders : Holders} {id : FrameId}

theorem remains_of_mem (held : id ∈ holders.references) : heap.Remains holders id :=
  ⟨fun other => other = id, fun _ same => .inl (same ▸ held), rfl⟩

theorem Remains.references (remains : heap.Remains holders id) {other : FrameId}
    (refers : other ∈ heap.referencesOf id) : heap.Remains holders other := by
  obtain ⟨S, supported, member⟩ := remains
  refine ⟨fun frame => S frame ∨ frame = other, ?_, .inr rfl⟩
  rintro frame (old | rfl)
  · exact (supported frame old).imp_right fun ⟨from', inside, edge⟩ => ⟨from', .inl inside, edge⟩
  · exact .inr ⟨id, .inl member, refers⟩

theorem Remains.mono {more : Holders} (remains : heap.Remains holders id)
    (grows : holders.references ⊆ more.references) : heap.Remains more id := by
  obtain ⟨S, supported, member⟩ := remains
  exact ⟨S, fun other inside => (supported other inside).imp_left fun held => grows held, member⟩

/-- A frame that remains is referred to, from outside or by another that remains. -/
theorem Remains.referred (remains : heap.Remains holders id) :
    id ∈ holders.references ∨
      ∃ other, heap.Remains holders other ∧ id ∈ heap.referencesOf other := by
  obtain ⟨S, supported, member⟩ := remains
  exact (supported id member).imp_right fun ⟨other, inside, edge⟩ =>
    ⟨other, ⟨S, supported, inside⟩, edge⟩

theorem lt_size_of_mem_referencesOf {other : FrameId} (refers : id ∈ heap.referencesOf other) :
    other < heap.frames.size := by
  rw [referencesOf] at refers
  cases found : heap.frame? other with
  | none =>
    rw [found] at refers
    cases refers
  | some frame => exact exists_frame_iff.mp ⟨frame, found⟩

/-! ### Counting -/

theorem getD_modify (counts : Array Nat) (f : Nat → Nat) (index other : Nat) :
    (counts.modify index f).getD other 0 =
      if index = other ∧ other < counts.size then f (counts.getD other 0)
      else counts.getD other 0 := by
  rw [Array.getD_eq_getD_getElem?, Array.getD_eq_getD_getElem?, Array.getElem?_modify]
  by_cases same : index = other
  · by_cases inside : other < counts.size
    · simp [same, inside]
    · simp [same, inside]
  · simp [same]

theorem size_tally (size : Nat) (ids : List Nat) : (tally size ids).size = size := by
  have keeping (counts : Array Nat) :
      (ids.foldl (fun counts id => counts.modify id (· + 1)) counts).size = counts.size := by
    induction ids generalizing counts with
    | nil => rfl
    | cons id rest ih => rw [List.foldl_cons, ih, Array.size_modify]
  rw [tally, keeping, Array.size_replicate]

theorem getD_tally {size : Nat} {id : Nat} (ids : List Nat) (inside : id < size) :
    (tally size ids).getD id 0 = ids.count id := by
  have counting (counts : Array Nat) (inside : id < counts.size) :
      (ids.foldl (fun counts id => counts.modify id (· + 1)) counts).getD id 0 =
        counts.getD id 0 + ids.count id := by
    induction ids generalizing counts with
    | nil => rfl
    | cons first rest ih =>
      rw [List.foldl_cons, ih _ (by simpa using inside), getD_modify, List.count_cons]
      by_cases same : first = id
      · simp [same, inside]
        omega
      · simp [same]
  rw [tally, counting _ (by simpa using inside)]
  simp [Array.getD_eq_getD_getElem?, inside]

/-! ### Releasing -/

/-- The counts while frames are released: `live` has the frames not yet released, `pending`
those about to be, and `rest` the references about to be taken away. Numbers without a frame
do not matter. -/
structure Releasing (heap : Heap) (holders : Holders) (live : List FrameId) (counts : Array Nat)
    (pending rest : List FrameId) : Prop where
  size_eq : counts.size = heap.frames.size
  exact : ∀ id < heap.frames.size, counts.getD id 0 =
    (holders.references ++ live.flatMap heap.referencesOf ++ rest).count id
  live_of_pos : ∀ id < heap.frames.size, 0 < counts.getD id 0 → id ∈ live
  of_pending : ∀ id ∈ pending, id < heap.frames.size → id ∈ live ∧ counts.getD id 0 = 0
  once : (pending.filter (· < heap.frames.size)).Nodup
  remaining : ∀ id < heap.frames.size, heap.Remains holders id → id ∈ live

variable {live pending rest : List FrameId} {counts : Array Nat}

/-- The count of a frame that remains is not zero. -/
theorem Releasing.pos_of_remains (releasing : heap.Releasing holders live counts pending rest)
    (inside : id < heap.frames.size) (remains : heap.Remains holders id) :
    0 < counts.getD id 0 := by
  rw [releasing.exact id inside, List.count_pos_iff]
  rcases remains.referred with held | ⟨other, stays, refers⟩
  · exact List.mem_append_left _ (List.mem_append_left _ held)
  · have listed := releasing.remaining other (lt_size_of_mem_referencesOf refers) stays
    exact List.mem_append_left _ (List.mem_append_right _
      (List.mem_flatMap.mpr ⟨other, listed, refers⟩))

/-- Taking one reference away. -/
theorem Releasing.take (releasing : heap.Releasing holders live counts pending (id :: rest)) :
    heap.Releasing holders live (counts.modify id (· - 1))
      (if (counts.modify id (· - 1)).getD id 0 = 0 then id :: pending else pending) rest := by
  have had (inside : id < heap.frames.size) : 0 < counts.getD id 0 := by
    rw [releasing.exact id inside, List.count_pos_iff]
    exact List.mem_append_right _ List.mem_cons_self
  have not_pending (inside : id < heap.frames.size) : id ∉ pending := fun member => by
    have := (releasing.of_pending id member inside).2
    have := had inside
    omega
  have later (other : FrameId) : (counts.modify id (· - 1)).getD other 0 ≤ counts.getD other 0 := by
    rw [getD_modify]
    split <;> omega
  have still (other : FrameId) (member : other ∈ pending) (inside : other < heap.frames.size) :
      other ∈ live ∧ (counts.modify id (· - 1)).getD other 0 = 0 := by
    obtain ⟨listed, none_left⟩ := releasing.of_pending other member inside
    have := later other
    exact ⟨listed, by omega⟩
  refine ⟨?size, ?exact, ?live, ?pending, ?once, releasing.remaining⟩
  case size => rw [Array.size_modify, releasing.size_eq]
  case exact =>
    intro other inside
    have before := releasing.exact other inside
    rw [getD_modify, releasing.size_eq]
    rw [List.count_append, List.count_cons] at before
    rw [List.count_append]
    by_cases same : id = other
    · rw [if_pos ⟨same, inside⟩, before]
      simp [same]
    · rw [if_neg fun both => same both.1, before]
      simp [same]
  case live =>
    intro other inside pos
    exact releasing.live_of_pos other inside (Nat.lt_of_lt_of_le pos (later other))
  case pending =>
    intro other member inside
    split at member
    · next none_left =>
      rcases List.mem_cons.mp member with rfl | old
      · exact ⟨releasing.live_of_pos other inside (had inside), none_left⟩
      · exact still other old inside
    · exact still other member inside
  case once =>
    split
    · rw [List.filter_cons]
      split
      · next inside =>
        refine List.nodup_cons.mpr ⟨fun member => ?_, releasing.once⟩
        exact not_pending (by simpa using inside) (List.mem_filter.mp member).1
      · exact releasing.once
    · exact releasing.once

theorem Releasing.release (releasing : heap.Releasing holders live counts pending rest) :
    heap.Releasing holders live (release counts pending rest).1 (release counts pending rest).2
      [] := by
  induction rest generalizing counts pending with
  | nil => exact releasing
  | cons id rest ih => exact ih releasing.take

/-- Releasing the next pending frame, which takes its references away. -/
theorem Releasing.next_of_lt (releasing : heap.Releasing holders live counts (id :: pending) [])
    (inside : id < heap.frames.size) :
    heap.Releasing holders (live.erase id) counts pending (heap.referencesOf id) := by
  obtain ⟨listed, none_left⟩ := releasing.of_pending id List.mem_cons_self inside
  have once := releasing.once
  rw [List.filter_cons, if_pos (by simpa using inside)] at once
  refine ⟨releasing.size_eq, ?exact, ?live, ?pending, (List.nodup_cons.mp once).2, ?remaining⟩
  case exact =>
    intro other other_inside
    have moved : (live.flatMap heap.referencesOf).Perm
        (heap.referencesOf id ++ (live.erase id).flatMap heap.referencesOf) :=
      (List.perm_cons_erase listed).flatMap_right _
    rw [releasing.exact other other_inside]
    simp only [List.count_append, List.count_nil, moved.count_eq]
    omega
  case live =>
    intro other other_inside pos
    have different : other ≠ id := by
      rintro rfl
      omega
    exact (List.mem_erase_of_ne different).mpr (releasing.live_of_pos other other_inside pos)
  case pending =>
    intro other member other_inside
    obtain ⟨other_listed, other_none⟩ :=
      releasing.of_pending other (List.mem_cons_of_mem _ member) other_inside
    have different : other ≠ id := by
      rintro rfl
      exact (List.nodup_cons.mp once).1 (List.mem_filter.mpr ⟨member, by simpa using inside⟩)
    exact ⟨(List.mem_erase_of_ne different).mpr other_listed, other_none⟩
  case remaining =>
    intro other other_inside remains
    have different : other ≠ id := by
      rintro rfl
      have := releasing.pos_of_remains inside remains
      omega
    exact (List.mem_erase_of_ne different).mpr (releasing.remaining other other_inside remains)

theorem Releasing.next (releasing : heap.Releasing holders live counts (id :: pending) []) :
    ∃ live', heap.Releasing holders live' counts pending (heap.referencesOf id) := by
  by_cases inside : id < heap.frames.size
  · exact ⟨live.erase id, releasing.next_of_lt inside⟩
  · -- A number without a frame refers to nothing.
    have nothing : heap.referencesOf id = [] := by
      rw [referencesOf, frame_eq_none_iff.mpr (Nat.le_of_not_lt inside)]
      rfl
    rw [nothing]
    refine ⟨live, releasing.size_eq, releasing.exact, releasing.live_of_pos, ?_, ?_,
      releasing.remaining⟩
    · exact fun other member => releasing.of_pending other (List.mem_cons_of_mem _ member)
    · have once := releasing.once
      rw [List.filter_cons, if_neg (by simpa using inside)] at once
      exact once

theorem Releasing.releaseAll (fuel : Nat)
    (releasing : heap.Releasing holders live counts pending []) :
    ∃ left waiting,
      heap.Releasing holders left (heap.releaseAll fuel counts pending) waiting [] := by
  induction fuel generalizing live counts pending with
  | zero => exact ⟨live, pending, releasing⟩
  | succ fuel ih =>
    cases pending with
    | nil => exact ⟨live, [], releasing⟩
    | cons id pending =>
      obtain ⟨live', without⟩ := releasing.next
      exact ih without.release

/-- The counts before any frame is released. -/
theorem releasing_tally (heap : Heap) (holders : Holders) :
    let counts := tally heap.frames.size
      (holders.references ++ (List.range heap.frames.size).flatMap heap.referencesOf)
    heap.Releasing holders (List.range heap.frames.size) counts
      ((List.range heap.frames.size).filter fun id => counts.getD id 0 = 0) [] := by
  intro counts
  refine ⟨?size, ?exact, ?live, ?pending, ?once, ?remaining⟩
  case size => rw [size_tally]
  case exact =>
    intro id inside
    rw [getD_tally _ inside, List.append_nil]
  case live => exact fun id inside _ => List.mem_range.mpr inside
  case pending =>
    intro id member inside
    exact ⟨List.mem_range.mpr inside, by simpa using (List.mem_filter.mp member).2⟩
  case once => exact (List.nodup_range.filter _).filter _
  case remaining => exact fun id inside _ => List.mem_range.mpr inside

/-- A frame that remains is alive. -/
theorem mem_alive_of_remains (inside : id < heap.frames.size)
    (remains : heap.Remains holders id) : id ∈ heap.alive holders := by
  obtain ⟨live, pending, releasing⟩ :=
    (releasing_tally heap holders).releaseAll heap.frames.size
  refine List.mem_filter.mpr ⟨List.mem_range.mpr inside, ?_⟩
  exact decide_eq_true (releasing.pos_of_remains inside remains)

/-! ### The end of a release -/

/-- Whether references lead to frames only. -/
def IsClosed (heap : Heap) : Prop :=
  ∀ id, ∀ other ∈ heap.referencesOf id, other < heap.frames.size

/-- What is still to be released: all frames without references are pending, and there is enough
fuel for the frames that are left. -/
structure Waiting (heap : Heap) (live : List FrameId) (counts : Array Nat)
    (pending : List FrameId) (fuel : Nat) : Prop where
  distinct : live.Nodup
  inside : ∀ id ∈ live, id < heap.frames.size
  pending_inside : ∀ id ∈ pending, id < heap.frames.size
  waiting : ∀ id ∈ live, counts.getD id 0 = 0 → id ∈ pending
  enough : live.length ≤ fuel

variable {fuel : Nat}

theorem Waiting.take (waits : heap.Waiting live counts pending fuel)
    (inside : id < heap.frames.size) :
    heap.Waiting live (counts.modify id (· - 1))
      (if (counts.modify id (· - 1)).getD id 0 = 0 then id :: pending else pending) fuel := by
  refine ⟨waits.distinct, waits.inside, ?pending, ?waiting, waits.enough⟩
  case pending =>
    intro other member
    split at member
    · rcases List.mem_cons.mp member with rfl | old
      · exact inside
      · exact waits.pending_inside other old
    · exact waits.pending_inside other member
  case waiting =>
    intro other listed none_left
    by_cases same : other = id
    · subst same
      rw [if_pos none_left]
      exact List.mem_cons_self
    · rw [getD_modify, if_neg fun both => same both.1.symm] at none_left
      have old := waits.waiting other listed none_left
      split
      · exact List.mem_cons_of_mem _ old
      · exact old

theorem Waiting.release (waits : heap.Waiting live counts pending fuel)
    (inside : ∀ id ∈ rest, id < heap.frames.size) :
    heap.Waiting live (release counts pending rest).1 (release counts pending rest).2 fuel := by
  induction rest generalizing counts pending with
  | nil => exact waits
  | cons id rest ih =>
    exact ih (waits.take (inside id List.mem_cons_self))
      fun other later => inside other (List.mem_cons_of_mem _ later)

/-- A frame that is released is one less to be released. -/
theorem Waiting.next (waits : heap.Waiting live counts (id :: pending) (fuel + 1))
    (listed : id ∈ live) : heap.Waiting (live.erase id) counts pending fuel := by
  refine ⟨waits.distinct.erase id, ?inside, ?pending, ?waiting, ?enough⟩
  case inside => exact fun other member => waits.inside other (List.mem_of_mem_erase member)
  case pending =>
    exact fun other member => waits.pending_inside other (List.mem_cons_of_mem _ member)
  case waiting =>
    intro other member none_left
    obtain ⟨different, old⟩ := waits.distinct.mem_erase_iff.mp member
    exact (List.mem_cons.mp (waits.waiting other old none_left)).resolve_left different
  case enough =>
    have := waits.enough
    rw [List.length_erase_of_mem listed]
    omega

/-- With enough fuel the release ends when every frame that is left has a reference. -/
theorem Releasing.complete (closed : heap.IsClosed)
    (releasing : heap.Releasing holders live counts pending [])
    (waits : heap.Waiting live counts pending fuel) :
    ∃ left waiting,
      heap.Releasing holders left (heap.releaseAll fuel counts pending) waiting [] ∧
      ∀ id ∈ left, 0 < (heap.releaseAll fuel counts pending).getD id 0 := by
  induction fuel generalizing live counts pending with
  | zero =>
    have empty : live = [] := List.eq_nil_of_length_eq_zero (Nat.le_zero.mp waits.enough)
    exact ⟨live, pending, releasing, by simp [empty]⟩
  | succ fuel ih =>
    cases pending with
    | nil =>
      refine ⟨live, [], releasing, fun id listed => Nat.pos_of_ne_zero fun none_left => ?_⟩
      exact List.not_mem_nil (waits.waiting id listed none_left)
    | cons id pending =>
      have inside := waits.pending_inside id List.mem_cons_self
      have listed := (releasing.of_pending id List.mem_cons_self inside).1
      exact ih (releasing.next_of_lt inside).release ((waits.next listed).release (closed id))

/-- When no reference dangles, the frames that are alive are those that remain. -/
theorem mem_alive_iff (closed : heap.IsClosed) :
    id ∈ heap.alive holders ↔ id < heap.frames.size ∧ heap.Remains holders id := by
  constructor
  · intro alive
    obtain ⟨listed, pos⟩ := List.mem_filter.mp alive
    have inside : id < heap.frames.size := List.mem_range.mp listed
    let counts := tally heap.frames.size
      (holders.references ++ (List.range heap.frames.size).flatMap heap.referencesOf)
    have begins : heap.Waiting (List.range heap.frames.size) counts
        ((List.range heap.frames.size).filter fun id => counts.getD id 0 = 0)
        heap.frames.size :=
      { distinct := List.nodup_range
        inside := fun id member => List.mem_range.mp member
        pending_inside := fun id member => List.mem_range.mp (List.mem_filter.mp member).1
        waiting := fun id member none_left =>
          List.mem_filter.mpr ⟨member, decide_eq_true none_left⟩
        enough := Nat.le_of_eq List.length_range }
    obtain ⟨left, waiting, releasing, referred⟩ :=
      (releasing_tally heap holders).complete closed begins
    refine ⟨inside, fun other => other ∈ left ∧ other < heap.frames.size, ?_,
      releasing.live_of_pos id inside (of_decide_eq_true pos), inside⟩
    -- What is left is referred to from outside or by what is left.
    rintro other ⟨member, other_inside⟩
    have counted := referred other member
    rw [releasing.exact other other_inside, List.append_nil, List.count_pos_iff,
      List.mem_append] at counted
    refine counted.imp_right fun inner => ?_
    obtain ⟨from', from_left, refers⟩ := List.mem_flatMap.mp inner
    exact ⟨from', ⟨from_left, lt_size_of_mem_referencesOf refers⟩, refers⟩
  · exact fun both => mem_alive_of_remains both.1 both.2

/-- Which frames are alive depends only on which frames are referred to from outside. -/
theorem alive_congr {other : Holders} (closed : heap.IsClosed)
    (same : ∀ id, id ∈ holders.references ↔ id ∈ other.references) :
    heap.alive holders = heap.alive other := by
  refine List.filter_congr fun id listed => ?_
  have alike : id ∈ heap.alive holders ↔ id ∈ heap.alive other := by
    rw [mem_alive_iff closed, mem_alive_iff closed]
    exact and_congr_right fun _ =>
      ⟨fun remains => remains.mono fun _ held => (same _).mp held,
        fun remains => remains.mono fun _ held => (same _).mpr held⟩
  rw [Bool.eq_iff_iff]
  simpa [alive, List.mem_range.mp listed] using alike

theorem nodup_alive (heap : Heap) (holders : Holders) : (heap.alive holders).Nodup :=
  List.nodup_range.filter _

end Vectorial.Heap
