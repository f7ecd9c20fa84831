import Vectorial.Proofs.Call.Arity
import Vectorial.Proofs.Call.Positions
import Vectorial.Proofs.Evaluation.Filling

/-!
# Every actual has one place

The frame of a call is filled parameter by parameter, and an actual that a slot takes is gone for
the later ones. That nothing is taken twice, and nothing from beyond the end of the call, rests
on the binding: it sends each actual to one place only. Before each parameter, the slots of the
earlier ones are bound, and what is left of the actuals is what the binding sends further on.

## Main definitions

* `Place`, `Binding.Sends`: the places of a frame, and the actuals sent to them;
* `Held`, `Frame.byTaking`: the frame of a call, filled by taking the actuals one by one;
* `Frame.Holds`: what the frame of a call holds.

## Main results

* `Binding.existsUnique_sends`: a binding sends every actual to one place;
* `takeFor_heldBut`, `place_heldBut`: what is taken for one parameter, and for all;
* `byTaking_eq`: taking one by one makes the frame of the call;
* `ofCall_places`: the frame of every call that is matched.
-/

namespace Vectorial

open Matching

/-! ### Places -/

/-- A place for one actual of a call: the slot of a parameter, or a position in the list that is
in the slot of the varargs marker. -/
inductive Place where
  | slot (index : Nat)
  | item (position : Nat)

/-- Whether a binding sends an actual to a place. -/
def Binding.Sends (binding : Binding) (actual : Nat) : Place → Prop
  | .slot index => binding.actualFor index = some actual
  | .item position => binding.dots[position]? = some actual

section Places

variable {binding : Binding} {count actual : Nat}

theorem Binding.actualFor_eq_some_iff {index : Nat} :
    binding.actualFor index = some actual ↔ binding.actuals[index]? = some (some actual) := by
  rw [actualFor, Option.join_eq_some_iff]

/-- A parameter's actual is no other parameter's. -/
theorem Binding.eq_of_actualFor {index index' : Nat} (distinct : binding.actuals.reduceOption.Nodup)
    (here : binding.actualFor index = some actual)
    (there : binding.actualFor index' = some actual) : index = index' := by
  rw [actualFor_eq_some_iff] at here there
  -- Of two entries with one actual, the earlier and the later would hold the same.
  rw [List.reduceOption, List.Nodup, List.pairwise_filterMap] at distinct
  have apart {i j : Nat} (before : i < j) (at_i : binding.actuals[i]? = some (some actual))
      (at_j : binding.actuals[j]? = some (some actual)) : False := by
    obtain ⟨inside_i, eq_i⟩ := List.getElem?_eq_some_iff.mp at_i
    obtain ⟨inside_j, eq_j⟩ := List.getElem?_eq_some_iff.mp at_j
    have differ := List.pairwise_iff_getElem.mp distinct i j inside_i inside_j before
    exact differ actual eq_i actual eq_j rfl
  rcases Nat.lt_trichotomy index index' with before | same | after
  · exact (apart before here there).elim
  · exact same
  · exact (apart after there here).elim

theorem Binding.mem_reduceOption_iff :
    actual ∈ binding.actuals.reduceOption ↔ ∃ index, binding.actualFor index = some actual := by
  rw [List.reduceOption_mem_iff, List.mem_iff_getElem?]
  exact exists_congr fun index => actualFor_eq_some_iff.symm

/-- Each actual that is not left over is sent to exactly one place. -/
theorem Binding.existsUnique_sends (distributes : binding.Distributes count)
    (unused : binding.unused = []) (given : actual < count) :
    ∃! place, binding.Sends actual place := by
  rw [Distributes, unused, List.append_nil] at distributes
  have distinct := distributes.nodup_iff.mpr List.nodup_range
  obtain ⟨one_slot, one_item, apart⟩ := List.nodup_append.mp distinct
  -- The actuals of the parameters and the absorbed ones are different parts of the whole.
  have not_both {index position : Nat} (slot : binding.actualFor index = some actual)
      (item : binding.dots[position]? = some actual) : False :=
    apart actual (mem_reduceOption_iff.mpr ⟨index, slot⟩) actual (List.mem_of_getElem? item) rfl
  rcases List.mem_append.mp (distributes.mem_iff.mpr (List.mem_range.mpr given)) with slot | item
  · obtain ⟨index, slot⟩ := mem_reduceOption_iff.mp slot
    refine ⟨.slot index, slot, fun other sent => ?_⟩
    cases other with
    | slot index' => exact congrArg Place.slot (eq_of_actualFor one_slot sent slot)
    | item position => exact (not_both slot sent).elim
  · obtain ⟨position, item⟩ := List.mem_iff_getElem?.mp item
    refine ⟨.item position, item, fun other sent => ?_⟩
    cases other with
    | slot index => exact (not_both sent item).elim
    | item position' =>
      obtain ⟨inside, -⟩ := List.getElem?_eq_some_iff.mp item
      have same := (List.getElem?_inj inside one_item).mp (item.trans sent.symm)
      exact congrArg Place.item same.symm

/-- What is sent to a place is an actual of the call. -/
theorem Binding.lt_of_sends (distributes : binding.Distributes count) (place : Place)
    (sent : binding.Sends actual place) : actual < count := by
  refine List.mem_range.mp (distributes.mem_iff.mp ?_)
  refine List.mem_append_left _ (List.mem_append.mpr ?_)
  cases place with
  | slot index => exact .inl (mem_reduceOption_iff.mpr ⟨index, sent⟩)
  | item position => exact .inr (List.mem_of_getElem? sent)

end Places

/-! ### Taking actuals one by one -/

/-- The actuals of a call while they are being placed; one that has been taken leaves a gap. -/
abbrev Held := List (Option Value)

namespace Held

/-- Takes the actual at a position, which must be one of the call's. Where there is a gap
nothing is taken. -/
def take (held : Held) (actual : Nat) : Option (Option Value × Held) :=
  held[actual]?.map fun value => (value, held.set actual none)

/-- Takes several actuals in turn, `NULL` standing for a gap. -/
def takeAll (held : Held) : List Nat → Option (List Value × Held)
  | [] => some ([], held)
  | actual :: rest => do
    let (value, held) ← held.take actual
    let (values, held) ← held.takeAll rest
    pure (value.getD .null :: values, held)

/-- Takes what goes to the slot of the parameter at a position. -/
def takeFor (held : Held) (formals : Formals) (binding : Binding) (names : List (Option Symbol))
    (fresh : StorageId) (index : Nat) : Option (Option Value × Held) :=
  if formals.dotsIndex = some index then do
    let (values, held) ← held.takeAll binding.dots
    pure (some (.ofParts fresh ((binding.dots.map (label names)).zip values)), held)
  else
    match binding.actuals[index]? with
    | none => none
    | some none => some (none, held)
    | some (some actual) => held.take actual

/-- Places the actuals of the parameters at some positions in turn, in slots that there must
be. -/
def place (held : Held) (formals : Formals) (binding : Binding) (names : List (Option Symbol))
    (fresh : StorageId) : List Nat → List (Option Value) → Option (List (Option Value) × Held)
  | [], slots => some (slots, held)
  | index :: rest, slots => do
    let (value, held) ← held.takeFor formals binding names fresh index
    if index < slots.length then held.place formals binding names fresh rest (slots.set index value)
    else none

end Held

/-- The frame of a call made by taking the actuals one by one, and what is left of them; nothing
if a position is out of range. -/
def Frame.byTaking (layout : Layout) (binding : Binding) (names : List (Option Symbol))
    (values : List Value) (fresh : StorageId) (parent : FrameId) : Option (Frame × Held) := do
  let frame := Frame.unbound layout (some parent)
  let held : Held := values.map some
  let (slots, held) ← held.place layout.formals binding names fresh
    (List.range layout.formals.length) frame.slots
  pure ({ frame with slots }, held)

/-- The actuals of a call without those at some positions. -/
def heldBut (values : List Value) (gone : List Nat) : Held :=
  values.mapIdx fun index value => if index ∈ gone then none else some value

section Taking

variable {values : List Value} {gone : List Nat} {actual : Nat}

theorem getElem?_heldBut (values : List Value) (gone : List Nat) (index : Nat) :
    (heldBut values gone)[index]? =
      values[index]?.map fun value => if index ∈ gone then none else some value := by
  simp [heldBut]

theorem take_heldBut {v : Value} (given : values[actual]? = some v) (left : actual ∉ gone) :
    (heldBut values gone).take actual = some (some v, heldBut values (gone ++ [actual])) := by
  rw [Held.take, getElem?_heldBut, given, Option.map_some, Option.map_some, if_neg left]
  refine congrArg some (congrArg (Prod.mk (some v)) (List.ext_getElem? fun index => ?_))
  rw [List.getElem?_set, getElem?_heldBut, getElem?_heldBut]
  by_cases here : actual = index
  · subst here
    obtain ⟨inside, -⟩ := List.getElem?_eq_some_iff.mp given
    simp [heldBut, inside]
  · simp [here, Ne.symm here]

theorem takeAll_heldBut {actuals : List Nat} (given : ∀ actual ∈ actuals, actual < values.length)
    (distinct : actuals.Nodup) (left : ∀ actual ∈ actuals, actual ∉ gone) :
    (heldBut values gone).takeAll actuals =
      some (actuals.filterMap (values[·]?), heldBut values (gone ++ actuals)) := by
  induction actuals generalizing gone with
  | nil => simp [Held.takeAll]
  | cons actual rest ih =>
    -- Once the first is gone, the others are still there, as it is none of them.
    have found := List.getElem?_eq_getElem (given actual List.mem_cons_self)
    obtain ⟨new, distinct⟩ := List.nodup_cons.mp distinct
    have rest_left : ∀ other ∈ rest, other ∉ gone ++ [actual] := by
      intro other member
      rw [List.mem_append, List.mem_singleton, not_or]
      exact ⟨left other (List.mem_cons_of_mem _ member), fun same => new (same ▸ member)⟩
    have taken := ih (fun other member => given other (List.mem_cons_of_mem _ member)) distinct
      rest_left
    rw [Held.takeAll, take_heldBut found (left actual List.mem_cons_self)]
    simp [taken, found]

end Taking

section Placing

variable {layout : Layout} {binding : Binding} {names : List (Option Symbol)} {values : List Value}
  {fresh : StorageId} {index : Nat}

/-- The actuals that go to the slot of the parameter at a position. -/
def Binding.placedAt (binding : Binding) (formals : Formals) (index : Nat) : List Nat :=
  if formals.dotsIndex = some index then binding.dots else (binding.actualFor index).toList

/-- The actuals that go to the slots of the parameters before a position. -/
def Binding.placedBefore (binding : Binding) (formals : Formals) (index : Nat) : List Nat :=
  (List.range index).flatMap (binding.placedAt formals)

/-- The actuals of a call, with the names that they have. -/
theorem getElem?_given (names : List (Option Symbol)) (values : List Value) (actual : Nat) :
    ((labels names values.length).zip values)[actual]? =
      values[actual]?.map fun value => (label names actual, value) := by
  rcases Nat.lt_or_ge actual values.length with inside | outside
  · simp [labels, label, inside]
  · simp [outside]

theorem filterMap_given {actuals : List Nat} (given : ∀ actual ∈ actuals, actual < values.length) :
    (actuals.filterMap fun actual => ((labels names values.length).zip values)[actual]?) =
      (actuals.map (label names)).zip (actuals.filterMap (values[·]?)) := by
  induction actuals with
  | nil => rfl
  | cons actual rest ih =>
    have found := List.getElem?_eq_getElem (given actual List.mem_cons_self)
    have rest_eq := ih fun other member => given other (List.mem_cons_of_mem _ member)
    simp only [List.filterMap_cons, getElem?_given, found, Option.map_some, List.map_cons,
      List.zip_cons_cons] at rest_eq ⊢
    rw [rest_eq]

/-- Taking what goes to a parameter gives what is in its slot at the start of the call. -/
theorem takeFor_heldBut (names : List (Option Symbol)) (fresh : StorageId) {gone : List Nat}
    (inside : index < binding.actuals.length)
    (given : ∀ actual ∈ binding.placedAt layout.formals index, actual < values.length)
    (distinct : binding.dots.Nodup)
    (left : ∀ actual ∈ binding.placedAt layout.formals index, actual ∉ gone) :
    (heldBut values gone).takeFor layout.formals binding names fresh index =
      some (Frame.initialSlot layout binding ((labels names values.length).zip values) fresh index,
        heldBut values (gone ++ binding.placedAt layout.formals index)) := by
  unfold Binding.placedAt at *
  rw [Held.takeFor, Frame.initialSlot]
  split at given
  -- The marker takes all that it absorbs, an ordinary parameter one actual or none.
  · next marker =>
    rw [if_pos marker] at left ⊢
    rw [if_pos marker, if_pos marker, takeAll_heldBut given distinct left, filterMap_given given]
    rfl
  · next ordinary =>
    rw [if_neg ordinary] at left ⊢
    rw [if_neg ordinary, if_neg ordinary]
    have entry := List.getElem?_eq_getElem inside
    have actual_eq : binding.actualFor index = binding.actuals[index] := by
      rw [Binding.actualFor, entry, Option.join_some]
    rw [actual_eq] at given left ⊢
    rw [entry]
    cases at_index : binding.actuals[index] with
    | none => simp
    | some actual =>
      rw [at_index] at given left
      have found := List.getElem?_eq_getElem (given actual (by simp))
      simp [take_heldBut found (left actual (by simp)), getElem?_given, found]

variable (orderly : Orderly binding layout.formals values.length) (unused : binding.unused = [])
  (complete : binding.actuals.length = layout.formals.length)

include orderly in
theorem lt_of_mem_placedAt {actual : Nat}
    (member : actual ∈ binding.placedAt layout.formals index) : actual < values.length := by
  rw [Binding.placedAt] at member
  split at member
  · obtain ⟨position, item⟩ := List.mem_iff_getElem?.mp member
    exact Binding.lt_of_sends orderly.distributes (.item position) item
  · exact Binding.lt_of_sends orderly.distributes (.slot index) (Option.mem_toList.mp member)

include orderly unused in
/-- What goes to one parameter goes to no other one. -/
theorem notMem_placedAt {other actual : Nat} (apart : other ≠ index)
    (member : actual ∈ binding.placedAt layout.formals index) :
    actual ∉ binding.placedAt layout.formals other := by
  intro member'
  obtain ⟨place, -, only⟩ := Binding.existsUnique_sends orderly.distributes unused
    (lt_of_mem_placedAt orderly member)
  -- The one place of the actual shows which parameter it goes to.
  have goes {index : Nat} (member : actual ∈ binding.placedAt layout.formals index) :
      place = .slot index ∨ layout.formals.dotsIndex = some index ∧
        ∃ position, place = .item position := by
    rw [Binding.placedAt] at member
    split at member
    · next marker =>
      obtain ⟨position, item⟩ := List.mem_iff_getElem?.mp member
      exact .inr ⟨marker, position, (only (.item position) item).symm⟩
    · exact .inl (only (.slot index) (Option.mem_toList.mp member)).symm
  obtain slot | ⟨marker, position, item⟩ := goes member <;>
    obtain slot' | ⟨marker', position', item'⟩ := goes member'
  · exact apart (Place.slot.inj (slot'.symm.trans slot))
  · cases slot.symm.trans item'
  · cases item.symm.trans slot'
  · exact apart (Option.some.inj (marker'.symm.trans marker))

include orderly unused in
theorem notMem_placedBefore {actual : Nat}
    (member : actual ∈ binding.placedAt layout.formals index) :
    actual ∉ binding.placedBefore layout.formals index := by
  intro before
  obtain ⟨other, less, member'⟩ := List.mem_flatMap.mp before
  exact notMem_placedAt orderly unused (Nat.ne_of_lt (List.mem_range.mp less)) member member'

/-- The slots of a call after the parameters before a position have been served. -/
def slotsBefore (layout : Layout) (binding : Binding) (actuals : Parts) (fresh : StorageId)
    (index : Nat) : List (Option Value) :=
  (List.range index).map (Frame.initialSlot layout binding actuals fresh) ++
    List.replicate (layout.frameSize - index) none

theorem set_slotsBefore {actuals : Parts} (inside : index < layout.frameSize) :
    (slotsBefore layout binding actuals fresh index).set index
        (Frame.initialSlot layout binding actuals fresh index) =
      slotsBefore layout binding actuals fresh (index + 1) := by
  have more : layout.frameSize - index = layout.frameSize - (index + 1) + 1 := by omega
  rw [slotsBefore, slotsBefore, List.set_append_right _ _ (by simp), List.range_succ,
    List.map_append, List.append_assoc, more, List.replicate_succ]
  simp

theorem length_slotsBefore {actuals : Parts} (inside : index ≤ layout.frameSize) :
    (slotsBefore layout binding actuals fresh index).length = layout.frameSize := by
  rw [slotsBefore, List.length_append, List.length_map, List.length_range, List.length_replicate]
  omega

include orderly unused complete in
/-- Serving the parameters in turn. Before each of them, the slots of the earlier ones are bound
and their actuals are gone. -/
theorem place_heldBut (names : List (Option Symbol)) (fresh : StorageId) (count : Nat)
    (start : index + count = layout.formals.length) :
    (heldBut values (binding.placedBefore layout.formals index)).place layout.formals binding names
        fresh (List.range' index count)
        (slotsBefore layout binding ((labels names values.length).zip values) fresh index) =
      some (slotsBefore layout binding ((labels names values.length).zip values) fresh
          layout.formals.length,
        heldBut values (binding.placedBefore layout.formals layout.formals.length)) := by
  induction count generalizing index with
  | zero =>
    rw [Nat.add_zero] at start
    subst start
    rfl
  | succ count ih =>
    have declared : index < layout.formals.length := by omega
    have inside : index < layout.frameSize :=
      Nat.lt_of_lt_of_le (layout.length_formals ▸ declared) layout.length_params_le
    have taken := takeFor_heldBut names fresh (complete.symm ▸ declared)
      (fun _ => lt_of_mem_placedAt orderly) (orderly.dots.imp Nat.ne_of_lt)
      (fun _ => notMem_placedBefore orderly unused)
    -- Before the next parameter, what goes to this one is gone too.
    have gone : binding.placedBefore layout.formals index ++
        binding.placedAt layout.formals index =
          binding.placedBefore layout.formals (index + 1) := by
      rw [Binding.placedBefore, Binding.placedBefore, List.range_succ, List.flatMap_append,
        List.flatMap_singleton]
    rw [gone] at taken
    rw [List.range'_succ, Held.place, taken]
    have room : index < (slotsBefore layout binding ((labels names values.length).zip values) fresh
        index).length := by
      rwa [length_slotsBefore (Nat.le_of_lt inside)]
    simp only [Option.bind_eq_bind, Option.bind_some, if_pos room, set_slotsBefore inside]
    exact ih (by omega)

include orderly in
theorem exists_marker (absorbed : binding.dots ≠ []) :
    ∃ marker, layout.formals.dotsIndex = some marker ∧ marker < layout.formals.length := by
  cases at_marker : layout.formals.dotsIndex with
  | none => exact absurd (by simpa [at_marker] using orderly.nothing) absorbed
  | some marker =>
    exact ⟨marker, rfl, Formals.lt_of_getElem?_names (Formals.getElem?_names_dotsIndex at_marker)⟩

include orderly in
theorem ordinary_of_actualFor {actual : Nat} (bound : binding.actualFor index = some actual) :
    layout.formals.dotsIndex ≠ some index := by
  intro marker
  rw [Binding.actualFor, orderly.marker index marker] at bound
  cases bound

include orderly unused complete in
/-- All actuals go to some parameter. -/
theorem mem_placedBefore {actual : Nat} (given : actual < values.length) :
    actual ∈ binding.placedBefore layout.formals layout.formals.length := by
  rw [Binding.placedBefore, List.mem_flatMap]
  obtain ⟨place, sent, -⟩ := Binding.existsUnique_sends orderly.distributes unused given
  cases place with
  | slot index =>
    obtain ⟨inside, -⟩ := List.getElem?_eq_some_iff.mp (Binding.actualFor_eq_some_iff.mp sent)
    refine ⟨index, List.mem_range.mpr (complete ▸ inside), ?_⟩
    rw [Binding.placedAt, if_neg (ordinary_of_actualFor orderly sent)]
    exact Option.mem_toList.mpr sent
  | item position =>
    have member := List.mem_of_getElem? sent
    obtain ⟨marker, at_marker, inside⟩ := exists_marker orderly (List.ne_nil_of_mem member)
    refine ⟨marker, List.mem_range.mpr inside, ?_⟩
    rwa [Binding.placedAt, if_pos at_marker]

theorem slots_ofCall_eq (actuals : Parts) (parent : FrameId) :
    (Frame.ofCall layout binding actuals fresh parent).slots =
      slotsBefore layout binding actuals fresh layout.formals.length := by
  rw [slotsBefore, Frame.ofCall, List.length_map, List.length_range]

include orderly unused complete in
/-- The frame of a call is made by taking the actuals one by one, none twice and none that the
call does not have, until none is left. -/
theorem byTaking_eq (names : List (Option Symbol)) (fresh : StorageId) (parent : FrameId) :
    Frame.byTaking layout binding names values fresh parent =
      some (.ofCall layout binding ((labels names values.length).zip values) fresh parent,
        List.replicate values.length none) := by
  -- At first nothing is gone, and at the end everything is, as each actual goes somewhere.
  have start : heldBut values (binding.placedBefore layout.formals 0) = values.map some :=
    List.ext_getElem? fun index => by simp [getElem?_heldBut, Binding.placedBefore]
  have start_slots : slotsBefore layout binding ((labels names values.length).zip values) fresh 0 =
      (Frame.unbound layout (some parent)).slots := rfl
  have finish : heldBut values (binding.placedBefore layout.formals layout.formals.length) =
      List.replicate values.length none := by
    refine List.ext_getElem? fun index => ?_
    rw [getElem?_heldBut]
    rcases Nat.lt_or_ge index values.length with inside | outside
    · simp [inside, mem_placedBefore orderly unused complete inside]
    · simp [outside]
  have placed := place_heldBut orderly unused complete names fresh layout.formals.length
    (Nat.zero_add _)
  rw [start, start_slots, finish, ← List.range_eq_range', ← slots_ofCall_eq _ parent] at placed
  rw [Frame.byTaking]
  simp only [placed, Option.bind_eq_bind, Option.bind_some, Option.pure_def]
  rfl

end Placing

/-! ### The frame of a call -/

/-- What the frame of a call holds: a slot for each local. A parameter's slot holds the actual
that the parameter has, if it has one. The slot of the varargs marker holds the list of the
absorbed actuals in call order, which has names if one of them was named. All other slots are
unbound. -/
structure Frame.Holds (frame : Frame) (layout : Layout) (binding : Binding)
    (names : List (Option Symbol)) (values : List Value) (fresh : StorageId) : Prop where
  size : frame.slots.length = layout.locals.length
  ordinary : ∀ index < layout.formals.length, layout.formals.dotsIndex ≠ some index →
    match binding.actualFor index with
    | none => frame.slots[index]? = some none
    | some actual => ∃ v, values[actual]? = some v ∧ frame.slots[index]? = some (some v)
  varargs : ∀ marker, layout.formals.dotsIndex = some marker → ∃ items,
    frame.slots[marker]? = some (some (.vector (.list fresh items)
      (if ∃ actual ∈ binding.dots, (label names actual).isSome then
        some (.mk none (some (binding.dots.map fun actual =>
          some ((label names actual).getD ""))) [])
      else none))) ∧
    List.Forall₂ (fun actual v => values[actual]? = some v) binding.dots items
  increasing : binding.dots.Pairwise (· < ·)
  others : ∀ index, layout.formals.length ≤ index → index < layout.locals.length →
    frame.slots[index]? = some none

section Frame

variable {layout : Layout} {binding : Binding} {names : List (Option Symbol)} {values : List Value}
  {fresh : StorageId}

/-- A list of values has names if one of them has one, the empty text standing for none. -/
theorem ofParts_zip {labels : List (Option Symbol)} {items : List Value}
    (same : labels.length = items.length) :
    Value.ofParts fresh (labels.zip items) = .vector (.list fresh items)
      (if ∃ label ∈ labels, label.isSome then
        some (.mk none (some (labels.map fun label => some (label.getD ""))) []) else none) := by
  have firsts : (labels.zip items).map Prod.fst = labels := List.map_fst_zip (Nat.le_of_eq same)
  have seconds : (labels.zip items).map Prod.snd = items :=
    List.map_snd_zip (Nat.le_of_eq same.symm)
  have any_named : ((labels.zip items).any fun part => part.1.isSome) =
      labels.any fun label => label.isSome := by
    conv_rhs => rw [← firsts, List.any_map]
    rfl
  have texts : ((labels.zip items).map fun part => some (part.1.getD "")) =
      labels.map fun label => some (label.getD "") := by
    conv_rhs => rw [← firsts, List.map_map]
    rfl
  rw [Value.ofParts, any_named, Value.ofNamedItems, Value.ofItems, seconds, texts]
  simp only [List.any_eq_true]
  split <;> rfl

theorem forall₂_filterMap {actuals : List Nat}
    (given : ∀ actual ∈ actuals, actual < values.length) :
    List.Forall₂ (fun actual v => values[actual]? = some v) actuals
      (actuals.filterMap (values[·]?)) := by
  induction actuals with
  | nil => exact .nil
  | cons actual rest ih =>
    have found := List.getElem?_eq_getElem (given actual List.mem_cons_self)
    rw [List.filterMap_cons, found]
    exact .cons found (ih fun other member => given other (List.mem_cons_of_mem _ member))

theorem getElem?_slots_ofCall {actuals : Parts} {parent : FrameId} {index : Nat}
    (declared : index < layout.formals.length) :
    (Frame.ofCall layout binding actuals fresh parent).slots[index]? =
      some (Frame.initialSlot layout binding actuals fresh index) := by
  rw [slots_ofCall_eq, slotsBefore, List.getElem?_append_left (by simpa using declared)]
  simp [declared]

theorem holds_ofCall (names : List (Option Symbol)) (fresh : StorageId)
    (orderly : Orderly binding layout.formals values.length) (parent : FrameId) :
    (Frame.ofCall layout binding ((labels names values.length).zip values) fresh parent).Holds
      layout binding names values fresh where
  size := Discipline.length_slots_ofCall
  ordinary index declared unmarked := by
    rw [getElem?_slots_ofCall declared, Frame.initialSlot, if_neg unmarked]
    split
    · next unbound => rw [unbound, Option.bind_none]
    · next actual bound =>
      have given := Binding.lt_of_sends orderly.distributes (.slot index) bound
      have found := List.getElem?_eq_getElem given
      refine ⟨_, found, ?_⟩
      rw [bound, Option.bind_some, getElem?_given, found]
      rfl
  varargs marker at_marker := by
    have declared : marker < layout.formals.length :=
      Formals.lt_of_getElem?_names (Formals.getElem?_names_dotsIndex at_marker)
    have given : ∀ actual ∈ binding.dots, actual < values.length := fun actual member => by
      obtain ⟨position, item⟩ := List.mem_iff_getElem?.mp member
      exact Binding.lt_of_sends orderly.distributes (.item position) item
    have items := forall₂_filterMap given
    refine ⟨_, ?_, items⟩
    rw [getElem?_slots_ofCall declared, Frame.initialSlot, if_pos at_marker, filterMap_given given,
      ofParts_zip (List.length_map _ |>.trans items.length_eq), List.map_map]
    simp only [List.mem_map, exists_exists_and_eq_and]
    rfl
  increasing := orderly.dots
  -- Slots of local variables come after those of the parameters and are unbound.
  others index beyond inside := by
    rw [slots_ofCall_eq, slotsBefore, List.getElem?_append_right (by simpa using beyond),
      List.getElem?_replicate, if_pos]
    rw [List.length_map, List.length_range, Layout.frameSize]
    omega

/-- For all layouts, names and values: when a call with them is matched, taking the actuals one by
one never goes out of range and leaves none of them; the frame that results has the layout and
the parent of the call and holds what each slot is bound to; and each actual is sent to exactly
one place. -/
theorem ofCall_places (layout : Layout) (names : List (Option Symbol)) (values : List Value)
    {binding : Binding}
    (matched : matchCall layout.formals (labels names values.length) = .ok binding)
    (fresh : StorageId) (parent : FrameId) :
    let frame := Frame.ofCall layout binding ((labels names values.length).zip values) fresh parent
    Frame.byTaking layout binding names values fresh parent =
      some (frame, List.replicate values.length none) ∧
    frame.layout = layout ∧ frame.parent = some parent ∧
    frame.Holds layout binding names values fresh ∧
    ∀ actual < values.length, ∃! place, binding.Sends actual place := by
  intro frame
  obtain ⟨bound, -, unused⟩ := matchCall_eq_ok_iff.mp matched
  have orderly := orderly_of_bind bound
  rw [length_labels] at orderly
  exact ⟨byTaking_eq orderly unused (length_actuals_of_bind bound) names fresh parent, rfl, rfl,
    holds_ofCall names fresh orderly parent,
    fun _ given => Binding.existsUnique_sends orderly.distributes unused given⟩

end Frame

/-- A function of an ordinary parameter and the varargs marker, with another local name. -/
def gatheringLayout : Layout where
  name := "gathering"
  site := default
  edition := 0
  params := [("x", none), ("...", none)]
  formals :=
    { function := "gathering"
      params := [⟨"x", true⟩, ⟨"...", false⟩]
      nodup := by decide
      dots_optional := by decide }
  body := default
  locals := ["x", "...", "total"]
  reads := []
  supers := []
  formals_names := rfl
  params_leading := by decide

/-- One actual is named for the ordinary parameter. The others are absorbed in call order, and as
one of them is named, the list has names. -/
theorem ofCall_places_gathering :
    let values := [Value.ofText "a", Value.ofText "b", Value.ofText "c"]
    let names := [none, some "x", some "k"]
    let binding : Binding := ⟨[some 1, none], [0, 2], []⟩
    let frame := Frame.ofCall gatheringLayout binding ((labels names 3).zip values) 7 3
    Frame.byTaking gatheringLayout binding names values 7 3 = some (frame, [none, none, none]) ∧
    (∃ v, values[1]? = some v ∧ frame.slots[0]? = some (some v)) ∧
    (∃ items metadata, frame.slots[1]? = some (some (.vector (.list 7 items) metadata)) ∧
      metadata = some (.mk none (some [some "", some "k"]) []) ∧
      List.Forall₂ (fun actual v => values[actual]? = some v) [0, 2] items) ∧
    frame.slots[2]? = some none ∧ ∃! place, binding.Sends 2 place := by
  intro values names binding frame
  have matched : matchCall gatheringLayout.formals (labels names values.length) = .ok binding := rfl
  obtain ⟨taken, -, -, holds, places⟩ := ofCall_places gatheringLayout names values matched 7 3
  obtain ⟨items, here, listed⟩ := holds.varargs 1 rfl
  exact ⟨taken, holds.ordinary 0 (by decide) (by decide),
    ⟨items, _, here, if_pos (by decide), listed⟩, holds.others 2 (by decide) (by decide),
    places 2 (by decide)⟩

end Vectorial
