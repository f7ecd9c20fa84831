import Mathlib.Data.List.Nodup
import Mathlib.Data.List.Perm.Basic
import Mathlib.Data.List.ReduceOption
import Mathlib.Data.List.TakeWhile
import Mathlib.Data.List.Zip
import Vectorial.Call.Matching

/-!
# What matching distributes

The naming passes give every ordinary parameter at most one actual, and no actual to two
parameters. The last pass puts the actuals that are left on the open parameters, one after
the other, and the rest of them in one place: with a varargs marker this is the marker,
without one they are unused. So a binding distributes all actuals of the call, each to
exactly one place.

## Main definitions

* `Formals.leading`: how many parameters stand before the varargs marker;
* `Matching.IsMatching`: what the naming passes keep;
* `Matching.place`: actuals put on parameters;
* `Binding.Distributes`: each actual is in exactly one place.

## Main results

* `Matching.positional_eq`: what the last pass does, in one step;
* `Matching.distributes_of_bind`: a binding distributes the actuals of its call;
* `Matching.bound_of_unused`: actuals are unused only when all parameters are taken.
-/

open scoped List

namespace Vectorial

theorem Formals.getElem?_names_dotsIndex {formals : Formals} {formal : Nat}
    (marker : formals.dotsIndex = some formal) : formals.names[formal]? = some Symbol.dots := by
  obtain ⟨lt, here, -⟩ := List.idxOf?_eq_some_iff.mp marker
  simpa [List.getElem?_eq_getElem lt] using here

theorem Formals.length_names (formals : Formals) : formals.names.length = formals.length := by
  simp [Formals.names, Formals.length]

theorem Formals.lt_of_getElem?_names {formals : Formals} {formal : Nat} {name : Symbol}
    (here : formals.names[formal]? = some name) : formal < formals.length := by
  rw [← formals.length_names]
  exact (List.getElem?_eq_some_iff.mp here).1

/-- How many parameters stand before the varargs marker; without one, all of them. -/
def Formals.leading (formals : Formals) : Nat :=
  formals.dotsIndex.getD formals.length

theorem Formals.leading_le (formals : Formals) : formals.leading ≤ formals.length := by
  rw [leading]
  cases marker : formals.dotsIndex with
  | none => exact Nat.le_refl _
  | some formal => exact Nat.le_of_lt (lt_of_getElem?_names (getElem?_names_dotsIndex marker))

namespace Matching

variable {formals : Formals} {labels : List (Option Symbol)} {taken after : Taken}
  {formal actual : Nat} {cause : Cause}

theorem andThen_eq_ok {α β : Type} {first : Except Cause α} {next : α → Except Cause β} {b : β} :
    (first >>= next) = .ok b ↔ ∃ a, first = .ok a ∧ next a = .ok b := by
  cases first with
  | error cause =>
    constructor
    · rintro ⟨⟩
    · rintro ⟨a, ⟨⟩, -⟩
  | ok a => exact ⟨fun done => ⟨a, rfl, done⟩, by rintro ⟨_, ⟨⟩, done⟩; exact done⟩

theorem andThen_eq_error {α β : Type} {first : Except Cause α} {next : α → Except Cause β} :
    (first >>= next) = .error cause ↔
      first = .error cause ∨ ∃ a, first = .ok a ∧ next a = .error cause := by
  cases first with
  | error cause =>
    constructor
    · rintro ⟨⟩
      exact .inl rfl
    · rintro (⟨⟨⟩⟩ | ⟨a, ⟨⟩, -⟩)
      rfl
  | ok a =>
    constructor
    · intro failed
      exact .inr ⟨a, rfl, failed⟩
    · rintro (⟨⟨⟩⟩ | ⟨_, ⟨⟩, failed⟩)
      exact failed

/-! ### The naming passes -/

/-- What the naming passes keep: an entry for every parameter, none for the varargs marker,
and no actual taken twice or from outside the call. -/
structure IsMatching (formals : Formals) (count : Nat) (taken : Taken) : Prop where
  length_eq : taken.length = formals.length
  nodup : taken.reduceOption.Nodup
  lt : ∀ actual ∈ taken.reduceOption, actual < count
  marker : ∀ formal, formals.dotsIndex = some formal → taken[formal]? = some none

theorem getElem?_of_isOpen (length_eq : taken.length = formals.length)
    (lt : formal < formals.length) (h : isOpen formals taken formal) :
    formals.dotsIndex ≠ some formal ∧ taken[formal]? = some none := by
  simp only [isOpen, Bool.and_eq_true, bne_iff_ne, Option.isNone_iff_eq_none] at h
  refine ⟨h.1, ?_⟩
  have h₂ := h.2
  rw [List.getElem?_eq_getElem (length_eq ▸ lt)] at h₂ ⊢
  simpa using h₂

/-- An actual taken by an open parameter is one more actual that is taken. -/
theorem reduceOption_set (free : taken[formal]? = some none) :
    (taken.set formal (some actual)).reduceOption.Perm (actual :: taken.reduceOption) := by
  induction taken generalizing formal with
  | nil => simp at free
  | cons first rest ih =>
    cases formal with
    | zero =>
      obtain rfl : first = none := by simpa using free
      rw [List.set_cons_zero, List.reduceOption_cons_of_some, List.reduceOption_cons_of_none]
    | succ formal =>
      have perm := @ih formal (by simpa using free)
      cases first with
      | none => simpa only [List.set_cons_succ, List.reduceOption_cons_of_none] using perm
      | some first =>
        rw [List.set_cons_succ, List.reduceOption_cons_of_some, List.reduceOption_cons_of_some]
        exact (perm.cons first).trans (.swap actual first _)

theorem mem_remaining :
    actual ∈ remaining labels taken ↔ actual < labels.length ∧ some actual ∉ taken := by
  simp [remaining]

theorem IsMatching.set (matching : IsMatching formals labels.length taken)
    (free : taken[formal]? = some none) (ordinary : formals.dotsIndex ≠ some formal)
    (left : actual ∈ remaining labels taken) :
    IsMatching formals labels.length (taken.set formal (some actual)) := by
  have perm : (taken.set formal (some actual)).reduceOption.Perm (actual :: taken.reduceOption) :=
    reduceOption_set free
  rw [mem_remaining] at left
  constructor
  · rw [List.length_set, matching.length_eq]
  · rw [perm.nodup_iff, List.nodup_cons, List.reduceOption_mem_iff]
    exact ⟨left.2, matching.nodup⟩
  · intro other member
    rcases List.mem_cons.mp (perm.mem_iff.mp member) with rfl | member
    · exact left.1
    · exact matching.lt other member
  · intro marker at_marker
    have other : formal ≠ marker := fun same => ordinary (same ▸ at_marker)
    rw [List.getElem?_set_ne other]
    exact matching.marker marker at_marker

theorem isMatching_exact (formals : Formals) (labels : List (Option Symbol)) :
    IsMatching formals labels.length (exact formals labels) := by
  let find (name : Symbol) : Option Nat :=
    if name.isDots then none else labels.idxOf? (some name)
  have found {name : Symbol} {actual : Nat} (h : find name = some actual) :
      labels[actual]? = some (some name) := by
    simp only [find, Option.ite_none_left_eq_some] at h
    obtain ⟨lt, here, -⟩ := List.idxOf?_eq_some_iff.mp h.2
    simpa [List.getElem?_eq_getElem lt] using here
  -- Every parameter is looked for on its own. Two of them find different actuals because the name
  -- of an actual is the name of the parameter that finds it.
  have exact_eq : exact formals labels = formals.names.map find := by
    simp [exact, find, Formals.names, Function.comp_def]
  have reduced : (exact formals labels).reduceOption = formals.names.filterMap find := by
    rw [exact_eq, List.reduceOption, List.filterMap_map]
    rfl
  constructor
  · simp [exact, Formals.length]
  · rw [reduced]
    refine formals.nodup.filterMap ?_
    intro name other actual h h'
    have same := (found h).symm.trans (found h')
    simpa using same
  · intro actual member
    rw [reduced, List.mem_filterMap] at member
    obtain ⟨name, -, h⟩ := member
    exact (List.getElem?_eq_some_iff.mp (found h)).1
  · intro formal marker
    rw [exact_eq, List.getElem?_map]
    simp [Formals.getElem?_names_dotsIndex marker, find, Symbol.isDots]

/-- What the second pass does at one parameter: nothing, or the parameter is open and takes
the only actual left that abbreviates its name. -/
theorem abbreviate_cases (h : abbreviate formals labels taken formal = .ok after) :
    after = taken ∨
      isOpen formals taken formal ∧ ∃ actual ∈ remaining labels taken,
        after = taken.set formal (some actual) := by
  unfold abbreviate at h
  split at h
  · exact .inl (by simpa using h.symm)
  · next opened =>
    replace opened : isOpen formals taken formal := by simpa using opened
    dsimp only at h
    split at h
    · exact .inl (by simpa using h.symm)
    · next actual only =>
      split at h
      · cases h
      · have member : actual ∈ candidates labels taken (formals.names.getD formal "") := by
          rw [only]
          exact .head _
        exact .inr ⟨opened, actual, List.mem_of_mem_filter member, by simpa using h.symm⟩
    · cases h

theorem error_of_abbreviate (h : abbreviate formals labels taken formal = .error cause) :
    ∃ name shorts, cause = .ambiguousMatch name shorts := by
  unfold abbreviate at h
  split at h
  · cases h
  · dsimp only at h
    split at h
    · cases h
    · split at h
      · cases h
        exact ⟨_, _, rfl⟩
      · cases h
    · cases h
      exact ⟨_, _, rfl⟩

theorem IsMatching.abbreviate (matching : IsMatching formals labels.length taken)
    (lt : formal < formals.length) (h : abbreviate formals labels taken formal = .ok after) :
    IsMatching formals labels.length after := by
  rcases abbreviate_cases h with rfl | ⟨opened, actual, left, rfl⟩
  · exact matching
  · obtain ⟨ordinary, free⟩ := getElem?_of_isOpen matching.length_eq lt opened
    exact matching.set free ordinary left

theorem IsMatching.abbreviated (matching : IsMatching formals labels.length taken)
    (h : abbreviated formals labels taken = .ok after) :
    IsMatching formals labels.length after := by
  have passes (positions : List Nat) (within : ∀ formal ∈ positions, formal < formals.length)
      {taken : Taken} (matching : IsMatching formals labels.length taken)
      (h : positions.foldlM (Matching.abbreviate formals labels) taken = .ok after) :
      IsMatching formals labels.length after := by
    induction positions generalizing taken with
    | nil =>
      cases h
      exact matching
    | cons formal rest ih =>
      obtain ⟨between, first, others⟩ := andThen_eq_ok.mp h
      exact ih (fun other member => within other (.tail _ member))
        (matching.abbreviate (within formal (.head _)) first) others
  exact passes (List.range formals.length) (fun formal => List.mem_range.mp) matching h

theorem error_of_abbreviated (h : abbreviated formals labels taken = .error cause) :
    ∃ name shorts, cause = .ambiguousMatch name shorts := by
  unfold abbreviated at h
  generalize List.range formals.length = positions at h
  induction positions generalizing taken with
  | nil => cases h
  | cons formal rest ih =>
    rcases andThen_eq_error.mp h with first | ⟨between, -, others⟩
    · exact error_of_abbreviate first
    · exact ih others

/-- The actuals that are taken and those that remain are all actuals of the call. -/
theorem IsMatching.perm_remaining (matching : IsMatching formals labels.length taken) :
    (taken.reduceOption ++ remaining labels taken).Perm (List.range labels.length) := by
  have left : (remaining labels taken).Nodup := List.nodup_range.filter _
  refine (List.perm_ext_iff_of_nodup ?_ List.nodup_range).mpr ?_
  · refine matching.nodup.append left ?_
    intro actual member remains
    exact (mem_remaining.mp remains).2 (List.reduceOption_mem_iff.mp member)
  · intro actual
    rw [List.mem_append, List.mem_range, mem_remaining, List.reduceOption_mem_iff]
    constructor
    · rintro (member | ⟨lt, -⟩)
      · exact matching.lt actual (List.reduceOption_mem_iff.mpr member)
      · exact lt
    · intro lt
      exact (Classical.em (some actual ∈ taken)).imp_right fun absent => ⟨lt, absent⟩

/-! ### The positional pass -/

/-- The parameters of the pairs take the actuals beside them. -/
def place (taken : Taken) (pairs : List (Nat × Nat)) : Taken :=
  pairs.foldl (fun taken pair => taken.set pair.1 (some pair.2)) taken

/-- The last pass in one step: the open parameters take the actuals at their places, which
must not be named, and all actuals after those go to the marker or nowhere. -/
theorem positional_eq (formals : Formals) (labels : List (Option Symbol))
    (actuals opened : List Nat) (binding : Binding) :
    positional formals labels actuals opened binding =
      match (actuals.take opened.length).findSome? (label labels) with
      | some name => .error (.unmatchedName formals.function name)
      | none =>
        let rest := actuals.drop opened.length
        let isVariadic := formals.dotsIndex.isSome
        .ok
          { actuals := place binding.actuals (opened.zip actuals)
            dots := binding.dots ++ if isVariadic then rest else []
            unused := binding.unused ++ if isVariadic then [] else rest } := by
  fun_induction positional formals labels actuals opened binding with
  | case1 opened binding => simp [place]
  -- No parameter is open any more: an actual goes to the marker or nowhere.
  | case2 binding actual rest ih =>
    rw [ih]
    cases formals.dotsIndex.isSome <;> simp [place]
  | case3 binding actual rest formal others name named => simp [named]
  | case4 binding actual rest formal others unnamed ih =>
    rw [ih]
    simp [unnamed, place]

variable {pairs : List (Nat × Nat)}

@[simp]
theorem length_place : (place taken pairs).length = taken.length := by
  induction pairs generalizing taken with
  | nil => rfl
  | cons pair rest ih => exact ih.trans List.length_set

theorem getElem?_place_of_notMem (absent : formal ∉ pairs.map Prod.fst) :
    (place taken pairs)[formal]? = taken[formal]? := by
  induction pairs generalizing taken with
  | nil => rfl
  | cons pair rest ih =>
    rw [List.map_cons, List.mem_cons, not_or] at absent
    exact (ih absent.2).trans (List.getElem?_set_ne (Ne.symm absent.1))

theorem getElem?_place_of_mem (distinct : (pairs.map Prod.fst).Nodup)
    (member : (formal, actual) ∈ pairs) (lt : formal < taken.length) :
    (place taken pairs)[formal]? = some (some actual) := by
  induction pairs generalizing taken with
  | nil => cases member
  | cons pair rest ih =>
    rw [List.map_cons, List.nodup_cons] at distinct
    rcases List.mem_cons.mp member with rfl | member
    · refine (getElem?_place_of_notMem distinct.1).trans ?_
      exact List.getElem?_set_self lt
    · exact ih distinct.2 member (by simpa using lt)

theorem reduceOption_place (distinct : (pairs.map Prod.fst).Nodup)
    (free : ∀ formal ∈ pairs.map Prod.fst, taken[formal]? = some none) :
    (place taken pairs).reduceOption.Perm (pairs.map Prod.snd ++ taken.reduceOption) := by
  induction pairs generalizing taken with
  | nil => rfl
  | cons pair rest ih =>
    rw [List.map_cons, List.nodup_cons] at distinct
    have others : ∀ formal ∈ rest.map Prod.fst,
        (taken.set pair.1 (some pair.2))[formal]? = some none := by
      intro formal member
      have apart : pair.1 ≠ formal := fun same => distinct.1 (same ▸ member)
      rw [List.getElem?_set_ne apart]
      exact free formal (.tail _ member)
    refine (ih distinct.2 others).trans ?_
    refine (List.Perm.append_left _ (reduceOption_set (free pair.1 (.head _)))).trans ?_
    exact List.perm_middle

/-- The parameters before the marker come up, as long as they are open. -/
theorem openPositions_eq : openPositions formals taken =
    (List.range formals.leading).filter (isOpen formals taken) := by
  rw [openPositions, Formals.leading]
  refine congrArg (List.filter _) ?_
  cases at_marker : formals.dotsIndex with
  | none => exact List.takeWhile_eq_self_iff.mpr fun _ _ => rfl
  | some marker =>
    have inside : marker < formals.length :=
      Formals.lt_of_getElem?_names (Formals.getElem?_names_dotsIndex at_marker)
    obtain ⟨more, split⟩ := Nat.exists_eq_add_of_lt inside
    -- What is taken ends at the marker, and no position before it is that of the marker.
    rw [split, Nat.add_assoc, List.range_add, List.takeWhile_append_of_pos,
      List.range_succ_eq_map]
    · simp
    · intro formal member
      simpa using (Nat.ne_of_gt (List.mem_range.mp member))

theorem mem_openPositions (h : formal ∈ openPositions formals taken) :
    formal < formals.length ∧ isOpen formals taken formal := by
  rw [openPositions_eq, List.mem_filter, List.mem_range] at h
  exact ⟨Nat.lt_of_lt_of_le h.1 formals.leading_le, h.2⟩

theorem nodup_openPositions : (openPositions formals taken).Nodup := by
  rw [openPositions_eq]
  exact List.nodup_range.filter _

theorem map_fst_zip (opened left : List Nat) :
    (opened.zip left).map Prod.fst = opened.take left.length := by
  induction opened generalizing left with
  | nil => simp
  | cons formal rest ih =>
    cases left with
    | nil => rfl
    | cons actual others => simp [ih]

theorem map_snd_zip (opened left : List Nat) :
    (opened.zip left).map Prod.snd = left.take opened.length := by
  rw [← List.zip_swap, List.map_map]
  exact map_fst_zip left opened

/-- Without a marker every open parameter comes up. -/
theorem mem_openPositions_iff (unmarked : formals.dotsIndex = none) :
    formal ∈ openPositions formals taken ↔
      formal < formals.length ∧ isOpen formals taken formal := by
  rw [openPositions_eq, Formals.leading, unmarked, Option.getD_none, List.mem_filter,
    List.mem_range]

theorem place_openPositions (length_eq : taken.length = formals.length) {left : List Nat}
    (formal : Nat) (member : formal ∈ ((openPositions formals taken).zip left).map Prod.fst) :
    taken[formal]? = some none := by
  rw [map_fst_zip] at member
  obtain ⟨lt, opened⟩ := mem_openPositions (List.mem_of_mem_take member)
  exact (getElem?_of_isOpen length_eq lt opened).2

/-! ### The binding -/

variable {binding : Binding}

/-- A binding is a matching made by the naming passes, with the actuals left placed on open
parameters and the rest of them at the marker or unused. -/
theorem exists_of_bind (h : Matching.bind formals labels = .ok binding) :
    ∃ taken, IsMatching formals labels.length taken ∧
      let left := remaining labels taken
      let opened := openPositions formals taken
      let rest := left.drop opened.length
      binding =
        { actuals := place taken (opened.zip left)
          dots := if formals.dotsIndex.isSome then rest else []
          unused := if formals.dotsIndex.isSome then [] else rest } := by
  obtain ⟨taken, named, h⟩ := andThen_eq_ok.mp h
  refine ⟨taken, (isMatching_exact formals labels).abbreviated named, ?_⟩
  rw [positional_eq] at h
  split at h
  · cases h
  · simpa using h.symm

theorem length_actuals_of_bind (h : Matching.bind formals labels = .ok binding) :
    binding.actuals.length = formals.length := by
  obtain ⟨taken, matching, rfl⟩ := exists_of_bind h
  exact length_place.trans matching.length_eq

end Matching

/-- Each actual of a call with `count` actuals is in exactly one place of the binding. -/
def Binding.Distributes (binding : Binding) (count : Nat) : Prop :=
  (binding.actuals.reduceOption ++ binding.dots ++ binding.unused).Perm (List.range count)

namespace Matching

variable {formals : Formals} {labels : List (Option Symbol)} {binding : Binding} {cause : Cause}

theorem distributes_of_bind (h : Matching.bind formals labels = .ok binding) :
    binding.Distributes labels.length := by
  obtain ⟨taken, matching, rfl⟩ := exists_of_bind h
  let left := remaining labels taken
  let opened := openPositions formals taken
  -- The open parameters get the first of the actuals left, and the marker or nobody the others.
  have placed : (place taken (opened.zip left)).reduceOption.Perm
      (left.take opened.length ++ taken.reduceOption) := by
    rw [← map_snd_zip]
    refine reduceOption_place ?_ (place_openPositions matching.length_eq)
    rw [map_fst_zip]
    exact nodup_openPositions.sublist (List.take_sublist _ _)
  have others : ((if formals.dotsIndex.isSome then left.drop opened.length else []) ++
      if formals.dotsIndex.isSome then [] else left.drop opened.length) =
        left.drop opened.length := by
    cases formals.dotsIndex.isSome <;> simp
  rw [Binding.Distributes, List.append_assoc, others]
  calc
    (place taken (opened.zip left)).reduceOption ++ left.drop opened.length
    _ ~ left.take opened.length ++ taken.reduceOption ++ left.drop opened.length :=
      placed.append_right _
    _ ~ taken.reduceOption ++ left.take opened.length ++ left.drop opened.length :=
      List.perm_append_comm.append_right _
    _ = taken.reduceOption ++ left := by
      rw [List.append_assoc, List.take_append_drop]
    _ ~ List.range labels.length := matching.perm_remaining

/-- With a marker nothing is unused, and without one nothing is absorbed. -/
theorem eq_nil_of_bind (h : Matching.bind formals labels = .ok binding) :
    if formals.dotsIndex.isSome then binding.unused = [] else binding.dots = [] := by
  obtain ⟨taken, -, rfl⟩ := exists_of_bind h
  cases formals.dotsIndex.isSome <;> rfl

/-- An actual is unused only when there is no marker and every parameter has an actual. -/
theorem bound_of_unused (h : Matching.bind formals labels = .ok binding)
    (left_over : binding.unused ≠ []) :
    formals.dotsIndex = none ∧ ∀ entry ∈ binding.actuals, entry.isSome := by
  obtain ⟨taken, matching, rfl⟩ := exists_of_bind h
  let left := remaining labels taken
  let opened := openPositions formals taken
  have unmarked : formals.dotsIndex = none := by
    cases marker : formals.dotsIndex with
    | none => rfl
    | some formal => simp [marker] at left_over
  have more : opened.length < left.length := by
    simpa [unmarked] using left_over
  have fst_eq : (opened.zip left).map Prod.fst = opened := by
    rw [map_fst_zip, List.take_of_length_le (Nat.le_of_lt more)]
  refine ⟨unmarked, ?_⟩
  intro entry member
  obtain ⟨formal, here⟩ := List.mem_iff_getElem?.mp member
  have lt : formal < taken.length := by
    simpa using (List.getElem?_eq_some_iff.mp here).1
  -- An open parameter gets an actual because more are left than are open; any other has one.
  by_cases comes_up : formal ∈ opened
  · obtain ⟨⟨_, actual⟩, pair, rfl⟩ := List.mem_map.mp (fst_eq ▸ comes_up)
    have distinct : ((opened.zip left).map Prod.fst).Nodup := by
      rw [fst_eq]
      exact nodup_openPositions
    obtain rfl : some actual = entry := by
      simpa using (getElem?_place_of_mem distinct pair lt).symm.trans here
    rfl
  · have closed : isOpen formals taken formal = false := by
      rw [mem_openPositions_iff unmarked, ← matching.length_eq] at comes_up
      simpa [lt] using comes_up
    rw [getElem?_place_of_notMem (fst_eq.symm ▸ comes_up)] at here
    simpa [isOpen, unmarked, here, Option.isSome_iff_ne_none] using closed

end Matching

end Vectorial
