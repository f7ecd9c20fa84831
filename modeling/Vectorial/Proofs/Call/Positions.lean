import Mathlib.Data.List.Sort
import Vectorial.Proofs.Call.Naming

/-!
# What is left goes by position

The last pass deals out the actuals that no parameter has by name. They come up in call order,
for the parameters that are still open and stand before the varargs marker, in the order of
their declaration. A named actual that comes up for an open parameter is refused. When no
parameter is open the rest is absorbed by the marker, or is unused without one.

## Main definitions

* `Matching.LeftOver`, `Matching.StillOpen`: what the names leave to the last pass;
* `Matching.FirstRefused`: the named actual that is refused;
* `Matching.Orderly`, `Matching.Fills`: where a binding puts its actuals.

## Main results

* `Matching.Enumerates.unique`: a property of positions lists them in one way;
* `Matching.enumerates_remaining`, `Matching.enumerates_openPositions`: what the last pass
  starts from is read off the names;
* `Matching.bind_eq_error_iff`, `Matching.bind_eq_ok_iff`: the outcome of the last pass;
* `Matching.bind_fills_positions`: where every actual goes, and when one is refused.
-/

namespace Vectorial.Matching

variable {formals : Formals} {labels : List (Option Symbol)} {taken : Taken}
  {formal actual : Nat} {binding : Binding}

/-- No parameter has the actual by name. -/
def LeftOver (formals : Formals) (labels : List (Option Symbol)) (actual : Nat) : Prop :=
  actual < labels.length ∧ ∀ formal, ¬ ByName formals labels formal actual

/-- The parameter stands before the varargs marker, if there is one, and has no actual by
name. -/
def StillOpen (formals : Formals) (labels : List (Option Symbol)) (formal : Nat) : Prop :=
  (formal < formals.length ∧ ∀ marker, formals.dotsIndex = some marker → formal < marker) ∧
    ∀ actual, ¬ ByName formals labels formal actual

/-! ### Positions in order -/

namespace Enumerates

variable {property : Nat → Prop} {positions others : List Nat}

/-- A property of positions below a bound has a list of them. -/
theorem exists_of_bounded {bound : Nat}
    (bounded : ∀ position, property position → position < bound) :
    ∃ positions, Enumerates positions property := by
  classical
  refine ⟨(List.range bound).filter fun position => decide (property position),
    List.pairwise_lt_range.filter _, fun position => ?_⟩
  simpa using bounded position

theorem unique (one : Enumerates positions property) (two : Enumerates others property) :
    positions = others := by
  have perm : positions.Perm others := by
    refine (List.perm_ext_iff_of_nodup ?_ ?_).mpr fun position => ?_
    · exact one.increasing.imp Nat.ne_of_lt
    · exact two.increasing.imp Nat.ne_of_lt
    · rw [one.mem_iff, two.mem_iff]
  refine perm.eq_of_pairwise ?_ one.increasing two.increasing
  intro a b _ _ before after
  exact absurd before (Nat.lt_asymm after)

end Enumerates

/-! ### What the last pass starts from -/

/-- The parameters before the marker. -/
theorem lt_leading_iff : formal < formals.leading ↔
    formal < formals.length ∧ ∀ marker, formals.dotsIndex = some marker → formal < marker := by
  have inside := formals.leading_le
  rw [Formals.leading] at inside ⊢
  cases at_marker : formals.dotsIndex with
  | none => simp
  | some marker =>
    rw [at_marker, Option.getD_some] at inside
    constructor
    · intro lt
      exact ⟨lt.trans_le inside, fun other same => Option.some.inj same ▸ lt⟩
    · rintro ⟨-, lt⟩
      exact lt marker rfl

theorem enumerates_remaining (partway : Partway formals labels formals.length taken) :
    Enumerates (remaining labels taken) (LeftOver formals labels) where
  increasing := List.pairwise_lt_range.filter _
  mem_iff actual := by
    rw [mem_remaining, List.mem_iff_getElem?, LeftOver]
    simp only [partway.byName_iff, not_exists]

theorem enumerates_openPositions (partway : Partway formals labels formals.length taken) :
    Enumerates (openPositions formals taken) (StillOpen formals labels) where
  increasing := by
    rw [openPositions_eq]
    exact List.pairwise_lt_range.filter _
  mem_iff formal := by
    rw [openPositions_eq, List.mem_filter, List.mem_range, lt_leading_iff, StillOpen,
      and_congr_right_iff]
    rintro ⟨lt, before⟩
    rw [← formals.length_names] at lt
    have here := List.getElem?_eq_getElem lt
    have ordinary : formals.dotsIndex ≠ some formal := fun marker =>
      Nat.lt_irrefl formal (before formal marker)
    rw [isOpen_iff here partway.matching.length_eq, names_ne_dots_iff here]
    simp [ordinary, partway.byName_iff]

/-! ### The last pass -/

/-- The first of the actuals that has a name. -/
theorem findSome?_label_eq_some_iff {actuals : List Nat} {name : Symbol} :
    actuals.findSome? (label labels) = some name ↔
      ∃ (k actual : Nat), actuals[k]? = some actual ∧ label labels actual = some name ∧
        ∀ j < k, ∀ earlier : Nat, actuals[j]? = some earlier → label labels earlier = none := by
  rw [List.findSome?_eq_some_iff]
  constructor
  · rintro ⟨front, actual, back, rfl, named, unnamed⟩
    refine ⟨front.length, actual, by simp, named, fun j before earlier at_j => ?_⟩
    rw [List.getElem?_append_left before] at at_j
    exact unnamed earlier (List.mem_of_getElem? at_j)
  · rintro ⟨k, actual, at_k, named, unnamed⟩
    obtain ⟨lt, same⟩ := List.getElem?_eq_some_iff.mp at_k
    refine ⟨actuals.take k, actual, actuals.drop (k + 1), ?_, named, fun earlier member => ?_⟩
    · rw [← same, List.getElem_cons_drop, List.take_append_drop]
    · obtain ⟨j, at_j⟩ := List.mem_iff_getElem?.mp member
      rw [List.getElem?_take, Option.ite_none_right_eq_some] at at_j
      exact unnamed j at_j.1 earlier at_j.2

/-- One of the actuals left comes up for an open parameter and has the name, and those that
come up before it have none. -/
def FirstRefused (labels : List (Option Symbol)) (left opened : List Nat) (name : Symbol) : Prop :=
  ∃ (k actual : Nat), k < opened.length ∧ left[k]? = some actual ∧
    labels[actual]? = some (some name) ∧
    ∀ j < k, ∀ earlier : Nat, left[j]? = some earlier → label labels earlier = none

theorem firstRefused_iff {left opened : List Nat} {name : Symbol} :
    FirstRefused labels left opened name ↔
      (left.take opened.length).findSome? (label labels) = some name := by
  rw [findSome?_label_eq_some_iff]
  constructor
  · rintro ⟨k, actual, lt, at_k, named, unnamed⟩
    refine ⟨k, actual, by rw [List.getElem?_take, if_pos lt, at_k], label_eq_some_iff.mpr named, ?_⟩
    intro j before earlier at_j
    rw [List.getElem?_take, if_pos (before.trans lt)] at at_j
    exact unnamed j before earlier at_j
  · rintro ⟨k, actual, at_k, named, unnamed⟩
    rw [List.getElem?_take, Option.ite_none_right_eq_some] at at_k
    refine ⟨k, actual, at_k.1, at_k.2, label_eq_some_iff.mp named, fun j before earlier at_j => ?_⟩
    refine unnamed j before earlier ?_
    rw [List.getElem?_take, if_pos (before.trans at_k.1), at_j]

/-- Given what the names leave, a call cannot be bound exactly when an open parameter comes up
for a named actual, and the first of those is reported. -/
theorem bind_eq_error_iff {cause : Cause}
    (named : abbreviated formals labels (exact formals labels) = .ok taken) :
    Matching.bind formals labels = .error cause ↔
      ∃ name, FirstRefused labels (remaining labels taken) (openPositions formals taken) name ∧
        cause = .unmatchedName formals.function name := by
  rw [bind_of_abbreviated named]
  simp only [firstRefused_iff]
  split
  · next name refused => simp [refused, eq_comm]
  · next unnamed => simp [unnamed]

theorem bind_eq_ok_iff (named : abbreviated formals labels (exact formals labels) = .ok taken) :
    let left := remaining labels taken
    let opened := openPositions formals taken
    Matching.bind formals labels = .ok binding ↔
      (left.take opened.length).findSome? (label labels) = none ∧
        binding =
          { actuals := place taken (opened.zip left)
            dots := if formals.dotsIndex.isSome then left.drop opened.length else []
            unused := if formals.dotsIndex.isSome then [] else left.drop opened.length } := by
  intro left opened
  rw [bind_of_abbreviated named]
  split
  · next name refused => simp [left, opened, refused]
  · next unnamed =>
    rw [Except.ok.injEq]
    exact ⟨fun same => ⟨unnamed, same.symm⟩, fun both => both.2.symm⟩

/-- A binding distributes its actuals in order, and the marker has no actual of its own. -/
structure Orderly (binding : Binding) (formals : Formals) (count : Nat) : Prop where
  distributes : binding.Distributes count
  marker : ∀ marker, formals.dotsIndex = some marker → binding.actuals[marker]? = some none
  dots : binding.dots.Pairwise (· < ·)
  unused : binding.unused.Pairwise (· < ·)
  nothing : if formals.dotsIndex.isSome then binding.unused = [] else binding.dots = []

/-- The open parameters have the actuals left at their places, which are not named; any other
actual on a parameter is there by name; the rest is absorbed or unused. -/
structure Fills (binding : Binding) (formals : Formals) (labels : List (Option Symbol))
    (left opened : List Nat) : Prop where
  filled : ∀ k formal : Nat, opened[k]? = some formal →
    binding.actuals[formal]? = some left[k]? ∧
      ∀ actual, left[k]? = some actual → labels[actual]? = some none
  byName : ∀ formal ∉ opened, ∀ actual : Nat, binding.actuals[formal]? = some (some actual) ↔
    ByName formals labels formal actual
  rest : binding.dots ++ binding.unused = left.drop opened.length

theorem orderly_of_bind (bound : Matching.bind formals labels = .ok binding) :
    Orderly binding formals labels.length := by
  have nothing := eq_nil_of_bind bound
  have distributes := distributes_of_bind bound
  obtain ⟨taken, matching, rfl⟩ := exists_of_bind bound
  have increasing : ((remaining labels taken).drop (openPositions formals taken).length).Pairwise
      (· < ·) := (List.pairwise_lt_range.filter _).sublist (List.drop_sublist _ _)
  refine ⟨distributes, fun marker at_marker => ?_, ?_, ?_, nothing⟩
  · -- The marker is never open, so that the last pass gives it nothing.
    have closed : marker ∉ openPositions formals taken := fun member =>
      (getElem?_of_isOpen matching.length_eq (mem_openPositions member).1
        (mem_openPositions member).2).1 at_marker
    rw [getElem?_place_of_notMem_openPositions _ closed]
    exact matching.marker marker at_marker
  · cases formals.dotsIndex.isSome with
    | false => exact .nil
    | true => exact increasing
  · cases formals.dotsIndex.isSome with
    | false => exact increasing
    | true => exact .nil

theorem fills_of_bind (named : abbreviated formals labels (exact formals labels) = .ok taken)
    (partway : Partway formals labels formals.length taken)
    (bound : Matching.bind formals labels = .ok binding) :
    Fills binding formals labels (remaining labels taken) (openPositions formals taken) := by
  have length_eq := partway.matching.length_eq
  obtain ⟨unnamed, rfl⟩ := (bind_eq_ok_iff named).mp bound
  refine ⟨fun k formal at_k => ⟨getElem?_place_openPositions length_eq _ at_k, ?unnamed⟩,
    ?others, ?rest⟩
  case unnamed =>
    intro actual at_left
    have lt := (mem_remaining.mp (List.mem_of_getElem? at_left)).1
    have no_label := label_eq_none_of_take unnamed (List.getElem?_eq_some_iff.mp at_k).1 at_left
    simpa [label, lt] using no_label
  case others =>
    intro formal closed actual
    rw [getElem?_place_of_notMem_openPositions _ closed, partway.byName_iff]
  case rest => cases formals.dotsIndex.isSome <;> simp

/-- For all parameters, names and number of actuals: a binding has each actual in exactly one
place, in increasing order where there are several, none on the marker itself, and none
unused with a marker or absorbed without. The actuals that no parameter has by name fill the
parameters before the marker that have none, one after the other; those that fill are not
named, and a parameter after the marker has no actual but by name. When the naming passes
succeed, the call cannot be bound exactly when a named actual comes up for an open parameter,
and the first of those is reported. -/
theorem bind_fills_positions (formals : Formals) (names : List (Option Symbol)) (count : Nat) :
    let labels := Matching.labels names count
    (∀ binding, Matching.bind formals labels = .ok binding → Orderly binding formals count) ∧
    ∃ left opened, Enumerates left (LeftOver formals labels) ∧
      Enumerates opened (StillOpen formals labels) ∧
      (∀ binding, Matching.bind formals labels = .ok binding →
        Fills binding formals labels left opened) ∧
      (∀ binding, Matching.bind formals labels = .ok binding →
        ∀ marker formal actual : Nat, formals.dotsIndex = some marker → marker < formal →
          binding.actuals[formal]? = some (some actual) → ByName formals labels formal actual) ∧
      ∀ taken, abbreviated formals labels (exact formals labels) = .ok taken →
        ∀ cause, Matching.bind formals labels = .error cause ↔
          ∃ name, FirstRefused labels left opened name ∧
            cause = .unmatchedName formals.function name := by
  intro labels
  refine ⟨fun binding bound => ?_, ?_⟩
  · simpa [labels] using orderly_of_bind bound
  rcases abbreviated_outcome formals labels with
    ⟨taken, named, partway⟩ | ⟨formal, name, shorts, -, -, -, failed⟩
  · refine ⟨_, _, enumerates_remaining partway, enumerates_openPositions partway,
      fun binding bound => fills_of_bind named partway bound, ?_, ?_⟩
    · intro binding bound marker formal actual at_marker after here
      have closed : formal ∉ openPositions formals taken := fun member =>
        Nat.lt_asymm after (((enumerates_openPositions partway).mem_iff formal).mp member
          |>.1.2 marker at_marker)
      exact ((fills_of_bind named partway bound).byName formal closed actual).mp here
    · intro taken' named'
      cases named.symm.trans named'
      exact fun cause => bind_eq_error_iff named
  · -- Ambiguous names leave nothing to say about positions.
    have outcome : Matching.bind formals labels = .error (.ambiguousMatch name shorts) :=
      andThen_eq_error.mpr (.inl failed)
    obtain ⟨left, left_eq⟩ : ∃ left, Enumerates left (LeftOver formals labels) :=
      Enumerates.exists_of_bounded fun _ left_over => left_over.1
    obtain ⟨opened, opened_eq⟩ : ∃ opened, Enumerates opened (StillOpen formals labels) :=
      Enumerates.exists_of_bounded fun _ still_open => still_open.1.1
    refine ⟨left, opened, left_eq, opened_eq, ?_, ?_, ?_⟩
    · intro binding bound
      cases outcome.symm.trans bound
    · intro binding bound
      cases outcome.symm.trans bound
    · intro taken named
      cases failed.symm.trans named

theorem bind_fills_positions_alike :
    (Orderly ⟨[some 1, none, some 0], [2, 3], []⟩ alikeFormals 4 ∧
      let labels := Matching.labels [some "valid", none, some "x"] 4
      ∃ left opened, Enumerates left (LeftOver alikeFormals labels) ∧
        Enumerates opened (StillOpen alikeFormals labels) ∧
        Fills ⟨[some 1, none, some 0], [2, 3], []⟩ alikeFormals labels left opened ∧
        ByName alikeFormals labels 2 0) ∧
    let labels := Matching.labels [some "x"] 1
    ∃ left opened name, Enumerates left (LeftOver alikeFormals labels) ∧
      Enumerates opened (StillOpen alikeFormals labels) ∧
      FirstRefused labels left opened name := by
  constructor
  · have bound : Matching.bind alikeFormals (Matching.labels [some "valid", none, some "x"] 4) =
        .ok ⟨[some 1, none, some 0], [2, 3], []⟩ := rfl
    obtain ⟨orderly, left, opened, left_eq, opened_eq, fills, after, -⟩ :=
      bind_fills_positions alikeFormals [some "valid", none, some "x"] 4
    exact ⟨orderly _ bound, left, opened, left_eq, opened_eq, fills _ bound,
      after _ bound 1 2 0 rfl (by decide) rfl⟩
  · obtain ⟨-, left, opened, left_eq, opened_eq, -, -, fails⟩ :=
      bind_fills_positions alikeFormals [some "x"] 1
    obtain ⟨name, refused, -⟩ :=
      (fails [none, none, none] rfl (.unmatchedName "alike" "x")).mp rfl
    exact ⟨left, opened, name, left_eq, opened_eq, refused⟩

end Vectorial.Matching
