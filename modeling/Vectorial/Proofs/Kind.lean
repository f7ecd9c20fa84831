import Mathlib.Data.Finset.Lattice.Fold
import Vectorial.Kind

/-!
# The common kind of any number of kinds

Kinds are ordered by what they can be widened to. An atomic kind widens to those that come no
earlier in the order of widths, except that nothing but raw itself widens to raw; a list widens to
character; `NULL` widens to everything, and everything counts as widening to functions, which is
what is left where nothing else is. Two kinds have a least kind to which both widen. This is what
they have in common, unless only functions are that wide.

Any number of kinds, taken one after the other, therefore have in common the least kind to which
all of them widen. Neither their order nor their number matters, nor how they are put together.

## Main definitions

* `Kind.Widens`: the order of the kinds, on top of that of the atomic ones;
* `Kind.join`: the least kind to which two widen;
* `Kind.proper`: the same without functions.

## Main results

* `Kind.common_eq_proper`: what two kinds have in common is the least to which both widen;
* `Kind.commonOf_iff_isLUB`: what any number of kinds have in common is their least upper bound;
* `Kind.commonOf_append`, `Kind.commonOf_flatten`: parts may be brought together first;
* `Kind.commonOf_order_free`: only the set of the kinds matters.
-/

namespace Vectorial

namespace ElementKind

variable {a b narrow wide : ElementKind}

/-! ### Atomic kinds -/

/-- An atomic kind widens to itself, and to every kind but raw that comes no earlier. -/
instance : LE ElementKind where
  le narrow wide := narrow = wide ∨ narrow.rank ≤ wide.rank ∧ wide ≠ raw

theorem le_raw_iff : narrow ≤ raw ↔ narrow = raw :=
  or_iff_left fun later => later.2 rfl

theorem le_iff_rank_le (other : wide ≠ raw) : narrow ≤ wide ↔ narrow.rank ≤ wide.rank := by
  constructor
  · rintro (rfl | ⟨later, -⟩)
    · exact Nat.le_refl _
    · exact later
  · exact fun later => .inr ⟨later, other⟩

theorem rank_mono (wider : narrow ≤ wide) : narrow.rank ≤ wide.rank := by
  obtain rfl | ⟨later, -⟩ := wider
  · exact Nat.le_refl _
  · exact later

theorem le_character (kind : ElementKind) : kind ≤ character := by
  refine (le_iff_rank_le (by decide)).mpr ?_
  cases kind <;> decide

theorem ofRank_rank (other : a ≠ raw) : ofRank a.rank = a := by
  cases a with
  | raw => exact absurd rfl other
  | _ => rfl

theorem join_eq_raw_iff : a.join b = raw ↔ a = raw ∧ b = raw := by
  cases a <;> cases b <;> decide

/-- What two kinds have in common stands where the wider one does. -/
theorem rank_join (a b : ElementKind) : (a.join b).rank = max a.rank b.rank := by
  cases a <;> cases b <;> rfl

instance : PartialOrder ElementKind where
  le_refl _ := .inl rfl
  le_trans a b c first second := by
    by_cases raw_last : c = raw
    · subst raw_last
      rwa [le_raw_iff.mp second] at first
    · exact (le_iff_rank_le raw_last).mpr ((rank_mono first).trans (rank_mono second))
  le_antisymm a b wider narrower := by
    by_cases raw_right : b = raw
    · exact raw_right ▸ le_raw_iff.mp (raw_right ▸ wider)
    by_cases raw_left : a = raw
    · exact (raw_left ▸ le_raw_iff.mp (raw_left ▸ narrower)).symm
    -- All kinds but raw are told apart by their ranks.
    rw [← ofRank_rank raw_left, ← ofRank_rank raw_right,
      Nat.le_antisymm (rank_mono wider) (rank_mono narrower)]

theorem le_join_left (a b : ElementKind) : a ≤ a.join b := by
  by_cases both : a.join b = raw
  · rw [both, (join_eq_raw_iff.mp both).1]
  · rw [le_iff_rank_le both, rank_join]
    exact Nat.le_max_left _ _

theorem le_join_right (a b : ElementKind) : b ≤ a.join b := by
  by_cases both : a.join b = raw
  · rw [both, (join_eq_raw_iff.mp both).2]
  · rw [le_iff_rank_le both, rank_join]
    exact Nat.le_max_right _ _

theorem join_le (left : a ≤ wide) (right : b ≤ wide) : a.join b ≤ wide := by
  by_cases raw_wide : wide = raw
  · subst raw_wide
    exact le_raw_iff.mpr (join_eq_raw_iff.mpr ⟨le_raw_iff.mp left, le_raw_iff.mp right⟩)
  · rw [le_iff_rank_le raw_wide, rank_join]
    exact Nat.max_le.mpr ⟨rank_mono left, rank_mono right⟩

instance : SemilatticeSup ElementKind where
  sup := join
  le_sup_left := le_join_left
  le_sup_right := le_join_right
  sup_le _ _ _ := join_le

end ElementKind

namespace Kind

variable {a b start kind wide : Kind} {kinds others : List Kind}

/-! ### All kinds -/

/-- The first kind can be widened to the second. -/
inductive Widens : Kind → Kind → Prop
  | null (wide : Kind) : Widens null wide
  | atomic {narrow wide : ElementKind} (wider : narrow ≤ wide) :
      Widens (atomic narrow) (atomic wide)
  | list : Widens list list
  | asText : Widens list (.atomic .character)
  | closure (narrow : Kind) : Widens narrow closure

/-- The least kind to which both widen, that of functions where they have nothing in common. -/
def join (a b : Kind) : Kind :=
  (common a b).getD closure

@[simp] theorem null_join (b : Kind) : null.join b = b := by
  cases b <;> rfl

@[simp] theorem join_null (a : Kind) : a.join null = a := by
  cases a <;> rfl

@[simp] theorem closure_join (b : Kind) : closure.join b = closure := rfl

@[simp] theorem join_closure (a : Kind) : a.join closure = closure := by
  cases a <;> rfl

@[simp] theorem atomic_join_atomic (a b : ElementKind) :
    (atomic a).join (atomic b) = atomic (a ⊔ b) := rfl

@[simp] theorem list_join_list : list.join list = list := rfl

@[simp] theorem list_join_atomic (b : ElementKind) :
    list.join (atomic b) = atomic .character := rfl

@[simp] theorem atomic_join_list (a : ElementKind) :
    (atomic a).join list = atomic .character := rfl

theorem widens_refl (kind : Kind) : Widens kind kind := by
  cases kind with
  | null => exact .null _
  | atomic kind => exact .atomic le_rfl
  | list => exact .list
  | closure => exact .closure _

instance : PartialOrder Kind where
  le := Widens
  le_refl := widens_refl
  le_trans a b c first second := by
    cases first with
    | null => exact .null _
    | list => exact second
    | atomic wider =>
      cases second with
      | atomic wider' => exact .atomic (wider.trans wider')
      | closure => exact .closure _
    | asText =>
      cases second with
      | atomic wider =>
        -- A list widens to character, beyond which there is no other atomic kind.
        obtain rfl := le_antisymm wider (ElementKind.le_character _)
        exact .asText
      | closure => exact .closure _
    | closure =>
      cases second
      exact .closure _
  le_antisymm a b wider narrower := by
    cases wider with
    | null =>
      cases narrower
      rfl
    | closure =>
      cases narrower
      rfl
    | atomic wider =>
      cases narrower with
      | atomic narrower => rw [le_antisymm wider narrower]
    | list => rfl
    | asText => cases narrower

theorem join_comm (a b : Kind) : a.join b = b.join a := by
  cases a <;> cases b <;> simp [sup_comm]

theorem widens_join (a b : Kind) : Widens a (a.join b) := by
  cases a with
  | null => exact .null _
  | closure => exact .closure _
  | atomic a =>
    cases b with
    | null => exact widens_refl _
    | atomic b => exact .atomic le_sup_left
    | list => exact .atomic a.le_character
    | closure => exact .closure _
  | list =>
    cases b with
    | null => exact widens_refl _
    | atomic b => exact .asText
    | list => exact .list
    | closure => exact .closure _

theorem Widens.join (left : Widens a wide) (right : Widens b wide) : Widens (a.join b) wide := by
  -- The wide kind decides: it is the kind itself, an atomic one, a list or text.
  cases left with
  | null => rwa [null_join]
  | closure => exact .closure _
  | atomic wider =>
    cases right with
    | null => exact .atomic wider
    | atomic wider' => exact .atomic (sup_le wider wider')
    | asText => exact widens_refl _
  | list =>
    cases right with
    | null => exact .list
    | list => exact .list
  | asText =>
    cases right with
    | null => exact .asText
    | atomic => exact widens_refl _
    | asText => exact .asText

/-- A list and an atomic kind meet as character, to which both widen, and to nothing narrower. -/
instance : SemilatticeSup Kind where
  sup := join
  le_sup_left := widens_join
  le_sup_right a b := join_comm b a ▸ widens_join b a
  sup_le _ _ _ := Widens.join

instance : BoundedOrder Kind where
  top := closure
  le_top := .closure
  bot := null
  bot_le := .null

theorem sup_eq_closure_iff : a ⊔ b = closure ↔ a = closure ∨ b = closure := by
  change a.join b = closure ↔ _
  cases a <;> cases b <;> simp

theorem closure_sup (b : Kind) : closure ⊔ b = closure :=
  top_sup_eq b

theorem null_sup (b : Kind) : null ⊔ b = b :=
  bot_sup_eq b

/-- What kinds have in common for which this one is the least: the kind itself, and nothing where
only functions are wide enough. -/
def proper (kind : Kind) : Option Kind :=
  if kind = closure then none else some kind

theorem proper_of_ne (other : kind ≠ closure) : kind.proper = some kind :=
  if_neg other

theorem proper_eq_none_iff : kind.proper = none ↔ kind = closure := by
  simp [proper]

theorem proper_eq_some_iff : wide.proper = some kind ↔ wide = kind ∧ kind ≠ closure := by
  by_cases functions : wide = closure
  · rw [proper_eq_none_iff.mpr functions, functions]
    exact ⟨nofun, fun ⟨same, other⟩ => absurd same.symm other⟩
  · rw [proper_of_ne functions, Option.some_inj]
    exact ⟨fun same => ⟨same, same ▸ functions⟩, And.left⟩

/-- What two kinds have in common is the least to which both widen. -/
theorem common_eq_proper (a b : Kind) : common a b = (a ⊔ b).proper := by
  cases a <;> cases b <;> rfl

theorem proper_sup (a b : Kind) :
    (a ⊔ b).proper = a.proper.bind fun a => b.proper.bind fun b => common a b := by
  by_cases left : a = closure
  · rw [left, closure_sup]
    rfl
  by_cases right : b = closure
  · rw [right, sup_comm, closure_sup, proper_of_ne left]
    rfl
  · rw [proper_of_ne left, proper_of_ne right, ← common_eq_proper]
    rfl

/-! ### Any number of kinds -/

theorem sup_toFinset_eq_closure_iff : kinds.toFinset.sup id = closure ↔ closure ∈ kinds := by
  induction kinds with
  | nil => exact ⟨nofun, nofun⟩
  | cons first rest ih =>
    rw [List.toFinset_cons, Finset.sup_insert, id_eq, sup_eq_closure_iff, ih, List.mem_cons,
      eq_comm]

/-- Kinds taken one after the other lead to the least kind to which all of them widen. -/
theorem foldlM_common (other : start ≠ closure) :
    kinds.foldlM common start = (start ⊔ kinds.toFinset.sup id).proper := by
  induction kinds generalizing start with
  | nil =>
    rw [List.foldlM_nil, List.toFinset_nil, Finset.sup_empty, sup_bot_eq, proper_of_ne other]
    rfl
  | cons first rest ih =>
    rw [List.foldlM_cons, List.toFinset_cons, Finset.sup_insert, id_eq, ← sup_assoc,
      common_eq_proper]
    by_cases functions : start ⊔ first = closure
    · -- Nothing is wider than functions, so the rest does not matter any more.
      rw [functions, closure_sup]
      rfl
    · rw [proper_of_ne functions]
      exact ih functions

theorem commonOf_eq_proper (kinds : List Kind) :
    commonOf kinds = (kinds.toFinset.sup id).proper := by
  rw [commonOf, foldlM_common (by decide), null_sup]

/-- What kinds have in common is their least upper bound. -/
theorem commonOf_iff_isLUB :
    commonOf kinds = some kind ↔ IsLUB {own | own ∈ kinds} kind ∧ kind ≠ closure := by
  have least : IsLUB {own | own ∈ kinds} (kinds.toFinset.sup id) := by
    simpa using Finset.isLUB_sup_id (s := kinds.toFinset)
  rw [commonOf_eq_proper, proper_eq_some_iff]
  exact and_congr_left' ⟨fun same => same ▸ least, least.unique⟩

theorem commonOf_eq_none_iff : commonOf kinds = none ↔ closure ∈ kinds := by
  rw [commonOf_eq_proper, proper_eq_none_iff, sup_toFinset_eq_closure_iff]

theorem commonOf_congr (same : kinds.toFinset.sup id = others.toFinset.sup id) :
    commonOf kinds = commonOf others := by
  rw [commonOf_eq_proper, commonOf_eq_proper, same]

/-! ### Parts -/

theorem sup_toFinset_append (kinds others : List Kind) :
    (kinds ++ others).toFinset.sup id = kinds.toFinset.sup id ⊔ others.toFinset.sup id := by
  rw [List.toFinset_append, Finset.sup_union]

/-- Two parts have in common what their common kinds have in common. -/
theorem commonOf_append (kinds others : List Kind) :
    commonOf (kinds ++ others) =
      (commonOf kinds).bind fun a => (commonOf others).bind fun b => common a b := by
  rw [commonOf_eq_proper, commonOf_eq_proper, commonOf_eq_proper, sup_toFinset_append, proper_sup]

theorem commonOf_singleton (other : kind ≠ closure) : commonOf [kind] = some kind := by
  rw [commonOf_eq_proper, List.toFinset_cons, List.toFinset_nil, Finset.sup_insert,
    Finset.sup_empty, sup_bot_eq, id_eq, proper_of_ne other]

theorem commonOf_cons (other : kind ≠ closure) (kinds : List Kind) :
    commonOf (kind :: kinds) = (commonOf kinds).bind fun b => common kind b := by
  rw [← List.singleton_append, commonOf_append, commonOf_singleton other, Option.bind_some]

/-- The kinds of any parts may be brought together first. -/
theorem commonOf_flatten (groups : List (List Kind)) :
    commonOf groups.flatten = (groups.mapM commonOf).bind commonOf := by
  induction groups with
  | nil => rfl
  | cons group rest ih =>
    rw [List.flatten_cons, commonOf_append, ih, List.mapM_cons]
    cases first : commonOf group with
    | none => rfl
    | some a =>
      have other := (commonOf_iff_isLUB.mp first).2
      cases folded : rest.mapM commonOf with
      | none => rfl
      | some folds => exact (commonOf_cons other folds).symm

/-- `NULL` makes no difference, wherever it stands. -/
theorem commonOf_append_null_cons (kinds others : List Kind) :
    commonOf (kinds ++ null :: others) = commonOf (kinds ++ others) := by
  apply commonOf_congr
  rw [sup_toFinset_append, sup_toFinset_append, List.toFinset_cons, Finset.sup_insert, id_eq,
    null_sup]

theorem commonOf_filter_ne_null (kinds : List Kind) :
    commonOf (kinds.filter fun kind => kind ≠ null) = commonOf kinds := by
  apply commonOf_congr
  rw [List.toFinset_filter]
  simp only [decide_eq_true_eq]
  rw [Finset.filter_ne']
  exact Finset.sup_erase_bot _

/-! ### Order, repetition and grouping -/

/-- What kinds have in common depends on the set of these kinds alone. They may be taken in any
order, any number of times, and in parts that are brought together first; only functions have
nothing in common with others, and `NULL` may be left out or put in anywhere. -/
theorem commonOf_order_free (kinds others : List Kind) :
    ((∀ kind, kind ∈ kinds ↔ kind ∈ others) → commonOf kinds = commonOf others) ∧
    (∀ groups : List (List Kind), commonOf groups.flatten = (groups.mapM commonOf).bind commonOf) ∧
    (commonOf kinds = none ↔ closure ∈ kinds) ∧
    commonOf (kinds ++ null :: others) = commonOf (kinds ++ others) ∧
    commonOf (kinds.filter fun kind => kind ≠ null) = commonOf kinds ∧
    ∀ a b, commonOf kinds = some a → commonOf others = some b →
      commonOf (kinds ++ others) = common a b := by
  refine ⟨?set, commonOf_flatten, commonOf_eq_none_iff, commonOf_append_null_cons kinds others,
    commonOf_filter_ne_null kinds, ?parts⟩
  case set =>
    intro same
    apply commonOf_congr
    rw [List.toFinset.ext same]
  case parts =>
    intro a b left right
    rw [commonOf_append, left, right, Option.bind_some, Option.bind_some]

/-- Raw stays raw and a list stays a list among their like, and the two of them have character in
common, whichever comes first. -/
theorem commonOf_order_free_raw :
    ((∀ kind, kind ∈ [list, atomic .raw, list] ↔ kind ∈ [atomic .raw, list]) ∧
      commonOf [list, atomic .raw, list] = commonOf [atomic .raw, list]) ∧
    commonOf [atomic .raw, atomic .raw] = some (atomic .raw) ∧
    commonOf [list, null, list] = some list ∧
    commonOf ([atomic .raw, atomic .raw] ++ [list, null, list]) = some (atomic .character) := by
  have same (kind : Kind) :
      kind ∈ [list, atomic .raw, list] ↔ kind ∈ [atomic .raw, list] := by
    simp [or_comm]
  have raws : commonOf [atomic .raw, atomic .raw] = some (atomic .raw) := by decide
  have lists : commonOf [list, null, list] = some list := by decide
  obtain ⟨-, -, -, -, -, parts⟩ :=
    commonOf_order_free [atomic .raw, atomic .raw] [list, null, list]
  exact ⟨⟨same, (commonOf_order_free _ _).1 same⟩, raws, lists, parts _ _ raws lists⟩

end Kind

end Vectorial
