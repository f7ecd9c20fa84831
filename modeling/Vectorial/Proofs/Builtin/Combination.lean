import Vectorial.Proofs.Builtin.Safety
import Vectorial.Proofs.Operator.Membership

/-!
# Putting values together

The elements of all actuals come one after the other, each coerced to the kind that they have in
common, and so do their names. Elements and names are taken from the actuals in two passes; in
both of them the part that an actual contributes begins where the sizes of those before it add up
to, so that every element gets the name that was made for it.

## Main definitions

* `Builtin.IsCombinedKind`: the kind that the parts have in common, a list as soon as one of them
  is a list or a function;
* `Builtin.IsLabel`: what an element of a part is called;
* `Builtin.IsConcatenation`: stored elements of all parts;
* `Builtin.IsCombination`: a vector of the elements of all parts, with their names.

## Main results

* `Kind.exists_commonOf`: what kinds other than lists and functions have in common;
* `Builtin.combine_concatenates`: putting values together never fails, and what it gives.
-/

namespace Vectorial

variable {α β γ : Type}

/-! ### Pieces one after the other -/

theorem getElem?_flatMap_of_split (f : α → List β) (before after : List α) {a : α} {i : Nat}
    (inside : i < (f a).length) :
    ((before ++ a :: after).flatMap f)[(before.flatMap f).length + i]? = (f a)[i]? := by
  rw [List.flatMap_append, List.flatMap_cons, List.getElem?_append_right (Nat.le_add_right _ _),
    Nat.add_sub_cancel_left, List.getElem?_append_left inside]

/-! ### Kinds -/

namespace Kind

/-- Neither a list nor a function. -/
def IsPlain (kind : Kind) : Prop :=
  kind ≠ list ∧ kind ≠ closure

theorem exists_common {a b : Kind} (plain : a.IsPlain) (plain' : b.IsPlain) :
    ∃ kind, common a b = some kind ∧ kind.IsPlain ∧ (kind = null ↔ a = null ∧ b = null) := by
  cases a <;> cases b <;> simp_all [common, IsPlain]

theorem exists_foldlM_common {kinds : List Kind} {start : Kind} (plain : start.IsPlain)
    (each : ∀ kind ∈ kinds, kind.IsPlain) :
    ∃ kind, kinds.foldlM common start = some kind ∧ kind.IsPlain ∧
      (kind = null ↔ start = null ∧ ∀ own ∈ kinds, own = null) := by
  induction kinds generalizing start with
  | nil => exact ⟨start, rfl, plain, by simp⟩
  | cons first rest ih =>
    obtain ⟨shared, eq, plain, nothing⟩ := exists_common plain (each first List.mem_cons_self)
    obtain ⟨kind, folded, plain, none_left⟩ :=
      ih plain fun kind member => each kind (List.mem_cons_of_mem _ member)
    refine ⟨kind, ?_, plain, ?_⟩
    · rw [List.foldlM_cons, eq]
      exact folded
    · rw [none_left, nothing, List.forall_mem_cons, and_assoc]

/-- Kinds that are neither lists nor functions have a kind in common, whose elements are atoms
unless all of them are those of `NULL`. -/
theorem exists_commonOf {kinds : List Kind} (each : ∀ kind ∈ kinds, kind.IsPlain)
    (some_left : ∃ kind ∈ kinds, kind ≠ null) : ∃ kind, commonOf kinds = some (.atomic kind) := by
  have start : null.IsPlain := ⟨nofun, nofun⟩
  obtain ⟨kind, folded, plain, nothing⟩ := exists_foldlM_common start each
  cases kind with
  | atomic kind => exact ⟨kind, folded⟩
  | null =>
    obtain ⟨own, member, other⟩ := some_left
    exact absurd ((nothing.mp rfl).2 own member) other
  | list => exact absurd rfl plain.1
  | closure => exact absurd rfl plain.2

end Kind

namespace Builtin

/-! ### What is put together -/

/-- The kind that the parts have in common: a list as soon as one of them is a list or a
function. -/
def IsCombinedKind (parts : Parts) (kind : Kind) : Prop :=
  if ∃ part ∈ parts, part.2.kind = .list ∨ part.2.isFunction then kind = .list
  else Kind.commonOf (parts.map fun part => part.2.kind) = some kind

/-- The element of the vector has this name, which is neither missing nor empty. -/
def HasName (v : Value) (i : Nat) (name : String) : Prop :=
  ∃ names, v.names = some names ∧ names[i]? = some (some name) ∧ name ≠ ""

/-- What an element of a part is called, from the name of the actual and the name that the element
has in it. -/
inductive IsLabel (part : Option Symbol × Value) (i : Nat) : String → Prop
  | joined {outer inner : String} (called : part.1 = some outer) (named : HasName part.2 i inner) :
      IsLabel part i (outer ++ "." ++ inner)
  | single {outer : String} (called : part.1 = some outer)
      (plain : ∀ inner, ¬ HasName part.2 i inner) (alone : part.2.size = 1) : IsLabel part i outer
  | counted {outer : String} (called : part.1 = some outer)
      (plain : ∀ inner, ¬ HasName part.2 i inner) (several : part.2.size ≠ 1) :
      IsLabel part i (outer ++ toString (i + 1))
  | own {inner : String} (bare : part.1 = none) (named : HasName part.2 i inner) :
      IsLabel part i inner
  | unnamed (bare : part.1 = none) (plain : ∀ inner, ¬ HasName part.2 i inner) :
      IsLabel part i ""

/-- The name that an element has in its vector. -/
def nameWithin (v : Value) (i : Nat) : Option String :=
  ((v.names.bind fun names => names[i]?).join).filter fun name => name ≠ ""

theorem nameWithin_eq_some_iff {v : Value} {i : Nat} {name : String} :
    nameWithin v i = some name ↔ HasName v i name := by
  rw [nameWithin, Option.filter_eq_some_iff, Option.join_eq_some_iff, Option.bind_eq_some_iff,
    decide_eq_true_eq]
  constructor
  · rintro ⟨⟨names, given, entry⟩, nonempty⟩
    exact ⟨names, given, entry, nonempty⟩
  · rintro ⟨names, given, entry, nonempty⟩
    exact ⟨⟨names, given, entry⟩, nonempty⟩

theorem isLabel_combinedName (part : Option Symbol × Value) (i : Nat) :
    IsLabel part i (combinedName part.1 (nameWithin part.2 i) part.2.size i) := by
  obtain ⟨outer, v⟩ := part
  -- Whether the element has a name of its own, and then whether the part has a label.
  cases within : nameWithin v i with
  | some inner =>
    have named := nameWithin_eq_some_iff.mp within
    cases outer with
    | some outer => exact .joined rfl named
    | none => exact .own rfl named
  | none =>
    have plain (inner : String) : ¬ HasName v i inner := fun named => by
      rw [nameWithin_eq_some_iff.mpr named] at within
      cases within
    cases outer with
    | some outer =>
      rw [combinedName]
      split
      · next alone => exact .single rfl plain alone
      · next several => exact .counted rfl plain several
    | none => exact .unnamed rfl plain

/-- Where the elements of a part begin that comes after others: their sizes added up. -/
def offset : Parts → Nat
  | [] => 0
  | part :: rest => part.2.size + offset rest

/-- The value is a stored vector of the kind that carries nothing but names, and has the elements
of all parts one after the other, coerced to the kind. It has names exactly if a part is named or
has names; each element is called what it is called in its part. -/
structure IsCombination (parts : Parts) (kind : Kind) (result : Value) : Prop where
  kind_eq : result.kind = kind
  vector : result.isVector
  stored : result.isView = false
  size_eq : result.size = offset parts
  carried : result.metadata = result.names.map fun names => .mk none (some names) []
  named_iff : result.names.isSome ↔ ∃ part ∈ parts, part.1.isSome ∨ part.2.names.isSome
  length_names : ∀ names, result.names = some names → names.length = result.size
  element : ∀ before part after, parts = before ++ part :: after → ∀ i < part.2.size,
    (result.get (offset before + i)).map Metered.value =
      .ok ((part.2.element i).value.coerce kind).value
  label : ∀ before part after, parts = before ++ part :: after → ∀ i < part.2.size,
    ∀ names, result.names = some names →
      ∃ label, names[offset before + i]? = some (some label) ∧ IsLabel part i label

/-! ### Elements and names -/

section Parts

variable {parts before after : Parts} {part : Option Symbol × Value} {i : Nat}

theorem length_flatMap_offset {f : Option Symbol × Value → List β}
    (each : ∀ part, (f part).length = part.2.size) (parts : Parts) :
    (parts.flatMap f).length = offset parts := by
  induction parts with
  | nil => rfl
  | cons part rest ih => rw [List.flatMap_cons, List.length_append, each, ih, offset]

/-- What every part contributes begins at its offset. -/
theorem getElem?_flatMap_offset {f : Option Symbol × Value → List β}
    (each : ∀ part, (f part).length = part.2.size) (split : parts = before ++ part :: after)
    (inside : i < part.2.size) : (parts.flatMap f)[offset before + i]? = (f part)[i]? := by
  rw [split, ← length_flatMap_offset each before,
    getElem?_flatMap_of_split f before after (each part ▸ inside)]

theorem offset_lt (split : parts = before ++ part :: after) (inside : i < part.2.size) :
    offset before + i < offset parts := by
  subst split
  induction before with
  | nil =>
    rw [List.nil_append, offset, offset]
    omega
  | cons first rest ih =>
    rw [List.cons_append, offset, offset]
    omega

theorem names_eq_flatMap {names : List (Option String)}
    (joined : combinedNames parts = some names) : names = parts.flatMap partNames := by
  rw [combinedNames] at joined
  split at joined
  · exact (Option.some.inj joined).symm
  · cases joined

theorem isSome_combinedNames : (combinedNames parts).isSome ↔
    ∃ part ∈ parts, part.1.isSome ∨ part.2.names.isSome := by
  have any : (parts.any fun part => part.1.isSome || part.2.names.isSome) = true ↔
      ∃ part ∈ parts, part.1.isSome ∨ part.2.names.isSome := by
    simp only [List.any_eq_true, Bool.or_eq_true]
  rw [← any, combinedNames]
  split
  · next called => exact iff_of_true rfl called
  · next bare => exact iff_of_false Bool.false_ne_true bare

theorem getElem?_partNames (inside : i < part.2.size) :
    ∃ label, (partNames part)[i]? = some (some label) ∧ IsLabel part i label := by
  refine ⟨_, ?_, isLabel_combinedName part i⟩
  rw [partNames, List.getElem?_map, List.getElem?_range inside, Option.map_some]
  rfl

/-- The elements of all parts are stored one after the other, coerced to the kind. -/
structure IsConcatenation (parts : Parts) (kind : Kind) (storage : Storage) : Prop where
  kind_eq : storage.kind = kind
  stored : (Value.vector storage none).isView = false
  size_eq : storage.size = offset parts
  element : ∀ before part after, parts = before ++ part :: after → ∀ i < part.2.size,
    (storage.element (offset before + i)).value = ((part.2.element i).value.coerce kind).value

/-- Stored elements of all parts, with the names that are made for them. -/
theorem IsConcatenation.isCombination {kind : Kind} {storage : Storage}
    (all : IsConcatenation parts kind storage) : IsCombination parts kind (.vector storage
      ((combinedNames parts).map fun names => .mk none (some names) [])) := by
  -- There may be no names at all, which reads back as none just as well.
  have named : (Value.vector storage
      ((combinedNames parts).map fun names => .mk none (some names) [])).names =
        combinedNames parts := by
    cases combinedNames parts <;> rfl
  refine
    { kind_eq := all.kind_eq
      vector := rfl
      stored := by cases storage <;> first | rfl | exact all.stored
      size_eq := all.size_eq
      carried := by rw [named]; rfl
      named_iff := by rw [named, isSome_combinedNames]
      length_names := ?_
      element := fun before part after split i inside => ?_
      label := fun before part after split i inside names given => ?_ }
  · intro names given
    rw [named] at given
    rw [names_eq_flatMap given, length_flatMap_offset length_partNames]
    exact all.size_eq.symm
  · rw [Value.get, if_pos (all.size_eq ▸ offset_lt split inside)]
    exact congrArg Except.ok (all.element before part after split i inside)
  · rw [named] at given
    rw [names_eq_flatMap given, getElem?_flatMap_offset length_partNames split inside]
    exact getElem?_partNames inside

end Parts

/-! ### The builtin -/

/-- Readings made one after the other, as part of an operation. -/
theorem outcome_mapM_bind (read : α → Metered β) (sources : List α) (next : List β → Operation γ)
    (free : StorageId) :
    Attempt.outcome ((sources.mapM (fun source => monadLift (read source)) >>= next :
      Operation γ) free) =
        Attempt.outcome (next (sources.map fun source => (read source).value) free) := by
  induction sources generalizing next with
  | nil => rfl
  | cons source rest ih =>
    simp only [List.mapM_cons, bind_assoc, pure_bind]
    exact ih fun others => next ((read source).value :: others)

theorem isCombinedKind_iff {parts : Parts} {kind : Kind} :
    IsCombinedKind parts kind ↔ combinedKind parts = some kind := by
  have any : (parts.any fun part => part.2.isFunction || part.2.kind = .list) = true ↔
      ∃ part ∈ parts, part.2.kind = .list ∨ part.2.isFunction := by
    simp only [List.any_eq_true, Bool.or_eq_true, decide_eq_true_eq, or_comm]
  rw [IsCombinedKind, combinedKind]
  by_cases wide : ∃ part ∈ parts, part.2.kind = .list ∨ part.2.isFunction
  · rw [if_pos wide, if_pos (any.mpr wide), Option.some.injEq, eq_comm]
  · rw [if_neg wide, if_neg (mt any.mp wide)]

/-- The kind in common is that of vectors, unless all parts are `NULL`. -/
theorem exists_isCombinedKind {parts : Parts} (ordinary : ∀ part ∈ parts, part.2.IsOrdinary)
    (something : ∃ part ∈ parts, part.2 ≠ .null) :
    ∃ kind : Kind, kind.HasVectors ∧ IsCombinedKind parts kind := by
  by_cases wide : ∃ part ∈ parts, part.2.kind = .list ∨ part.2.isFunction
  · exact ⟨.list, Kind.hasVectors_list, by rw [IsCombinedKind, if_pos wide]⟩
  · have plain (own : Kind) (listed : own ∈ parts.map fun part => part.2.kind) : own.IsPlain := by
      obtain ⟨part, member, rfl⟩ := List.mem_map.mp listed
      refine ⟨fun same => wide ⟨part, member, .inl same⟩, fun same => wide ⟨part, member, .inr ?_⟩⟩
      exact (Value.kind_eq_closure_iff (ordinary part member)).mp same
    obtain ⟨part, member, other⟩ := something
    have other_kind : part.2.kind ≠ .null :=
      fun same => other (Value.eq_null_of_kind (ordinary part member) same)
    obtain ⟨kind, common⟩ :=
      Kind.exists_commonOf plain ⟨part.2.kind, List.mem_map_of_mem member, other_kind⟩
    exact ⟨.atomic kind, Kind.hasVectors_atomic kind, by rw [IsCombinedKind, if_neg wide, common]⟩

/-- Names for all elements are accepted. -/
theorem outcome_named {parts : Parts} {storage : Storage} (size_eq : storage.size = offset parts)
    (free : StorageId) :
    Attempt.outcome ((match combinedNames parts with
      | some names => Attempt.ofDefect ((Value.vector storage none).withNames names)
      | none => pure (.vector storage none) : Operation Value) free) =
        .ok (.vector storage ((combinedNames parts).map fun names => .mk none (some names) []),
          free) := by
  cases joined : combinedNames parts with
  | none => rfl
  | some names =>
    have fits : names.length = (Value.vector storage none).size := by
      rw [names_eq_flatMap joined, length_flatMap_offset length_partNames]
      exact size_eq.symm
    have accepted : (Value.vector storage none).withNames names =
        .ok (.vector storage (some (.mk none (some names) []))) := by
      rw [Value.withNames, fits]
      simp only [bne_self_eq_false, Bool.and_false]
      rfl
    dsimp only
    rw [accepted]
    rfl

/-- The elements that the parts contribute to a vector of atoms. -/
theorem isConcatenation_atoms (parts : Parts) (kind : ElementKind) :
    IsConcatenation parts (.atomic kind)
      (.atoms kind (parts.map fun part => (part.2.atomsAs kind).value).flatten) := by
  have each (part : Option Symbol × Value) :
      (part.2.atomsAs kind).value.length = part.2.size := part.2.length_atomsAs kind
  rw [← List.flatMap_def]
  refine ⟨rfl, rfl, length_flatMap_offset each parts, fun before part after split i inside => ?_⟩
  have entry := getElem?_flatMap_offset each split inside
  rw [Value.value_atomsAs, List.getElem?_map, List.getElem?_range inside, Option.map_some] at entry
  rw [Storage.element, entry]
  rfl

/-- The items that the parts contribute to a list. -/
theorem isConcatenation_items (parts : Parts) (id : StorageId) :
    IsConcatenation parts .list
      (.list id (parts.map fun part => part.2.items.value).flatten) := by
  have each (part : Option Symbol × Value) : part.2.items.value.length = part.2.size :=
    part.2.length_items
  have items (v : Value) :
      v.items.value = (List.range v.size).map fun index => (v.element index).value.toItem := by
    rw [Value.items, Metered.value_bind, Metered.value_pure, v.elements_eq, List.map_map]
    rfl
  rw [← List.flatMap_def]
  refine ⟨rfl, rfl, length_flatMap_offset each parts, fun before part after split i inside => ?_⟩
  have entry := getElem?_flatMap_offset each split inside
  rw [items, List.getElem?_map, List.getElem?_range inside, Option.map_some] at entry
  rw [Storage.element, entry]
  rfl

variable {arguments : Arguments}

/-- What is done with the elements when there is more than `NULL`. -/
theorem outcome_combine {kind : Kind} (vectors : kind.HasVectors)
    (something : ∃ part ∈ arguments.absorbed, part.2 ≠ .null)
    (shared : combinedKind arguments.absorbed = some kind) (next : StorageId) :
    ∃ storage free, IsConcatenation arguments.absorbed kind storage ∧
      (combine arguments next).outcome = .ok (.vector storage
        ((combinedNames arguments.absorbed).map fun names => .mk none (some names) []), free) := by
  have more : ¬ (arguments.absorbed.all fun part => part.2.isNull) = true := by
    obtain ⟨part, member, other⟩ := something
    intro all
    have null := List.all_eq_true.mp all part member
    revert null other
    cases part.2 <;> simp [Value.isNull]
  rw [combine]
  dsimp only
  rw [if_neg more, shared]
  -- Items need a free identity for their list, atoms do not.
  cases kind with
  | atomic kind =>
    have all := isConcatenation_atoms arguments.absorbed kind
    exact ⟨_, next, all, (outcome_mapM_bind ..).trans (outcome_named all.size_eq next)⟩
  | list =>
    have all := isConcatenation_items arguments.absorbed next
    exact ⟨_, next + 1, all, (outcome_mapM_bind ..).trans (outcome_named all.size_eq (next + 1))⟩
  | null => exact absurd rfl vectors.1
  | closure => exact absurd rfl vectors.2

/-- Putting values together never fails, and gives `NULL` exactly if there is nothing but `NULL`.
Otherwise it gives a stored vector of the kind that all have in common, with the elements of all
one after the other. -/
theorem combine_concatenates (arguments : Arguments)
    (ordinary : ∀ part ∈ arguments.absorbed, part.2.IsOrdinary) (next : StorageId) :
    ∃ result free, (combine arguments next).outcome = .ok (result, free) ∧
      (result = .null ↔ ∀ part ∈ arguments.absorbed, part.2 = .null) ∧
      (result ≠ .null → ∃ kind, IsCombinedKind arguments.absorbed kind ∧
        IsCombination arguments.absorbed kind result) := by
  -- `NULL` on its own is the one result without a kind, and is found before any kind is.
  by_cases nothing : ∀ part ∈ arguments.absorbed, part.2 = .null
  · refine ⟨.null, next, ?_, iff_of_true rfl nothing, fun other => absurd rfl other⟩
    have all : (arguments.absorbed.all fun part => part.2.isNull) = true :=
      List.all_eq_true.mpr fun part member => by rw [nothing part member]; rfl
    rw [combine]
    dsimp only
    rw [if_pos all]
    rfl
  · have something : ∃ part ∈ arguments.absorbed, part.2 ≠ .null := by
      simpa only [not_forall, exists_prop] using nothing
    obtain ⟨kind, vectors, shared⟩ := exists_isCombinedKind ordinary something
    obtain ⟨storage, free, all, outcome⟩ :=
      outcome_combine vectors something (isCombinedKind_iff.mp shared) next
    refine ⟨_, free, outcome, iff_of_false (fun null => ?_) nothing, fun _ => ?_⟩
    · cases null
    · exact ⟨kind, shared, all.isCombination⟩

/-- With a lazy vector under a name, a function without one, `NULL`, and a vector that has a name
for one of its elements. -/
theorem combine_concatenates_partlyNamed :
    let counted := Value.vector (.view (.range ⟨2, by decide⟩)) none
    let partly := Value.vector (.atoms .double [⟨0⟩, ⟨1⟩])
      (some (.mk none (some [some "a", none]) []))
    let formals : Formals := ⟨"c", [⟨"...", false⟩], by simp, by simp [Symbol.dots]⟩
    let arguments : Arguments := ⟨formals, ⟨[], [0, 1, 2, 3], []⟩,
      [(some "x", counted), (none, .null), (some "y", partly), (none, .builtin "c" 0)]⟩
    ∃ kind result free, (combine arguments 5).outcome = .ok (result, free) ∧
      IsCombinedKind arguments.absorbed kind ∧ IsCombination arguments.absorbed kind result ∧
      kind = .list ∧
      result.names = some [some "x1", some "x2", some "y.a", some "y2", some ""] := by
  intro counted partly formals arguments
  have ordinary : ∀ part ∈ arguments.absorbed, part.2.IsOrdinary := by
    intro part member
    have either : part ∈ [(some "x", counted), (none, .null), (some "y", partly),
      (none, .builtin "c" 0)] := member
    simp only [List.mem_cons, List.not_mem_nil, or_false] at either
    rcases either with rfl | rfl | rfl | rfl
    · exact fun _ => Kind.hasVectors_atomic _
    · exact nofun
    · exact fun _ => Kind.hasVectors_atomic _
    · exact nofun
  obtain ⟨result, free, outcome, null_iff, otherwise⟩ := combine_concatenates arguments ordinary 5
  have more : result ≠ .null := fun null =>
    nomatch null_iff.mp null (some "x", counted) List.mem_cons_self
  obtain ⟨kind, shared, all⟩ := otherwise more
  -- The theorem says which name each element has; their text as a whole is computed.
  have names : (combine arguments 5).outcome.toOption.bind (fun r => r.1.names) = some
      [some "x1", some "x2", some "y.a", some "y2", some ""] := by
    decide +kernel
  refine ⟨kind, result, free, outcome, shared, all, ?_, ?_⟩
  · exact Option.some.inj ((isCombinedKind_iff.mp shared).symm.trans rfl)
  · rw [outcome] at names
    exact names

end Builtin

end Vectorial
