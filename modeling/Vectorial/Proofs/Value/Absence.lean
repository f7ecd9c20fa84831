import Vectorial.Proofs.Binary64.Equality
import Vectorial.Proofs.Value.Promotion

/-!
# Missing elements survive coercion

What is missing is missing in every kind, and zero as a byte, which has no mark for it. A list
wraps a missing element in a vector and is not missing itself, but taken out again the element
is still missing. Hence bytes alone lose the mark: through any other kinds, one after the other,
and through views that are nested as deeply, a missing element stays one.

## Main definitions

* `Scalar.IsAbsent`: the elements of a kind that stand for a missing one;
* `Value.Misses`: a value shows such an element at an index.

## Main results

* `Atom.isMissing_asKind_of_isMissing`, `Atom.toRaw_of_isMissing`: one step, atom by atom;
* `Scalar.IsAbsent.coerce`, `Value.Misses.viewedAs`, `Value.Misses.exists_coerceTo`: one step
  for elements, views and values;
* `Value.absence_survives`: chains of coercions.
-/

namespace Vectorial

/-- A complex number with a missing part has a part that is no number. -/
theorem Complex.isNaN_of_isMissing {c : Complex} (missing : c.isMissing) :
    (c.re.isNaN || c.im.isNaN) = true := by
  rw [Complex.isMissing, Bool.or_eq_true] at missing
  rw [Bool.or_eq_true]
  exact missing.imp Binary64.isNaN_of_isMissing Binary64.isNaN_of_isMissing

namespace Atom

variable {a : Atom}

/-- A missing element is the mark of its kind, unless it is complex and one part is enough. -/
theorem value_eq_missing (missing : a.isMissing) (other : a.kind ≠ .complex) :
    a.value = a.kind.missing := by
  obtain ⟨own, x⟩ := a
  cases own with
  | logical => exact beq_iff_eq.mp missing
  | raw => cases missing
  | integer => exact beq_iff_eq.mp missing
  | double => exact beq_iff_eq.mp missing
  | complex => exact absurd rfl other
  | character => exact Option.isNone_iff_eq_none.mp missing

/-- What is missing is missing in every kind that has a mark for it. -/
theorem isMissing_asKind_of_isMissing (kind : ElementKind) (missing : a.isMissing)
    (marked : kind ≠ .raw) : kind.isMissing (a.asKind kind) := by
  -- A complex number is missing as soon as one of its parts is, so there is more than one of them;
  -- every other kind has a single missing value, for which all conversions are computed.
  by_cases complex : a.kind = .complex
  · obtain ⟨own, c⟩ := a
    obtain rfl : own = .complex := complex
    have absent : Complex.isMissing c = true := missing
    cases kind with
    | logical => exact beq_iff_eq.mpr (if_pos (Complex.isNaN_of_isMissing absent))
    | raw => exact absurd rfl marked
    | integer => exact beq_iff_eq.mpr (if_pos absent)
    | double => exact beq_iff_eq.mpr (if_pos absent)
    | complex => exact absent
    | character => exact Option.isNone_iff_eq_none.mpr (if_pos absent)
  · have value := value_eq_missing missing complex
    obtain ⟨own, x⟩ := a
    obtain rfl : x = own.missing := value
    revert missing marked
    cases own <;> cases kind <;> decide

/-- As a byte it is zero. -/
theorem toRaw_of_isMissing (missing : a.isMissing) : a.toRaw = 0 := by
  by_cases complex : a.kind = .complex
  · obtain ⟨own, c⟩ := a
    obtain rfl : own = .complex := complex
    exact if_pos missing
  · have value := value_eq_missing missing complex
    obtain ⟨own, x⟩ := a
    obtain rfl : x = own.missing := value
    cases own <;> decide

end Atom

/-! ### Elements -/

namespace Scalar

/-- An element of the kind that stands for a missing one: a missing atom of the kind, the zero
byte, or as a list item the vector of a missing atom alone. -/
inductive IsAbsent : Kind → Scalar → Prop where
  | atom {a : Atom} (missing : a.isMissing) : IsAbsent (.atomic a.kind) (.atom a)
  | byte : IsAbsent (.atomic .raw) (.atom ⟨.raw, (0 : UInt8)⟩)
  | item {a : Atom} (missing : a.isMissing) : IsAbsent .list (.item (.ofAtom a))

variable {own target : Kind} {s : Scalar}

theorem IsAbsent.kind_eq (absent : s.IsAbsent own) : s.kind = own := by
  cases absent <;> rfl

theorem isAbsent_asKind {a : Atom} (missing : a.isMissing) (kind : ElementKind) :
    (atom ⟨kind, a.asKind kind⟩).IsAbsent (.atomic kind) := by
  by_cases bytes : kind = .raw
  · subst bytes
    have zero : a.asKind .raw = (0 : UInt8) := Atom.toRaw_of_isMissing missing
    exact zero ▸ .byte
  · exact .atom (a := ⟨kind, _⟩) (Atom.isMissing_asKind_of_isMissing kind missing bytes)

/-- Coercion of a missing element, or of the list item that wraps it. -/
theorem IsAbsent.coerce (absent : s.IsAbsent own) (marked : own ≠ .atomic .raw)
    (vectors : target.HasVectors) : (s.coerce target).value.IsAbsent target := by
  cases target with
  | null => exact absurd rfl vectors.1
  | closure => exact absurd rfl vectors.2
  | atomic kind =>
    cases absent with
    | atom missing => exact isAbsent_asKind missing kind
    | byte => exact absurd rfl marked
    -- The item has one element, and is read as that.
    | item missing => exact isAbsent_asKind missing kind
  | list =>
    cases absent with
    | atom missing => exact .item missing
    | byte => exact absurd rfl marked
    | item missing => exact .item missing

end Scalar

/-! ### Values -/

namespace Value

variable {v : Value} {index : Nat} {own target : Kind}

/-- Whether there is an element at the index, and it stands for a missing one. -/
def Misses (v : Value) (index : Nat) (kind : Kind) : Prop :=
  ∃ s : Scalar, (v.get index).map Metered.value = .ok s ∧ s.IsAbsent kind

/-- What is found at an index is found inside. -/
theorem inside_of_get {s : Scalar} (found : (v.get index).map Metered.value = .ok s) :
    index < v.size ∧ (v.element index).value = s := by
  by_cases inside : index < v.size
  · rw [get_eq inside] at found
    exact ⟨inside, Except.ok.inj found⟩
  · cases v with
    | null => cases found
    | vector storage metadata =>
      rw [get, if_neg (c := index < storage.size) inside] at found
      cases found
    | closure layout env =>
      cases index with
      | zero => exact absurd Nat.one_pos inside
      | succ index => cases found
    | builtin name handle =>
      cases index with
      | zero => exact absurd Nat.one_pos inside
      | succ index => cases found

/-- A value that shows such an element is a vector. -/
theorem Misses.isVector (misses : v.Misses index own) : v.isVector := by
  obtain ⟨s, shown, absent⟩ := misses
  have element := (inside_of_get shown).2
  cases v with
  | null => cases shown
  | vector storage metadata => rfl
  | closure layout env =>
    subst element
    cases absent
  | builtin name handle =>
    subst element
    cases absent

theorem Misses.element (misses : v.Misses index own) :
    index < v.size ∧ (v.element index).value.IsAbsent own := by
  obtain ⟨s, shown, absent⟩ := misses
  obtain ⟨inside, rfl⟩ := inside_of_get shown
  exact ⟨inside, absent⟩

theorem misses_of_element (inside : index < v.size)
    (absent : (v.element index).value.IsAbsent own) : v.Misses index own :=
  ⟨_, congrArg (Except.map Metered.value) (get_eq inside), absent⟩

/-- A coercing view of a missing element. -/
theorem Misses.viewedAs (misses : v.Misses index own) (marked : own ≠ .atomic .raw)
    (vectors : target.HasVectors) : (v.viewedAs target).Misses index target := by
  have vector := misses.isVector
  obtain ⟨inside, absent⟩ := misses.element
  have sizes : (v.viewedAs target).size = v.size := by cases v <;> rfl
  refine misses_of_element (sizes ▸ inside) ?_
  rw [element_viewedAs vector vectors inside]
  exact absent.coerce marked vectors

/-- Coercion of the whole vector, which is left alone if it is of the kind already. -/
theorem Misses.exists_coerceTo (misses : v.Misses index own) (marked : own ≠ .atomic .raw)
    (vectors : target.HasVectors) : ∃ w, v.coerceTo target = .ok w ∧ w.Misses index target := by
  have vector := misses.isVector
  obtain ⟨inside, absent⟩ := misses.element
  by_cases same : v.kind = target
  · subst same
    refine ⟨v, coerceTo_self vectors rfl, ?_⟩
    rwa [← kind_element (fun _ => vectors) vector inside, absent.kind_eq]
  · exact ⟨_, coerceTo_of_ne vector vectors same, misses.viewedAs marked vectors⟩

/-! ### Chains -/

variable {chain : List Kind}

/-- A chain of steps that may fail or count, as a chain of steps from what is already done. -/
theorem foldl_bind {m : Type → Type} [Monad m] [LawfulMonad m] {α : Type}
    (step : α → Kind → m α) (done : m α) :
    chain.foldl (fun x kind => x >>= fun a => step a kind) done =
      done >>= fun a => chain.foldlM step a := by
  induction chain generalizing done with
  | nil => exact (bind_pure done).symm
  | cons kind rest ih => simp only [List.foldl_cons, List.foldlM_cons, ih, bind_assoc]

/-- What each step keeps, from the second on if it does not start from bytes, a chain keeps that
leads to bytes at most with its last step. -/
theorem foldl_absent {α : Type} (absent : Kind → α → Prop) (next : α → Kind → α)
    (step : ∀ {own target x}, absent own x → own ≠ .atomic .raw → target.HasVectors →
      absent target (next x target))
    (vectors : ∀ kind ∈ chain, kind.HasVectors) (marked : .atomic .raw ∉ (own :: chain).dropLast)
    {x : α} (start : absent own x) : absent (chain.getLastD own) (chain.foldl next x) := by
  -- Each step turns the kind of the next one, and what is kept, into those of the step.
  induction chain generalizing own x with
  | nil => exact start
  | cons kind rest ih =>
    rw [List.dropLast_cons_cons, List.mem_cons, not_or] at marked
    rw [List.getLastD_cons, List.foldl_cons]
    exact ih (fun kind member => vectors kind (List.mem_cons_of_mem _ member)) marked.2
      (step start (Ne.symm marked.1) (vectors kind List.mem_cons_self))

/-- A missing element is brought to other kinds, one after the other, none of them raw but the
last at most: by itself, or at any index of any value, through a view for every step or through
coercion of the whole value, which never fails. It ends as the element of the last kind that
stands for a missing one. -/
theorem absence_survives (a : Atom) (missing : a.isMissing) (chain : List Kind)
    (vectors : ∀ kind ∈ chain, kind.HasVectors) (marked : .atomic .raw ∉ chain.dropLast) :
    (chain.foldlM Scalar.coerce (.atom a)).value.IsAbsent (chain.getLastD (.atomic a.kind)) ∧
    ∀ v index, (Value.get v index).map Metered.value = .ok (.atom a) →
      (chain.foldl viewedAs v).Misses index (chain.getLastD (.atomic a.kind)) ∧
      ∃ w, chain.foldlM coerceTo v = .ok w ∧
        w.Misses index (chain.getLastD (.atomic a.kind)) := by
  -- A missing element is no byte, so that the first step starts from a kind with a mark as well.
  have marked : .atomic .raw ∉ (.atomic a.kind :: chain).dropLast := by
    cases chain with
    | nil => exact List.not_mem_nil
    | cons kind rest =>
      rw [List.dropLast_cons_cons, List.mem_cons, not_or]
      refine ⟨fun same => ?_, marked⟩
      obtain ⟨own, x⟩ := a
      obtain rfl : .raw = own := Kind.atomic.inj same
      cases missing
  refine ⟨?_, fun v index shown => ⟨?_, ?_⟩⟩
  · have kept := foldl_absent (fun own (s : Metered Scalar) => s.value.IsAbsent own)
      (fun x kind => x >>= fun s => s.coerce kind)
      (fun absent marked vectors => absent.coerce marked vectors)
      vectors marked (x := pure (.atom a)) (.atom missing)
    rwa [foldl_bind, pure_bind] at kept
  · exact foldl_absent (fun own (v : Value) => v.Misses index own) viewedAs
      (fun misses marked vectors => misses.viewedAs marked vectors)
      vectors marked ⟨_, shown, .atom missing⟩
  · have kept := foldl_absent
      (fun own (v : Except Cause Value) => ∃ w, v = .ok w ∧ w.Misses index own)
      (fun x kind => x >>= fun w => w.coerceTo kind)
      (fun ⟨_, made, misses⟩ marked vectors => made ▸ misses.exists_coerceTo marked vectors)
      vectors marked (x := .ok v) ⟨v, rfl, _, shown, .atom missing⟩
    rwa [foldl_bind] at kept

/-- A complex number of which one part is missing goes through lists and texts to bytes, alone
and as the second element of a vector. -/
theorem absence_survives_missingPart :
    let c : Complex := ⟨.zero true, .missing⟩
    let v := ofAtoms .complex [⟨.zero false, .zero false⟩, c]
    let chain : List Kind := [.list, .atomic .integer, .atomic .character, .list]
    let further := chain ++ [Kind.atomic .raw]
    (chain.foldlM Scalar.coerce (.atom ⟨.complex, c⟩)).value.IsAbsent .list ∧
      (chain.foldl viewedAs v).Misses 1 .list ∧
      (further.foldl viewedAs v).Misses 1 (.atomic .raw) ∧
      ∃ w, further.foldlM coerceTo v = .ok w ∧ w.Misses 1 (.atomic .raw) := by
  intro c v chain further
  have missing : Atom.isMissing ⟨.complex, c⟩ := by decide
  have shown : (v.get 1).map Metered.value = .ok (.atom ⟨.complex, c⟩) := rfl
  obtain ⟨alone, within⟩ := absence_survives ⟨.complex, c⟩ missing chain
    (by simp [chain, Kind.HasVectors]) (by decide)
  have bytes := (absence_survives ⟨.complex, c⟩ missing further
    (by simp [further, chain, Kind.HasVectors]) (by decide)).2
  exact ⟨alone, (within v 1 shown).1, bytes v 1 shown⟩

end Value

end Vectorial
