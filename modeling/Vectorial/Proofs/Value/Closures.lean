import Vectorial.Heap.References
import Vectorial.Value.Metadata

/-!
# The closures in a value

A value holds closures as list items, in attributes and behind views. Reading a value in
any way gives only closures that the value holds, so that whatever is true of all closures
in it stays true of what is read.

## Main definitions

* `Value.closures`: the closures in a value, wherever they are;
* `Scalar.closures`: the closures in one element.

## Main results

* `Value.environments_eq`: the frames that a value refers to are those of its closures;
* `Value.closures_element`, `Value.closures_items`: elements hold no other closures;
* `Value.closures_traced`, `Value.closures_withNames`: counters and names change nothing.
-/

namespace Vectorial

mutual

/-- The closures in a value, as often as they occur. -/
def Value.closures : Value → List (Layout × FrameId)
  | .null => []
  | .vector storage metadata => storage.closures ++ closuresOfMetadata metadata
  | .closure layout env => [(layout, env)]
  | .builtin .. => []

/-- The closures in a storage. -/
def Storage.closures : Storage → List (Layout × FrameId)
  | .atoms .. => []
  | .list _ items => closuresOfItems items
  | .view source => source.closures

/-- The closures behind a view. -/
def View.closures : View → List (Layout × FrameId)
  | .sequence _ => []
  | .range _ => []
  | .coerce source _ => source.closures
  | .traced _ inner => inner.closures

/-- The closures in list items. -/
def closuresOfItems : List Value → List (Layout × FrameId)
  | [] => []
  | item :: rest => item.closures ++ closuresOfItems rest

/-- The closures in metadata. -/
def closuresOfMetadata : Option Metadata → List (Layout × FrameId)
  | none => []
  | some (.mk _ _ attributes) => closuresOfAttributes attributes

/-- The closures in attributes. -/
def closuresOfAttributes : List (Symbol × Value) → List (Layout × FrameId)
  | [] => []
  | (_, value) :: rest => value.closures ++ closuresOfAttributes rest

end

/-- The closures in one element. -/
def Scalar.closures : Scalar → List (Layout × FrameId)
  | .atom _ => []
  | .item v => v.closures

/-- The closures in values with names. -/
def Parts.closures (parts : Parts) : List (Layout × FrameId) :=
  parts.flatMap fun part => part.2.closures

/-! ### Frames -/

mutual

/-- The frames that a value refers to are the frames of its closures. -/
theorem Value.environments_eq : ∀ v : Value, v.environments = v.closures.map Prod.snd
  | .null => rfl
  | .vector storage metadata => by
    rw [Value.environments, Value.closures, storage.environments_eq,
      environmentsOfMetadata_eq, List.map_append]
  | .closure .. => rfl
  | .builtin .. => rfl

theorem Storage.environments_eq :
    ∀ storage : Storage, storage.environments = storage.closures.map Prod.snd
  | .atoms .. => rfl
  | .list _ items => by rw [Storage.environments, Storage.closures, environmentsOfItems_eq]
  | .view source => by rw [Storage.environments, Storage.closures, source.environments_eq]

theorem View.environments_eq : ∀ view : View, view.environments = view.closures.map Prod.snd
  | .sequence _ => rfl
  | .range _ => rfl
  | .coerce source _ => by rw [View.environments, View.closures, source.environments_eq]
  | .traced _ inner => by rw [View.environments, View.closures, inner.environments_eq]

theorem environmentsOfItems_eq :
    ∀ items : List Value, environmentsOfItems items = (closuresOfItems items).map Prod.snd
  | [] => rfl
  | item :: rest => by
    rw [environmentsOfItems, closuresOfItems, item.environments_eq, environmentsOfItems_eq,
      List.map_append]

theorem environmentsOfMetadata_eq : ∀ metadata : Option Metadata,
    environmentsOfMetadata metadata = (closuresOfMetadata metadata).map Prod.snd
  | none => rfl
  | some (.mk _ _ attributes) => by
    rw [environmentsOfMetadata, closuresOfMetadata, environmentsOfAttributes_eq]

theorem environmentsOfAttributes_eq : ∀ attributes : List (Symbol × Value),
    environmentsOfAttributes attributes = (closuresOfAttributes attributes).map Prod.snd
  | [] => rfl
  | (_, value) :: rest => by
    rw [environmentsOfAttributes, closuresOfAttributes, value.environments_eq,
      environmentsOfAttributes_eq, List.map_append]

end

/-! ### Stored vectors -/

@[simp]
theorem Value.closures_null : Value.null.closures = [] :=
  rfl

@[simp]
theorem Value.closures_builtin (name : Symbol) (handle : Nat) :
    (Value.builtin name handle).closures = [] :=
  rfl

@[simp]
theorem Value.closures_ofAtoms (kind : ElementKind) (elements : List kind.Carrier) :
    (Value.ofAtoms kind elements).closures = [] :=
  rfl

@[simp]
theorem Value.closures_ofAtom (a : Atom) : (Value.ofAtom a).closures = [] :=
  rfl

@[simp]
theorem Value.closures_ofInteger (i : Int32) : (Value.ofInteger i).closures = [] :=
  rfl

@[simp]
theorem Value.closures_ofBool (b : Bool) : (Value.ofBool b).closures = [] :=
  rfl

theorem mem_closuresOfItems {c : Layout × FrameId} {items : List Value} :
    c ∈ closuresOfItems items ↔ ∃ item ∈ items, c ∈ item.closures := by
  induction items with
  | nil => simp [closuresOfItems]
  | cons item rest ih => simp [closuresOfItems, ih]

@[simp]
theorem Value.closures_ofItems (id : StorageId) (items : List Value) :
    (Value.ofItems id items).closures = closuresOfItems items := by
  simp [Value.ofItems, Value.closures, Storage.closures, closuresOfMetadata]

@[simp]
theorem Value.closures_ofNamedItems (id : StorageId) (parts : Parts) :
    (Value.ofNamedItems id parts).closures = closuresOfItems (parts.map Prod.snd) := by
  simp [Value.ofNamedItems, Value.closures, Storage.closures, closuresOfMetadata,
    closuresOfAttributes]

theorem Parts.closures_eq (parts : Parts) :
    parts.closures = closuresOfItems (parts.map Prod.snd) := by
  induction parts with
  | nil => rfl
  | cons part rest ih =>
    rw [List.map_cons, closuresOfItems, ← ih]
    rfl

theorem Value.closures_ofParts (id : StorageId) (parts : Parts) :
    (Value.ofParts id parts).closures = parts.closures := by
  rw [Value.ofParts]
  split <;> simp [Parts.closures_eq]

theorem Value.closures_zeroed (id : StorageId) (kind : Kind) (length : Nat) :
    (Value.zeroed id kind length).closures = [] := by
  cases kind with
  | list =>
    rw [Value.zeroed, Value.closures_ofItems, List.eq_nil_iff_forall_not_mem]
    intro c held
    obtain ⟨item, member, inside⟩ := mem_closuresOfItems.mp held
    rw [List.eq_of_mem_replicate member] at inside
    simp at inside
  | atomic kind => rfl
  | null => rfl
  | closure => rfl

theorem Value.closures_sequence {start stop step : Int32} {v : Value}
    (made : Value.sequence start stop step = .ok v) : v.closures = [] := by
  rw [Value.sequence] at made
  cases made' : Progression.of start stop step with
  | error defect => rw [made'] at made; cases made
  | ok p => rw [made'] at made; cases made; rfl

theorem Value.closures_upTo {stop : Int32} {v : Value} (made : Value.upTo stop = .ok v) :
    v.closures = [] := by
  rw [Value.upTo] at made
  cases made' : UpTo.of stop with
  | error defect => rw [made'] at made; cases made
  | ok r => rw [made'] at made; cases made; rfl

/-! ### Reading -/

mutual

/-- An element holds only closures that the value holds. -/
theorem Value.closures_element :
    ∀ (v : Value) (index : Nat), (v.element index).value.closures ⊆ v.closures
  | .null, _ => fun _ held => held
  | .vector storage _, index => fun _ held =>
    List.mem_append_left _ (storage.closures_element index held)
  | .closure .., _ => fun _ held => held
  | .builtin .., _ => fun _ held => held

theorem Storage.closures_element :
    ∀ (storage : Storage) (index : Nat), (storage.element index).value.closures ⊆ storage.closures
  | .atoms .., _ => fun _ held => held
  | .list _ items, index => fun c held => by
    cases found : items[index]? with
    | none => simp [Storage.element, found, Scalar.closures] at held
    | some item =>
      simp only [Storage.element, found, Metered.value_pure, Scalar.closures,
        Option.getD_some] at held
      exact mem_closuresOfItems.mpr ⟨item, List.mem_of_getElem? found, held⟩
  | .view source, index => source.closures_element index

theorem View.closures_element :
    ∀ (view : View) (index : Nat), (view.element index).value.closures ⊆ view.closures
  | .sequence _, _ => fun _ held => held
  | .range _, _ => fun _ held => held
  | .coerce source (.atomic target), index => fun _ held => nomatch held
  | .coerce source .list, index => fun c held => by
    apply source.closures_element index
    simp only [View.element, Metered.value_bind, Metered.value_pure, Scalar.closures] at held
    cases read : (source.element index).value with
    | atom a => rw [read] at held; simp [Scalar.toItem] at held
    | item v => rw [read] at held; exact held
  | .coerce source .null, index => source.closures_element index
  | .coerce source .closure, index => source.closures_element index
  | .traced _ inner, index => inner.closures_element index

end

theorem Scalar.closures_toItem (s : Scalar) : s.toItem.closures = s.closures := by
  cases s <;> rfl

theorem Value.closures_elements {v : Value} {s : Scalar} (read : s ∈ v.elements.value) :
    s.closures ⊆ v.closures := by
  -- Atoms and items are handed out as they are stored; all other values are read one element after
  -- the other.
  have single (v : Value) (read : s ∈ ((List.range v.size).mapM v.element).value) :
      s.closures ⊆ v.closures := by
    rw [Metered.value_mapM, List.mem_map] at read
    obtain ⟨index, -, rfl⟩ := read
    exact Value.closures_element v index
  cases v with
  | null => exact single _ read
  | closure layout env => exact single _ read
  | builtin name handle => exact single _ read
  | vector storage metadata =>
    cases storage with
    | atoms kind elements =>
      simp only [Value.elements, Metered.value_pure, List.mem_map] at read
      obtain ⟨x, -, rfl⟩ := read
      exact List.nil_subset _
    | list id items =>
      simp only [Value.elements, Metered.value_pure, List.mem_map] at read
      obtain ⟨item, member, rfl⟩ := read
      exact fun c held => List.mem_append_left _ (mem_closuresOfItems.mpr ⟨item, member, held⟩)
    | view source => exact single _ read

/-- The list items that a value is read as hold only its closures. -/
theorem Value.closures_items {v item : Value} (read : item ∈ v.items.value) :
    item.closures ⊆ v.closures := by
  simp only [Value.items, Metered.value_bind, Metered.value_pure, List.mem_map] at read
  obtain ⟨s, member, rfl⟩ := read
  rw [Scalar.closures_toItem]
  exact Value.closures_elements member

/-! ### Counters and names -/

theorem mem_setEntry {α : Type} {name : Symbol} {value : α} {entries : List (Symbol × α)}
    {entry : Symbol × α} (member : entry ∈ setEntry name value entries) :
    entry = (name, value) ∨ entry ∈ entries := by
  induction entries with
  | nil => exact .inl (by simpa [setEntry] using member)
  | cons first rest ih =>
    simp only [setEntry] at member
    split at member
    · rcases List.mem_cons.mp member with here | later
      · exact .inl here
      · exact .inr (List.mem_cons_of_mem _ later)
    · rcases List.mem_cons.mp member with rfl | later
      · exact .inr List.mem_cons_self
      · exact (ih later).imp_right (List.mem_cons_of_mem _)

@[simp]
theorem Value.closures_traced (fresh : TraceId) (v : Value) :
    (v.traced fresh).closures = v.closures := by
  unfold Value.traced
  split <;> rfl

theorem Value.closures_withNames {v named : Value} {names : List (Option String)}
    (made : v.withNames names = .ok named) : named.closures = v.closures := by
  rw [Value.withNames] at made
  split at made
  · cases made
  · cases made
    cases v with
    | null => rfl
    | closure layout env => rfl
    | builtin name handle => rfl
    | vector storage metadata =>
      cases metadata with
      | none =>
        simp [Value.mapMetadata, Value.closures, Metadata.setNames, Metadata.empty,
          Metadata.attributes, closuresOfMetadata, closuresOfAttributes]
      | some metadata =>
        cases metadata
        rfl

end Vectorial
