import Vectorial.Proofs.Value.Search

/-!
# Closures in lists inside lists

A search of a value sees every closure in it if no closure is in an attribute or behind a
view. Of the frames it finds, those of the value itself and of the items of its list are found
as they are. The search takes its own copy of an item before it looks into the item, so what
is in a list inside the list looks shared, even if no other value has either of the lists.

## Main definitions

* `Value.IsPlain`: no closure is in an attribute or behind a view;
* `Value.nested`: the frames of the closures in lists inside the list of a value.

## Main results

* `Value.count_environments`: a frame is held as often as the value and its lists hold it;
* `Value.mem_edges_iff`: a search of a plain value finds all its frames;
* `Value.count_environments_le`: those that are not nested are found to be owned;
* `Value.shared_mem_edges_iff`: those that are nested look shared, and no others.
-/

namespace Vectorial

variable {id : FrameId}

mutual

/-- Whether no closure in a value is in an attribute or behind a view. -/
def Value.IsPlain : Value → Prop
  | .null => True
  | .vector storage metadata => storage.IsPlain ∧ environmentsOfMetadata metadata = []
  | .closure .. => True
  | .builtin .. => True

/-- Whether no closure in a storage is in an attribute or behind a view. -/
def Storage.IsPlain : Storage → Prop
  | .atoms .. => True
  | .list _ items => ArePlain items
  | .view source => source.environments = []

/-- Whether no closure in list items is in an attribute or behind a view. -/
def ArePlain : List Value → Prop
  | [] => True
  | item :: rest => item.IsPlain ∧ ArePlain rest

end

/-- The frames of the closures in a value that is not a closure itself. -/
def Value.inside : Value → List FrameId
  | .vector storage metadata => (Value.vector storage metadata).environments
  | _ => []

/-- The frames of the closures in a value that are in a list inside its list, or in an
attribute or behind a view there. -/
def Value.nested : Value → List FrameId
  | .vector (.list _ items) _ => items.flatMap Value.inside
  | _ => []

/-! ### How often a frame is held -/

mutual

/-- A frame is held as often as the value and its lists hold it directly. -/
theorem Value.count_environments (id : FrameId) : ∀ v : Value,
    v.environments.count id =
      v.direct.count id + (v.lists.flatMap fun list => list.2.flatMap Value.direct).count id
  | .null => rfl
  | .vector storage metadata => by
    rw [Value.environments, Value.direct, Value.lists, List.flatMap_append]
    simp only [List.count_append]
    rw [storage.count_environments id, count_environmentsOfMetadata id metadata]
    omega
  | .closure .. => rfl
  | .builtin .. => rfl

theorem Storage.count_environments (id : FrameId) : ∀ storage : Storage,
    storage.environments.count id = storage.direct.count id +
      (storage.lists.flatMap fun list => list.2.flatMap Value.direct).count id
  | .atoms .. => rfl
  | .list _ items => by
    rw [Storage.environments, Storage.direct, Storage.lists, List.flatMap_cons,
      List.count_append, count_environmentsOfItems id items, List.count_nil, Nat.zero_add]
  | .view source => source.count_environments id

theorem View.count_environments (id : FrameId) : ∀ view : View,
    view.environments.count id = view.direct.count id +
      (view.lists.flatMap fun list => list.2.flatMap Value.direct).count id
  | .sequence _ => rfl
  | .range _ => rfl
  | .coerce source _ => source.count_environments id
  | .traced _ inner => inner.count_environments id

theorem count_environmentsOfItems (id : FrameId) : ∀ items : List Value,
    (environmentsOfItems items).count id = (items.flatMap Value.direct).count id +
      ((listsOfItems items).flatMap fun list => list.2.flatMap Value.direct).count id
  | [] => rfl
  | item :: rest => by
    rw [environmentsOfItems, listsOfItems, List.flatMap_cons, List.flatMap_append]
    simp only [List.count_append]
    rw [item.count_environments id, count_environmentsOfItems id rest]
    omega

theorem count_environmentsOfMetadata (id : FrameId) : ∀ metadata : Option Metadata,
    (environmentsOfMetadata metadata).count id = (directOfMetadata metadata).count id +
      ((listsOfMetadata metadata).flatMap fun list => list.2.flatMap Value.direct).count id
  | none => rfl
  | some (.mk _ _ attributes) => count_environmentsOfAttributes id attributes

theorem count_environmentsOfAttributes (id : FrameId) : ∀ attributes : List (Symbol × Value),
    (environmentsOfAttributes attributes).count id = (directOfAttributes attributes).count id +
      ((listsOfAttributes attributes).flatMap fun list => list.2.flatMap Value.direct).count id
  | [] => rfl
  | (_, value) :: rest => by
    rw [environmentsOfAttributes, directOfAttributes, listsOfAttributes, List.flatMap_append]
    simp only [List.count_append]
    rw [value.count_environments id, count_environmentsOfAttributes id rest]
    omega

end

/-! ### What is found is there -/

mutual

/-- A search finds only frames that are held. -/
theorem Value.edges_subset (f : StorageId → Bool) (edge : Edge) : ∀ v : Value,
    (v.edges f edge).map Prod.fst ⊆ v.environments
  | .null => List.Subset.refl _
  | .vector storage metadata => by
    rw [Value.edges, List.map_append]
    exact List.append_subset.mpr
      ⟨List.subset_append_of_subset_left _ (storage.edges_subset f edge),
        List.subset_append_of_subset_right _ (edgesOfMetadata_subset metadata)⟩
  | .closure .. => List.Subset.refl _
  | .builtin .. => List.Subset.refl _

theorem Storage.edges_subset (f : StorageId → Bool) (edge : Edge) : ∀ storage : Storage,
    (storage.edges f edge).map Prod.fst ⊆ storage.environments
  | .atoms .. => List.Subset.refl _
  | .list _ items => edgesOfItems_subset _ items
  | .view _ => List.nil_subset _

theorem edgesOfItems_subset (edge : Edge) : ∀ items : List Value,
    (edgesOfItems edge items).map Prod.fst ⊆ environmentsOfItems items
  | [] => List.Subset.refl _
  | item :: rest => by
    rw [edgesOfItems, List.map_append]
    exact List.append_subset.mpr
      ⟨List.subset_append_of_subset_left _ (item.edges_subset _ edge),
        List.subset_append_of_subset_right _ (edgesOfItems_subset edge rest)⟩

theorem edgesOfMetadata_subset : ∀ metadata : Option Metadata,
    (edgesOfMetadata metadata).map Prod.fst ⊆ environmentsOfMetadata metadata
  | none => List.Subset.refl _
  | some (.mk _ _ attributes) => edgesOfAttributes_subset attributes

theorem edgesOfAttributes_subset : ∀ attributes : List (Symbol × Value),
    (edgesOfAttributes attributes).map Prod.fst ⊆ environmentsOfAttributes attributes
  | [] => List.Subset.refl _
  | (_, value) :: rest => by
    rw [edgesOfAttributes, List.map_append]
    exact List.append_subset.mpr
      ⟨List.subset_append_of_subset_left _ (value.edges_subset _ .shared),
        List.subset_append_of_subset_right _ (edgesOfAttributes_subset rest)⟩

end

/-! ### Plain values -/

mutual

/-- A search misses no frame of a plain value. -/
theorem Value.IsPlain.subset_edges (f : StorageId → Bool) (edge : Edge) : ∀ {v : Value},
    v.IsPlain → v.environments ⊆ (v.edges f edge).map Prod.fst
  | .null, _ => List.Subset.refl _
  | .vector storage metadata, plain => by
    obtain ⟨stored, bare⟩ := plain
    rw [Value.environments, Value.edges, List.map_append, bare, List.append_nil]
    exact List.subset_append_of_subset_left _ (stored.subset_edges f edge)
  | .closure .., _ => List.Subset.refl _
  | .builtin .., _ => List.Subset.refl _

theorem Storage.IsPlain.subset_edges (f : StorageId → Bool) (edge : Edge) :
    ∀ {storage : Storage}, storage.IsPlain →
      storage.environments ⊆ (storage.edges f edge).map Prod.fst
  | .atoms .., _ => List.Subset.refl _
  | .list _ _, plain => ArePlain.subset_edges _ plain
  | .view source, plain => by
    rw [Storage.IsPlain] at plain
    rw [Storage.environments, plain]
    exact List.nil_subset _

theorem ArePlain.subset_edges (edge : Edge) : ∀ {items : List Value}, ArePlain items →
    environmentsOfItems items ⊆ (edgesOfItems edge items).map Prod.fst
  | [], _ => List.Subset.refl _
  | _ :: _, plain => by
    obtain ⟨first, others⟩ := plain
    rw [environmentsOfItems, edgesOfItems, List.map_append]
    exact List.append_subset.mpr
      ⟨List.subset_append_of_subset_left _ (first.subset_edges _ edge),
        List.subset_append_of_subset_right _ (ArePlain.subset_edges edge others)⟩

end

/-- A search of a plain value finds the frames that it holds. -/
theorem Value.IsPlain.mem_edges_iff {v : Value} (plain : v.IsPlain) (f : StorageId → Bool)
    (edge : Edge) : id ∈ (v.edges f edge).map Prod.fst ↔ id ∈ v.environments :=
  ⟨fun found => v.edges_subset f edge found, fun held => plain.subset_edges f edge held⟩

theorem ArePlain.of_mem : ∀ {items : List Value}, ArePlain items → ∀ item ∈ items, item.IsPlain
  | _ :: _, plain, item, member => by
    rcases List.mem_cons.mp member with rfl | later
    · exact plain.1
    · exact ArePlain.of_mem plain.2 item later

/-! ### What is nested -/

/-- A frame that an item holds is the frame of the item, and owned, or inside the item. -/
theorem Value.count_environments_item_le (item : Value) :
    item.environments.count id ≤
      (ownedFrames (item.edges (fun _ => true) .owned)).count id + item.inside.count id := by
  cases item with
  | vector => exact Nat.le_add_left _ _
  | _ => exact Nat.le_refl _

theorem count_environments_items_le (items : List Value) :
    (environmentsOfItems items).count id ≤
      (ownedFrames (edgesOfItems .owned items)).count id +
        (items.flatMap Value.inside).count id := by
  induction items with
  | nil => exact Nat.le_refl _
  | cons item rest ih =>
    rw [environmentsOfItems, edgesOfItems, ownedFrames_append, List.flatMap_cons]
    simp only [List.count_append]
    have first : item.environments.count id ≤ _ := item.count_environments_item_le
    omega

/-- What an item finds to be shared is inside the item. -/
theorem Value.mem_inside_of_shared {item : Value}
    (found : (id, Edge.shared) ∈ item.edges (fun _ => true) .owned) : id ∈ item.inside := by
  cases item with
  | null => exact absurd found List.not_mem_nil
  | builtin => exact absurd found List.not_mem_nil
  | closure layout env => cases List.mem_singleton.mp found
  | vector storage metadata => exact Value.edges_subset _ _ _ (List.mem_map_of_mem found)

theorem Value.IsPlain.shared_of_mem_inside {item : Value} (plain : item.IsPlain)
    (inside : id ∈ item.inside) :
    (id, Edge.shared) ∈ item.edges (fun _ => true) .owned := by
  cases item with
  | vector storage metadata =>
    obtain ⟨edge, found, rfl⟩ := List.mem_map.mp (plain.subset_edges (fun _ => true) .owned inside)
    rwa [← storage.shared_of_mem_edges_item metadata edge found]
  | _ => exact absurd inside List.not_mem_nil

theorem Value.nested_subset (v : Value) : v.nested ⊆ v.environments := by
  have inside (item : Value) : item.inside ⊆ item.environments := by
    cases item with
    | vector => exact List.Subset.refl _
    | _ => exact List.nil_subset _
  have items (all : List Value) : all.flatMap Value.inside ⊆ environmentsOfItems all := by
    induction all with
    | nil => exact List.Subset.refl _
    | cons item rest ih =>
      exact List.append_subset.mpr
        ⟨List.subset_append_of_subset_left _ (inside item),
          List.subset_append_of_subset_right _ ih⟩
  cases v with
  | vector storage metadata =>
    cases storage with
    | list name all => exact List.subset_append_of_subset_left _ (items all)
    | _ => exact List.nil_subset _
  | _ => exact List.nil_subset _

theorem mem_edgesOfItems {edge : Edge} {found : FrameId × Edge} {items : List Value} :
    found ∈ edgesOfItems edge items ↔ ∃ item ∈ items, found ∈ item.edges (fun _ => true) edge := by
  induction items with
  | nil => simp [edgesOfItems]
  | cons item rest ih => simp [edgesOfItems, ih]

section Plain

variable {v : Value} {f : StorageId → Bool}

theorem edgesOfMetadata_eq_nil {metadata : Option Metadata}
    (bare : environmentsOfMetadata metadata = []) : edgesOfMetadata metadata = [] := by
  have none_found := edgesOfMetadata_subset metadata
  rw [bare] at none_found
  exact List.map_eq_nil_iff.mp (List.eq_nil_of_subset_nil none_found)

/-- A search of a plain value whose list is not shared is a search of the items. -/
theorem Value.IsPlain.edges_list {name : StorageId} {items : List Value}
    {metadata : Option Metadata} (plain : (Value.vector (.list name items) metadata).IsPlain)
    (unshared : f name = false) :
    (Value.vector (.list name items) metadata).edges f .owned = edgesOfItems .owned items := by
  rw [Value.edges, Storage.edges, edgesOfMetadata_eq_nil plain.2, List.append_nil, unshared]
  rfl

/-- The frames of a plain value whose list is not shared are nested or found to be owned. -/
theorem Value.IsPlain.count_environments_le (plain : v.IsPlain)
    (unshared : ∀ name, f name = false) :
    v.environments.count id ≤ (ownedFrames (v.edges f .owned)).count id + v.nested.count id := by
  cases v with
  | vector storage metadata =>
    cases storage with
    | list name items =>
      rw [plain.edges_list (unshared name), Value.environments, plain.2, List.append_nil]
      exact count_environments_items_le items
    | atoms =>
      rw [Value.environments, plain.2]
      exact Nat.zero_le _
    | view source =>
      have empty : source.environments = [] := plain.1
      rw [Value.environments, plain.2, Storage.environments, empty]
      exact Nat.zero_le _
  | _ => exact Nat.le_refl _

/-- What looks shared in a plain value whose list is not shared is what is nested. -/
theorem Value.IsPlain.shared_mem_edges_iff (plain : v.IsPlain) (unshared : ∀ name, f name = false) :
    (id, Edge.shared) ∈ v.edges f .owned ↔ id ∈ v.nested := by
  cases v with
  | vector storage metadata =>
    cases storage with
    | list name items =>
      have items_plain : ArePlain items := plain.1
      rw [plain.edges_list (unshared name), mem_edgesOfItems, Value.nested, List.mem_flatMap]
      constructor
      · rintro ⟨item, member, found⟩
        exact ⟨item, member, Value.mem_inside_of_shared found⟩
      · rintro ⟨item, member, inside⟩
        exact ⟨item, member, (items_plain.of_mem item member).shared_of_mem_inside inside⟩
    | _ => simp [Value.edges, Storage.edges, edgesOfMetadata_eq_nil plain.2, Value.nested]
  | _ => simp [Value.edges, Value.nested]

end Plain

end Vectorial
