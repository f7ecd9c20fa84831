import Vectorial.Heap.References

/-!
# What a search of a value finds

A value holds every frame of its closures either directly or in one of its lists. A search
finds only some of them, and it takes only some of those for references of which there is
exactly one: the direct ones, and those in a list that no other value has.

## Main definitions

* `ownedFrames`: the frames found by a reference of which there is exactly one;
* `Value.ownList`, `Value.otherLists`: the list of a value, if no other value has it, and all
  other lists;
* `Value.ownReferences`: the references to frames that a value has of its own.

## Main results

* `Value.mem_environments`: frames are held directly or in a list;
* `Value.map_fst_edges`: which frames are found does not depend on what is shared;
* `Value.count_ownedFrames_le`: what is found to be owned is there;
* `Value.missed`: how a search can miss a frame.
-/

namespace Vectorial

variable {id : FrameId}

/-! ### Where frames are -/

mutual

/-- A frame that a value holds is held directly or in a list. -/
theorem Value.mem_environments : ∀ v : Value, id ∈ v.environments →
    id ∈ v.direct ∨ ∃ list ∈ v.lists, id ∈ list.2.flatMap Value.direct
  | .vector storage metadata, held => by
    rw [Value.direct, Value.lists]
    rcases List.mem_append.mp held with inside | inside
    · exact (storage.mem_environments inside).imp (List.mem_append_left _)
        fun ⟨list, member, listed⟩ => ⟨list, List.mem_append_left _ member, listed⟩
    · exact (mem_environmentsOfMetadata metadata inside).imp (List.mem_append_right _)
        fun ⟨list, member, listed⟩ => ⟨list, List.mem_append_right _ member, listed⟩
  | .closure .., held => .inl held

theorem Storage.mem_environments : ∀ storage : Storage, id ∈ storage.environments →
    id ∈ storage.direct ∨ ∃ list ∈ storage.lists, id ∈ list.2.flatMap Value.direct
  | .list name items, held => by
    refine .inr ?_
    rw [Storage.lists]
    rcases mem_environmentsOfItems items held with listed | ⟨list, member, listed⟩
    · exact ⟨(name, items), List.mem_cons_self, listed⟩
    · exact ⟨list, List.mem_cons_of_mem _ member, listed⟩
  | .view source, held => source.mem_environments held

theorem View.mem_environments : ∀ view : View, id ∈ view.environments →
    id ∈ view.direct ∨ ∃ list ∈ view.lists, id ∈ list.2.flatMap Value.direct
  | .coerce source _, held => source.mem_environments held
  | .traced _ inner, held => inner.mem_environments held

theorem mem_environmentsOfItems : ∀ items : List Value, id ∈ environmentsOfItems items →
    id ∈ items.flatMap Value.direct ∨
      ∃ list ∈ listsOfItems items, id ∈ list.2.flatMap Value.direct
  | item :: rest, held => by
    rw [List.flatMap_cons, listsOfItems]
    rcases List.mem_append.mp held with inside | inside
    · exact (item.mem_environments inside).imp (List.mem_append_left _)
        fun ⟨list, member, listed⟩ => ⟨list, List.mem_append_left _ member, listed⟩
    · exact (mem_environmentsOfItems rest inside).imp (List.mem_append_right _)
        fun ⟨list, member, listed⟩ => ⟨list, List.mem_append_right _ member, listed⟩

theorem mem_environmentsOfMetadata : ∀ metadata : Option Metadata,
    id ∈ environmentsOfMetadata metadata → id ∈ directOfMetadata metadata ∨
      ∃ list ∈ listsOfMetadata metadata, id ∈ list.2.flatMap Value.direct
  | some (.mk _ _ attributes), held => mem_environmentsOfAttributes attributes held

theorem mem_environmentsOfAttributes : ∀ attributes : List (Symbol × Value),
    id ∈ environmentsOfAttributes attributes → id ∈ directOfAttributes attributes ∨
      ∃ list ∈ listsOfAttributes attributes, id ∈ list.2.flatMap Value.direct
  | (_, value) :: rest, held => by
    rw [directOfAttributes, listsOfAttributes]
    rcases List.mem_append.mp held with inside | inside
    · exact (value.mem_environments inside).imp (List.mem_append_left _)
        fun ⟨list, member, listed⟩ => ⟨list, List.mem_append_left _ member, listed⟩
    · exact (mem_environmentsOfAttributes rest inside).imp (List.mem_append_right _)
        fun ⟨list, member, listed⟩ => ⟨list, List.mem_append_right _ member, listed⟩

end

/-! ### Which frames are found -/

mutual

/-- Which frames are found does not depend on what is shared. -/
theorem Value.map_fst_edges (f g : StorageId → Bool) (a b : Edge) : ∀ v : Value,
    (v.edges f a).map Prod.fst = (v.edges g b).map Prod.fst
  | .null => rfl
  | .vector storage metadata => by
    rw [Value.edges, Value.edges, List.map_append, List.map_append,
      storage.map_fst_edges f g a b]
  | .closure .. => rfl
  | .builtin .. => rfl

theorem Storage.map_fst_edges (f g : StorageId → Bool) (a b : Edge) : ∀ storage : Storage,
    (storage.edges f a).map Prod.fst = (storage.edges g b).map Prod.fst
  | .atoms .. => rfl
  | .list _ items => map_fst_edgesOfItems _ _ items
  | .view _ => rfl

theorem map_fst_edgesOfItems (a b : Edge) : ∀ items : List Value,
    (edgesOfItems a items).map Prod.fst = (edgesOfItems b items).map Prod.fst
  | [] => rfl
  | item :: rest => by
    rw [edgesOfItems, edgesOfItems, List.map_append, List.map_append,
      item.map_fst_edges _ (fun _ => true) a b, map_fst_edgesOfItems a b rest]

end

/-! ### What is found to be owned -/

/-- The frames found by a reference of which there is exactly one. -/
def ownedFrames (edges : List (FrameId × Edge)) : List FrameId :=
  (edges.filter fun edge => edge.2 = .owned).map Prod.fst

theorem ownedFrames_append (some more : List (FrameId × Edge)) :
    ownedFrames (some ++ more) = ownedFrames some ++ ownedFrames more := by
  rw [ownedFrames, List.filter_append, List.map_append]
  rfl

theorem ownedFrames_eq_nil {edges : List (FrameId × Edge)}
    (shared : ∀ edge ∈ edges, edge.2 = .shared) : ownedFrames edges = [] := by
  have none_owned : (edges.filter fun edge => edge.2 = .owned) = [] :=
    List.filter_eq_nil_iff.mpr fun edge member => by simp [shared edge member]
  rw [ownedFrames, none_owned, List.map_nil]

theorem ownedFrames_subset (edges : List (FrameId × Edge)) :
    ownedFrames edges ⊆ edges.map Prod.fst :=
  List.map_subset _ (List.filter_sublist).subset

mutual

/-- A search for shared references finds no others. -/
theorem Value.shared_of_mem_edges (f : StorageId → Bool) : ∀ v : Value,
    ∀ edge ∈ v.edges f .shared, edge.2 = .shared
  | .vector storage metadata, edge, found => by
    rcases List.mem_append.mp found with inside | inside
    · exact storage.shared_of_mem_edges f edge inside
    · exact shared_of_mem_edgesOfMetadata metadata edge inside
  | .closure .., edge, found => by rw [List.mem_singleton.mp found]

theorem Storage.shared_of_mem_edges (f : StorageId → Bool) : ∀ storage : Storage,
    ∀ edge ∈ storage.edges f .shared, edge.2 = .shared
  | .list name items, edge, found => by
    rw [Storage.edges, ite_self] at found
    exact shared_of_mem_edgesOfItems items edge found

theorem shared_of_mem_edgesOfItems : ∀ items : List Value,
    ∀ edge ∈ edgesOfItems .shared items, edge.2 = .shared
  | item :: rest, edge, found => by
    rcases List.mem_append.mp found with inside | inside
    · exact item.shared_of_mem_edges _ edge inside
    · exact shared_of_mem_edgesOfItems rest edge inside

theorem shared_of_mem_edgesOfMetadata : ∀ metadata : Option Metadata,
    ∀ edge ∈ edgesOfMetadata metadata, edge.2 = .shared
  | some (.mk _ _ attributes), edge, found =>
    shared_of_mem_edgesOfAttributes attributes edge found

theorem shared_of_mem_edgesOfAttributes : ∀ attributes : List (Symbol × Value),
    ∀ edge ∈ edgesOfAttributes attributes, edge.2 = .shared
  | (_, value) :: rest, edge, found => by
    rcases List.mem_append.mp found with inside | inside
    · exact value.shared_of_mem_edges _ edge inside
    · exact shared_of_mem_edgesOfAttributes rest edge inside

end

/-- The list of a value with its items, if no other value has the list. -/
def Value.ownList (isShared : StorageId → Bool) : Value → Option (StorageId × List Value)
  | .vector (.list name items) _ => if isShared name then none else some (name, items)
  | _ => none

/-- The other lists in a value. -/
def Value.otherLists (isShared : StorageId → Bool) (v : Value) : List (StorageId × List Value) :=
  if (v.ownList isShared).isSome then v.lists.tail else v.lists

theorem Value.unshared_of_ownList {f : StorageId → Bool} {v : Value}
    {list : StorageId × List Value} (own : v.ownList f = some list) : f list.1 = false := by
  unfold ownList at own
  split at own
  · split at own
    · cases own
    · next unshared =>
      cases own
      simpa using unshared
  · cases own

theorem Value.lists_eq (f : StorageId → Bool) (v : Value) :
    v.lists = (v.ownList f).toList ++ v.otherLists f := by
  cases own : v.ownList f with
  | none => simp [otherLists, own]
  | some list =>
    unfold ownList at own
    split at own
    · next name items metadata =>
      split at own
      · cases own
      · next unshared =>
        cases own
        simp [otherLists, ownList, unshared, Value.lists, Storage.lists]
    · cases own

/-- What is found in an item that is not a closure itself looks shared. -/
theorem Storage.shared_of_mem_edges_item (storage : Storage) (metadata : Option Metadata) :
    ∀ edge ∈ (Value.vector storage metadata).edges (fun _ => true) .owned, edge.2 = .shared := by
  intro edge found
  rcases List.mem_append.mp found with stored | attached
  · cases storage with
    | atoms => exact absurd stored List.not_mem_nil
    | view => exact absurd stored List.not_mem_nil
    | list name items => exact shared_of_mem_edgesOfItems items edge stored
  · exact shared_of_mem_edgesOfMetadata metadata edge attached

/-- What is owned in an item is there directly, since lists inside lists look shared. -/
theorem Value.count_ownedFrames_item_le (item : Value) :
    (ownedFrames (item.edges (fun _ => true) .owned)).count id ≤ item.direct.count id := by
  cases item with
  | null => exact Nat.le_refl _
  | builtin => exact Nat.le_refl _
  | closure => exact Nat.le_refl _
  | vector storage metadata =>
    rw [ownedFrames_eq_nil (storage.shared_of_mem_edges_item metadata)]
    exact Nat.zero_le _

theorem count_ownedFrames_items_le : ∀ items : List Value,
    (ownedFrames (edgesOfItems .owned items)).count id ≤ (items.flatMap Value.direct).count id
  | [] => Nat.le_refl _
  | item :: rest => by
    rw [edgesOfItems, ownedFrames_append, List.flatMap_cons, List.count_append, List.count_append]
    exact Nat.add_le_add item.count_ownedFrames_item_le (count_ownedFrames_items_le rest)

/-- The references to frames that a value has of its own. -/
def Value.ownReferences (isShared : StorageId → Bool) (v : Value) : List FrameId :=
  v.direct ++ (v.ownList isShared).toList.flatMap fun list => list.2.flatMap Value.direct

/-- What is found to be owned is there. -/
theorem Value.count_ownedFrames_le (id : FrameId) (f : StorageId → Bool) (v : Value) :
    (ownedFrames (v.edges f .owned)).count id ≤ (v.ownReferences f).count id := by
  rw [ownReferences, List.count_append]
  cases v with
  | null => exact Nat.le_refl _
  | builtin => exact Nat.le_refl _
  | closure => exact Nat.le_refl _
  | vector storage metadata =>
    have attached : ownedFrames (edgesOfMetadata metadata) = [] :=
      ownedFrames_eq_nil (shared_of_mem_edgesOfMetadata metadata)
    rw [Value.edges, ownedFrames_append, attached, List.append_nil]
    cases storage with
    | atoms => exact Nat.zero_le _
    | view => exact Nat.zero_le _
    | list name items =>
      rw [Storage.edges]
      -- Items in a list with several holders are shared, and only those of a list with one holder
      -- are owned.
      by_cases several : f name
      · rw [if_pos several, ownedFrames_eq_nil (shared_of_mem_edgesOfItems items)]
        exact Nat.zero_le _
      · rw [if_neg several, ownList, if_neg several, Option.toList_some, List.flatMap_singleton]
        exact Nat.le_trans (count_ownedFrames_items_le items) (Nat.le_add_left _ _)

/-- A frame that is held and not found is held by a reference of the value's own which is
missed, or in another list. -/
theorem Value.missed {f : StorageId → Bool} {v : Value} (held : id ∈ v.environments)
    (unfound : id ∉ (v.edges f .owned).map Prod.fst) :
    (ownedFrames (v.edges f .owned)).count id < (v.ownReferences f).count id ∨
      ∃ list ∈ v.otherLists f, id ∈ list.2.flatMap Value.direct := by
  have none_found : (ownedFrames (v.edges f .owned)).count id = 0 :=
    List.count_eq_zero.mpr fun found => unfound (ownedFrames_subset _ found)
  rw [none_found, List.count_pos_iff, ownReferences, List.mem_append]
  rcases v.mem_environments held with direct | ⟨list, member, listed⟩
  · exact .inl (.inl direct)
  · rw [v.lists_eq f, List.mem_append] at member
    rcases member with own | other
    · exact .inl (.inr (List.mem_flatMap.mpr ⟨list, own, listed⟩))
    · exact .inr ⟨list, other, listed⟩

end Vectorial
