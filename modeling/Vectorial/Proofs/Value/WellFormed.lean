import Vectorial.Proofs.Builtin.Closures
import Vectorial.Proofs.Value.History

/-!
# Well-formed values

In a well-formed value everything that a vector carries accounts for its elements: there is
one name for each of them, and the dimensions are positive and have their number as product.
A vector that carries nothing has no metadata, and a view computes elements of a kind that
has vectors. The same holds of the values inside, which are list items, attributes and what
is behind views.

No operation that a host may perform leads out of these values, so that all values are well
formed that are built, as long as those they are built from are.

## Main definitions

* `Metadata.Accounts`: names and dimensions that go with a number of elements;
* `Value.WellFormed`, `Storage.WellFormed`, `View.WellFormed`: values without flaw.

## Main results

* `Value.WellFormed.coerceTo`, `Value.WellFormed.materialize`, `Value.WellFormed.set` and so
  on: operations keep values well formed;
* `wellFormed_build`: what is built from well-formed values is well formed.
-/

namespace Vectorial

/-! ### Well-formed values -/

/-- Whether names and dimensions go with a number of elements. -/
structure Metadata.Accounts (m : Metadata) (size : Nat) : Prop where
  named : ∀ names, m.names = some names → names.length = size
  shaped : ∀ dims, m.dims = some dims → 0 ∉ dims ∧ Value.extent dims = size

mutual

/-- Whether a value and all values inside it are without flaw. -/
inductive Value.WellFormed : Value → Prop where
  | null : Value.WellFormed .null
  | vector {storage : Storage} {metadata : Option Metadata} (stored : storage.WellFormed)
      (accounts : ∀ m ∈ metadata, m.Accounts storage.size)
      (carries : ∀ m ∈ metadata, m.isEmpty = false)
      (attributes : ∀ m ∈ metadata, ∀ entry ∈ m.attributes, entry.2.WellFormed) :
      Value.WellFormed (.vector storage metadata)
  | closure (layout : Layout) (env : FrameId) : Value.WellFormed (.closure layout env)
  | builtin (name : Symbol) (index : Nat) : Value.WellFormed (.builtin name index)

/-- Whether the list items, or what is behind the view, are without flaw. -/
inductive Storage.WellFormed : Storage → Prop where
  | atoms (kind : ElementKind) (elements : List kind.Carrier) :
      Storage.WellFormed (.atoms kind elements)
  | list (id : StorageId) {items : List Value} (each : ∀ item ∈ items, item.WellFormed) :
      Storage.WellFormed (.list id items)
  | view {source : View} (behind : source.WellFormed) : Storage.WellFormed (.view source)

/-- Whether a view computes elements of a kind that has vectors, from a source without
flaw. -/
inductive View.WellFormed : View → Prop where
  | sequence (progression : Progression) : View.WellFormed (.sequence progression)
  | range (upTo : UpTo) : View.WellFormed (.range upTo)
  | coerce {source : Value} {target : Kind} (read : source.WellFormed)
      (vectors : target.HasVectors) : View.WellFormed (.coerce source target)
  | traced (id : TraceId) {inner : View} (read : inner.WellFormed) :
      View.WellFormed (.traced id inner)

end

theorem View.WellFormed.hasVectors : ∀ {source : View}, source.WellFormed → source.kind.HasVectors
  | .sequence _, _ => Kind.hasVectors_atomic _
  | .range _, _ => Kind.hasVectors_atomic _
  | .coerce _ _, .coerce _ vectors => vectors
  | .traced _ _, .traced _ read => read.hasVectors

/-! ### Metadata -/

namespace Metadata

variable {m : Metadata} {size : Nat}

theorem accounts_empty (size : Nat) : Metadata.empty.Accounts size :=
  ⟨nofun, nofun⟩

theorem Accounts.setNames (accounts : m.Accounts size) {names : List (Option String)}
    (each : names.length = size) : (m.setNames names).Accounts size := by
  refine ⟨?_, accounts.shaped⟩
  rintro _ ⟨⟩
  exact each

theorem Accounts.setDims (accounts : m.Accounts size) {dims : List Nat} (positive : 0 ∉ dims)
    (product : Value.extent dims = size) : (m.setDims dims).Accounts size := by
  refine ⟨accounts.named, ?_⟩
  rintro _ ⟨⟩
  exact ⟨positive, product⟩

theorem isEmpty_setNames (m : Metadata) (names : List (Option String)) :
    (m.setNames names).isEmpty = false := by
  cases m with
  | mk dims _ attributes => cases dims <;> rfl

theorem isEmpty_setDims (m : Metadata) (dims : List Nat) : (m.setDims dims).isEmpty = false :=
  rfl

theorem setEntry_ne_nil {α : Type} (name : Symbol) (value : α) (entries : List (Symbol × α)) :
    setEntry name value entries ≠ [] := by
  cases entries with
  | nil => exact List.cons_ne_nil _ _
  | cons entry rest =>
    rw [setEntry]
    split <;> exact List.cons_ne_nil _ _

theorem isEmpty_setAttribute (m : Metadata) (name : Symbol) (value : Value) :
    (m.setAttribute name value).isEmpty = false := by
  have some_left : (setEntry name value m.attributes).isEmpty = false :=
    List.isEmpty_eq_false_iff.mpr (setEntry_ne_nil name value m.attributes)
  change (m.dims.isNone && m.names.isNone && (setEntry name value m.attributes).isEmpty) = false
  rw [some_left, Bool.and_false]

end Metadata

namespace Value

variable {v w : Value}

/-! ### Vectors -/

theorem wellFormed_bare {storage : Storage} (stored : storage.WellFormed) :
    (Value.vector storage none).WellFormed :=
  .vector stored nofun nofun nofun

theorem wellFormed_ofAtoms (kind : ElementKind) (elements : List kind.Carrier) :
    (ofAtoms kind elements).WellFormed :=
  wellFormed_bare (.atoms kind elements)

theorem wellFormed_ofItems (id : StorageId) {items : List Value}
    (each : ∀ item ∈ items, item.WellFormed) : (ofItems id items).WellFormed :=
  wellFormed_bare (.list id each)

theorem wellFormed_ofNamedItems (id : StorageId) {parts : Parts}
    (each : ∀ part ∈ parts, part.2.WellFormed) : (ofNamedItems id parts).WellFormed := by
  refine .vector (.list id (List.forall_mem_map.mpr each)) ?_ ?_ ?_
  · rintro _ ⟨⟩
    refine ⟨?_, nofun⟩
    rintro _ ⟨⟩
    rw [Storage.size, List.length_map, List.length_map]
  · rintro _ ⟨⟩
    rfl
  · rintro _ ⟨⟩
    exact nofun

theorem wellFormed_ofParts (id : StorageId) {parts : Parts}
    (each : ∀ part ∈ parts, part.2.WellFormed) : (ofParts id parts).WellFormed := by
  rw [ofParts]
  split
  · exact wellFormed_ofNamedItems id each
  · exact wellFormed_ofItems id (List.forall_mem_map.mpr each)

theorem wellFormed_zeroed (id : StorageId) (kind : Kind) (length : Nat) :
    (zeroed id kind length).WellFormed := by
  cases kind with
  | atomic kind => exact wellFormed_ofAtoms _ _
  | list =>
    refine wellFormed_ofItems id fun item listed => ?_
    rw [List.eq_of_mem_replicate listed]
    exact .null
  | null => exact .null
  | closure => exact .null

theorem wellFormed_sequence {start stop step : Int32}
    (made : Value.sequence start stop step = .ok v) : v.WellFormed := by
  rw [Value.sequence] at made
  cases leads : Progression.of start stop step with
  | error defect =>
    rw [leads] at made
    cases made
  | ok p =>
    rw [leads] at made
    cases made
    exact wellFormed_bare (.view (.sequence p))

theorem wellFormed_upTo {stop : Int32} (made : Value.upTo stop = .ok v) : v.WellFormed := by
  rw [Value.upTo] at made
  cases positive : UpTo.of stop with
  | error defect =>
    rw [positive] at made
    cases made
  | ok r =>
    rw [positive] at made
    cases made
    exact wellFormed_bare (.view (.range r))

namespace WellFormed

/-- There is one name for each element. -/
theorem length_names (sound : v.WellFormed) {names : List (Option String)}
    (named : v.names = some names) : names.length = v.size := by
  cases sound with
  | null => cases named
  | closure => cases named
  | builtin => cases named
  | vector stored accounts =>
    obtain ⟨m, carried, named⟩ := Option.bind_eq_some_iff.mp named
    exact (accounts m carried).named names named

/-- What is carried may change if it still accounts for the elements. -/
theorem mapMetadata (sound : v.WellFormed) {change : Metadata → Metadata}
    (accounts : ∀ m : Metadata, m.Accounts v.size → v.isVector → (change m).Accounts v.size)
    (carries : ∀ m, (change m).isEmpty = false)
    (attributes : ∀ m : Metadata, (∀ entry ∈ m.attributes, entry.2.WellFormed) →
      ∀ entry ∈ (change m).attributes, entry.2.WellFormed) : (v.mapMetadata change).WellFormed := by
  cases sound with
  | null => exact .null
  | closure => exact .closure ..
  | builtin => exact .builtin ..
  | @vector storage metadata stored accounted _ inside =>
    refine .vector stored ?_ ?_ ?_
    · rintro _ ⟨⟩
      refine accounts _ ?_ rfl
      cases metadata with
      | none => exact Metadata.accounts_empty _
      | some m => exact accounted m rfl
    · rintro _ ⟨⟩
      exact carries _
    · rintro _ ⟨⟩
      refine attributes _ ?_
      cases metadata with
      | none => exact nofun
      | some m => exact inside m rfl

theorem withNames (sound : v.WellFormed) {names : List (Option String)}
    (made : v.withNames names = .ok w) : w.WellFormed := by
  rw [Value.withNames] at made
  split at made
  · cases made
  · next fits =>
    cases made
    refine sound.mapMetadata (fun m accounts vector => accounts.setNames ?_)
      (Metadata.isEmpty_setNames · names) fun m inside => inside
    simpa [vector] using fits

theorem withDims (sound : v.WellFormed) {dims : List Nat} (made : v.withDims dims = .ok w) :
    w.WellFormed := by
  rw [Value.withDims] at made
  split at made
  · cases made
    exact sound
  · split at made
    · cases made
    · next positive =>
      split at made
      · cases made
      · split at made
        · cases made
        · next product =>
          cases made
          refine sound.mapMetadata (fun m accounts _ => accounts.setDims ?_ ?_)
            (Metadata.isEmpty_setDims · dims) fun m inside => inside
          · simpa using positive
          · exact Decidable.of_not_not product

theorem withAttribute (sound : v.WellFormed) (name : Symbol) (attached : w.WellFormed) :
    (v.withAttribute name w).WellFormed := by
  refine sound.mapMetadata (fun m accounts _ => ⟨accounts.named, accounts.shaped⟩)
    (Metadata.isEmpty_setAttribute · name w) fun m inside entry listed => ?_
  rcases mem_setEntry listed with rfl | old
  · exact attached
  · exact inside entry old

theorem strip (sound : v.WellFormed) : v.strip.WellFormed := by
  cases sound with
  | null => exact .null
  | closure => exact .closure ..
  | builtin => exact .builtin ..
  | vector stored => exact wellFormed_bare stored

theorem stripKeepNames (sound : v.WellFormed) : v.stripKeepNames.WellFormed := by
  cases sound with
  | null => exact .null
  | closure => exact .closure ..
  | builtin => exact .builtin ..
  | vector stored accounts =>
    refine .vector stored ?_ ?_ ?_ <;> intro only kept <;>
      obtain ⟨m, carried, kept⟩ := Option.bind_eq_some_iff.mp kept <;>
      obtain ⟨names, named, rfl⟩ := Option.map_eq_some_iff.mp kept
    · refine ⟨?_, nofun⟩
      rintro _ ⟨⟩
      exact (accounts m carried).named names named
    · rfl
    · exact nofun

/-! ### Views -/

theorem viewedAs (sound : v.WellFormed) {kind : Kind} (vectors : kind.HasVectors) :
    (v.viewedAs kind).WellFormed := by
  cases sound with
  | null => exact .null
  | closure => exact .closure ..
  | builtin => exact .builtin ..
  | vector stored accounts carries attributes =>
    have source := Value.WellFormed.vector stored accounts carries attributes
    exact .vector (.view (.coerce source vectors)) accounts carries attributes

theorem toVector (sound : v.WellFormed) {kind : Kind} (vectors : kind.HasVectors)
    {empty : Value} (nothing : empty.WellFormed) (made : v.toVector kind empty = .ok w) :
    w.WellFormed := by
  rw [Value.toVector] at made
  split at made
  · cases made
    exact sound
  · split at made
    · cases made
      exact nothing
    · split at made
      · cases made
      · cases made
        exact sound.viewedAs vectors

theorem coerceTo (sound : v.WellFormed) {kind : Kind} (made : v.coerceTo kind = .ok w) :
    w.WellFormed := by
  cases kind with
  | null =>
    cases made
    exact .null
  | atomic kind => exact sound.toVector (Kind.hasVectors_atomic kind) (wellFormed_ofAtoms _ _) made
  | list =>
    exact sound.toVector Kind.hasVectors_list (wellFormed_ofItems _ (List.forall_mem_nil _)) made
  | closure =>
    rw [Value.coerceTo] at made
    split at made
    · cases made
      exact sound
    · cases made

theorem traced (sound : v.WellFormed) (fresh : TraceId) : (v.traced fresh).WellFormed := by
  unfold Value.traced
  split
  · exact sound
  · cases sound with
    | vector stored accounts carries attributes =>
      cases stored with
      | view behind => exact .vector (.view (.traced fresh behind)) accounts carries attributes
  · exact sound

theorem addTrace (sound : v.WellFormed) (heap : Heap) : (heap.addTrace v).1.WellFormed := by
  rw [Heap.addTrace]
  split
  · exact sound.traced _
  · exact sound

end WellFormed

end Value

/-! ### Reading -/

theorem Scalar.wellFormed_toItem_atom (a : Atom) : (Scalar.atom a).toItem.WellFormed :=
  Value.wellFormed_ofAtoms a.kind [a.value]

mutual

/-- An element of a well-formed value, as a list item, is well formed. -/
theorem Value.WellFormed.element : ∀ {v : Value}, v.WellFormed → ∀ index : Nat,
    (v.element index).value.toItem.WellFormed
  | .null, _, _ => .null
  | .vector _ _, .vector stored .., index => stored.element index
  | .closure .., sound, _ => sound
  | .builtin .., sound, _ => sound

theorem Storage.WellFormed.element : ∀ {storage : Storage}, storage.WellFormed → ∀ index : Nat,
    (storage.element index).value.toItem.WellFormed
  | .atoms .., _, _ => Scalar.wellFormed_toItem_atom _
  | .list _ items, .list _ each, index => by
    simp only [Storage.element, Metered.value_pure, Scalar.toItem]
    cases found : items[index]? with
    | none => exact .null
    | some item => exact each item (List.mem_of_getElem? found)
  | .view _, .view behind, index => behind.element index

theorem View.WellFormed.element : ∀ {source : View}, source.WellFormed → ∀ index : Nat,
    (source.element index).value.toItem.WellFormed
  | .sequence _, _, _ => Scalar.wellFormed_toItem_atom _
  | .range _, _, _ => Scalar.wellFormed_toItem_atom _
  | .coerce _ (.atomic _), _, _ => Scalar.wellFormed_toItem_atom _
  | .coerce _ .list, .coerce read _, index => read.element index
  | .coerce _ .null, .coerce _ vectors, _ => absurd rfl vectors.1
  | .coerce _ .closure, .coerce _ vectors, _ => absurd rfl vectors.2
  | .traced _ _, .traced _ read, index => read.element index

end

namespace Value

variable {v w : Value}

/-- What is read at an index that was checked is well formed. -/
theorem WellFormed.get (sound : v.WellFormed) {index : Nat} {reading : Metered Scalar}
    (found : v.get index = .ok reading) : reading.value.toItem.WellFormed := by
  have read : reading = v.element index := by
    cases v with
    | null => cases found
    | vector storage metadata =>
      rw [Value.get] at found
      split at found <;> cases found
      rfl
    | closure layout env =>
      cases index <;> cases found
      rfl
    | builtin name handle =>
      cases index <;> cases found
      rfl
  rw [read]
  exact sound.element index

theorem length_elements (v : Value) : v.elements.value.length = v.size := by
  rw [v.elements_eq, List.length_map, List.length_range]

theorem length_items (v : Value) : v.items.value.length = v.size := by
  rw [items, Metered.value_bind, Metered.value_pure, List.length_map, length_elements]

theorem length_atomsAs (v : Value) (kind : ElementKind) :
    (v.atomsAs kind).value.length = v.size := by
  rw [v.atomsAs_eq, List.length_map, List.length_range]

theorem WellFormed.items (sound : v.WellFormed) : ∀ item ∈ v.items.value, item.WellFormed := by
  intro item listed
  rw [Value.items, Metered.value_bind, Metered.value_pure, v.elements_eq, List.map_map] at listed
  obtain ⟨index, -, rfl⟩ := List.mem_map.mp listed
  exact sound.element index

end Value

/-! ### Storing -/

namespace View

variable {source : View}

theorem length_fillAtoms {kind : ElementKind} (same : source.kind = .atomic kind) :
    (source.fillAtoms kind).value.length = source.size := by
  have length_eq := congrArg List.length (source.fillAtoms_eq same)
  simpa using length_eq

theorem length_fillItems (same : source.kind = .list) :
    source.fillItems.value.length = source.size := by
  have length_eq := congrArg List.length (source.fillItems_eq same)
  simpa using length_eq

theorem WellFormed.fillItems (sound : source.WellFormed) (same : source.kind = .list) :
    ∀ item ∈ source.fillItems.value, item.WellFormed := by
  intro item listed
  have read := List.mem_map_of_mem (f := Scalar.item) listed
  rw [source.fillItems_eq same] at read
  obtain ⟨index, -, eq⟩ := List.mem_map.mp read
  have well := sound.element index
  rw [eq] at well
  exact well

end View

namespace Value

variable {v w : Value}

theorem WellFormed.materialize (sound : v.WellFormed) (fresh : StorageId) :
    (v.materialize fresh).value.WellFormed := by
  cases sound with
  | null => exact .null
  | closure => exact .closure ..
  | builtin => exact .builtin ..
  | @vector storage metadata stored accounts carries attributes =>
    cases stored with
    | atoms kind elements => exact .vector (.atoms kind elements) accounts carries attributes
    | list id each => exact .vector (.list id each) accounts carries attributes
    | @view source behind =>
      cases same : source.kind with
      | atomic kind =>
        rw [materialize_atoms fresh same]
        refine .vector (.atoms _ _) ?_ carries attributes
        rw [Storage.size, View.length_fillAtoms same]
        exact accounts
      | list =>
        rw [materialize_list fresh same]
        refine .vector (.list fresh (behind.fillItems same)) ?_ carries attributes
        rw [Storage.size, View.length_fillItems same]
        exact accounts
      | null => exact absurd same behind.hasVectors.1
      | closure => exact absurd same behind.hasVectors.2

theorem WellFormed.replaceAt (sound : v.WellFormed) {element : Scalar}
    (given : element.toItem.WellFormed) (fresh : StorageId) (index : Nat) :
    (v.replaceAt fresh index element).Delivers WellFormed := by
  -- How the element is stored is decided after materializing. What is stored neither as atoms nor
  -- as items is given back as it is.
  have stored := sound.materialize fresh
  rw [Value.replaceAt]
  split
  · exact (Attempt.Delivers.fault (P := fun _ => False) _).bind fun _ never => never.elim
  · refine Attempt.Delivers.bind (.ofMetered stored) fun w sound => ?_
    split
    · cases sound with
      | vector stored accounts carries attributes =>
        refine .after fun x => .pure ?_
        refine .vector (.atoms _ _) ?_ carries attributes
        rw [Storage.size, List.length_set]
        exact accounts
    · cases sound with
      | vector stored accounts carries attributes =>
        cases stored with
        | list id each =>
          refine .pure (.vector (.list fresh fun item listed => ?_) ?_ carries attributes)
          · rcases List.mem_or_eq_of_mem_set listed with old | rfl
            · exact each item old
            · exact given
          · rw [Storage.size, List.length_set]
            exact accounts
    · exact .pure sound

theorem WellFormed.set (sound : v.WellFormed) {element : Scalar}
    (given : element.toItem.WellFormed) (fresh : StorageId) (index : Nat) :
    (v.set fresh index element).Delivers WellFormed := by
  rw [Value.set]
  split
  · exact .fault _
  · split
    · exact sound.replaceAt given fresh index
    · refine (Attempt.Delivers.ofExcept fun w made => sound.coerceTo made).bind fun w sound => ?_
      refine Attempt.Delivers.bind (.ofMetered (sound.materialize fresh)) fun w sound => ?_
      exact sound.replaceAt given fresh index

end Value

/-! ### Building -/

theorem of_attempt_eq_ok {α : Type} {attempt : Attempt α} {P : α → Prop}
    (delivers : attempt.Delivers P) {heap later : Heap} {a : α}
    (done : HeapM.attempt attempt heap = .ok a later) : P a := by
  obtain ⟨value, ticks⟩ := attempt
  cases value with
  | ok result =>
    cases done
    exact delivers a rfl
  | error fault => cases fault <;> cases done

/-- Every operation on well-formed values gives a well-formed value. -/
theorem wellFormed_perform {instruction : Instruction} {pool : List Value}
    (sound : ∀ v ∈ pool, v.WellFormed) {heap later : Heap} {v : Value}
    (done : instruction.perform pool heap = .ok v later) : v.WellFormed := by
  have at_position (position : Nat) : (resultAt pool position).WellFormed :=
    property_at sound .null position
  -- Instructions that can only fail by a defect leave the heap alone.
  have ofDefect {result : Except Defect Value} (well : ∀ v, result = .ok v → v.WellFormed)
      (done : (Run.ofDefect result : HeapM Value) heap = .ok v later) : v.WellFormed := by
    cases result with
    | ok w => cases done; exact well _ rfl
    | error defect => cases done
  cases instruction with
  | null => cases done; exact .null
  | closure layout env => cases done; exact .closure layout env
  | builtin name index => cases done; exact .builtin name index
  | atoms kind elements => cases done; exact Value.wellFormed_ofAtoms kind elements
  | list items =>
    cases done
    exact Value.wellFormed_ofItems _ (List.forall_mem_map.mpr fun item _ => at_position item)
  | namedList entries =>
    cases done
    exact Value.wellFormed_ofNamedItems _
      (List.forall_mem_map.mpr fun entry _ => at_position entry.2)
  | sequence start stop step => exact ofDefect (fun _ made => Value.wellFormed_sequence made) done
  | upTo stop => exact ofDefect (fun _ made => Value.wellFormed_upTo made) done
  | zeroed kind length =>
    rw [Instruction.perform, HeapM.zeroed] at done
    split at done
    · cases done
    · cases done
      exact Value.wellFormed_zeroed _ kind length
  | coerceTo source kind =>
    rw [Instruction.perform] at done
    cases made : (resultAt pool source).coerceTo kind with
    | error cause =>
      rw [made] at done
      cases done
    | ok w =>
      rw [made] at done
      cases done
      exact (at_position source).coerceTo made
  | traced source =>
    cases done
    exact (at_position source).addTrace heap
  | materialize source =>
    cases done
    exact (at_position source).materialize _
  | strip source => cases done; exact (at_position source).strip
  | stripKeepNames source => cases done; exact (at_position source).stripKeepNames
  | withNames source names =>
    exact ofDefect (fun _ made => (at_position source).withNames made) done
  | withDims source dims =>
    exact ofDefect (fun _ made => (at_position source).withDims made) done
  | withAttribute source name value =>
    cases done
    exact (at_position source).withAttribute name (at_position value)
  | set source index atom =>
    exact of_attempt_eq_ok
      ((at_position source).set (Scalar.wellFormed_toItem_atom atom) _ index) done
  | setItem source index value =>
    have given : (Scalar.item (resultAt pool value)).toItem.WellFormed := at_position value
    exact of_attempt_eq_ok ((at_position source).set given _ index) done
  | item source index =>
    rw [Instruction.perform] at done
    cases found : (resultAt pool source).get index with
    | error defect =>
      rw [found] at done
      cases done
    | ok reading =>
      rw [found] at done
      cases done
      exact (at_position source).get found

/-- All values that are built from well-formed ones are well formed. -/
theorem wellFormed_build {instructions : List Instruction} {pool results : List Value}
    (sound : ∀ v ∈ pool, v.WellFormed) {heap later : Heap}
    (built : build instructions pool heap = .ok results later) : ∀ v ∈ results, v.WellFormed :=
  forall_mem_of_build (fun _ _ _ _ _ sound done => wellFormed_perform sound done) sound built

end Vectorial
