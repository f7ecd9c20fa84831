import Mathlib.Data.List.Forall2
import Vectorial.Proofs.Value.Operations

/-!
# Building values

Values are built by operations performed one after the other, each on results of earlier
ones. Performed on values without views, the same operations give values of the same kind and
size, with the same elements and the same names, dimensions and attributes, or fail at the
same place in the same way.

## Main definitions

* `Instruction`: an operation on earlier results;
* `build`, `Eager.build`: the results of instructions, with views and without;
* `Shows`: a value with views looks like one without.

## Main results

* `perform_eq`: one instruction;
* `build_eq`: any number of them;
* `built_values_show_eager_values`: what is built looks like what is built without views.
-/

namespace Vectorial

/-- An operation. Earlier results are named by their positions, those past the end being
`NULL`. -/
inductive Instruction where
  | null
  | closure (layout : Layout) (env : FrameId)
  | builtin (name : Symbol) (index : Nat)
  | atoms (kind : ElementKind) (elements : List kind.Carrier)
  | list (items : List Nat)
  | namedList (entries : List (Option Symbol × Nat))
  | sequence (start stop step : Int32)
  | upTo (stop : Int32)
  | zeroed (kind : Kind) (length : Nat)
  | coerceTo (source : Nat) (kind : Kind)
  | traced (source : Nat)
  | materialize (source : Nat)
  | strip (source : Nat)
  | stripKeepNames (source : Nat)
  | withNames (source : Nat) (names : List (Option String))
  | withDims (source : Nat) (dims : List Nat)
  | withAttribute (source : Nat) (name : Symbol) (value : Nat)
  | set (source index : Nat) (atom : Atom)
  | setItem (source index value : Nat)
  | item (source index : Nat)

/-- The result at a position. -/
def resultAt (pool : List Value) (position : Nat) : Value :=
  pool[position]?.getD .null

/-- Performs an operation on earlier results. -/
def Instruction.perform (pool : List Value) : Instruction → HeapM Value
  | .null => pure .null
  | .closure layout env => pure (.closure layout env)
  | .builtin name index => pure (.builtin name index)
  | .atoms kind elements => pure (.ofAtoms kind elements)
  | .list items => HeapM.makeList (items.map (resultAt pool))
  | .namedList entries => do
    let id ← HeapM.newStorage
    pure (.ofNamedItems id (entries.map fun entry => (entry.1, resultAt pool entry.2)))
  | .sequence start stop step => Run.ofDefect (Value.sequence start stop step)
  | .upTo stop => Run.ofDefect (Value.upTo stop)
  | .zeroed kind length => HeapM.zeroed kind length
  | .coerceTo source kind => Run.ofCause ((resultAt pool source).coerceTo kind)
  | .traced source => HeapM.traced (resultAt pool source)
  | .materialize source => HeapM.materialize (resultAt pool source)
  | .strip source => pure (resultAt pool source).strip
  | .stripKeepNames source => pure (resultAt pool source).stripKeepNames
  | .withNames source names => Run.ofDefect ((resultAt pool source).withNames names)
  | .withDims source dims => Run.ofDefect ((resultAt pool source).withDims dims)
  | .withAttribute source name value =>
    pure ((resultAt pool source).withAttribute name (resultAt pool value))
  | .set source index atom => HeapM.assign (resultAt pool source) index (.atom atom)
  | .setItem source index value =>
    HeapM.assign (resultAt pool source) index (.item (resultAt pool value))
  | .item source index => do
    let reading ← Run.ofDefect ((resultAt pool source).get index)
    let element ← HeapM.metered reading
    pure element.toItem

/-- The results of operations performed one after the other, after those in the pool. -/
def build : List Instruction → List Value → HeapM (List Value)
  | [], pool => pure pool
  | instruction :: rest, pool => do
    let v ← instruction.perform pool
    build rest (pool ++ [v])

namespace Eager

/-- The result at a position. -/
def resultAt (pool : List Eager) (position : Nat) : Eager :=
  pool[position]?.getD .null

/-- A list whose items have names, the empty text standing for none. -/
def ofNamedItems (entries : List (Option Symbol × Eager)) : Eager :=
  .vector .list (entries.map fun entry => .item entry.2)
    (.mk none (some (entries.map fun entry => some (entry.1.getD ""))) [])

/-- Performs an operation on earlier results. Counters and materializing do nothing. -/
def perform (pool : List Eager) : Instruction → Except Stop Eager
  | .null => .ok .null
  | .closure layout env => .ok (.closure layout env)
  | .builtin name index => .ok (.builtin name index)
  | .atoms kind elements => .ok (ofAtoms kind elements)
  | .list items => .ok (ofCells .list (items.map fun item => .item (resultAt pool item)))
  | .namedList entries =>
    .ok (ofNamedItems (entries.map fun entry => (entry.1, resultAt pool entry.2)))
  | .sequence start stop step => sequence start stop step
  | .upTo stop => upTo stop
  | .zeroed kind length => zeroed kind length
  | .coerceTo source kind => (resultAt pool source).coerceTo kind
  | .traced source => .ok (resultAt pool source)
  | .materialize source => .ok (resultAt pool source)
  | .strip source => .ok (resultAt pool source).strip
  | .stripKeepNames source => .ok (resultAt pool source).stripKeepNames
  | .withNames source names => (resultAt pool source).withNames names
  | .withDims source dims => (resultAt pool source).withDims dims
  | .withAttribute source name value =>
    .ok ((resultAt pool source).withAttribute name (resultAt pool value))
  | .set source index atom => (resultAt pool source).set index (.atom atom)
  | .setItem source index value => (resultAt pool source).set index (.item (resultAt pool value))
  | .item source index => do
    let element ← (resultAt pool source).get index
    pure element.toItem

/-- The results of operations performed one after the other, after those in the pool. -/
def build : List Instruction → List Eager → Except Stop (List Eager)
  | [], pool => .ok pool
  | instruction :: rest, pool => do
    let v ← perform pool instruction
    build rest (pool ++ [v])

end Eager

/-! ### One instruction -/

theorem Run.outcome_ofExcept {σ α ε : Type} (stops : ε → Stop) (result : Except ε α) (state : σ) :
    (Run.ofExcept stops result).outcome state = result.mapError stops := by
  cases result <;> rfl

theorem eager_resultAt (pool : List Value) (position : Nat) :
    (resultAt pool position).eager = Eager.resultAt (pool.map Value.eager) position := by
  rw [resultAt, Eager.resultAt, List.getElem?_map]
  cases pool[position]? <;> rfl

theorem map_eager_resultAt (pool : List Value) (items : List Nat) :
    cellsOfItems (items.map (resultAt pool)) =
      items.map fun item => .item (Eager.resultAt (pool.map Value.eager) item) := by
  rw [cellsOfItems_eq, List.map_map]
  exact List.map_congr_left fun item _ => congrArg Cell.item (eager_resultAt pool item)

theorem eager_sequence (start stop step : Int32) :
    ((Value.sequence start stop step).mapError Stop.defect).map Value.eager =
      Eager.sequence start stop step := by
  rw [Value.sequence, Eager.sequence]
  cases Progression.of start stop step with
  | error defect => rfl
  | ok p =>
    have cells : (View.sequence p).cells =
        ((List.range p.size).map p.term).map fun x => .atom ⟨.integer, x⟩ := by
      rw [View.cells, List.map_map]
      rfl
    exact congrArg (fun cells => Except.ok (Eager.ofCells (.atomic .integer) cells)) cells

theorem eager_upTo (stop : Int32) :
    ((Value.upTo stop).mapError Stop.defect).map Value.eager = Eager.upTo stop := by
  rw [Value.upTo, Eager.upTo]
  cases UpTo.of stop with
  | error defect => rfl
  | ok r =>
    have cells : (View.range r).cells =
        ((List.range r.size).map UpTo.term).map fun x => .atom ⟨.integer, x⟩ := by
      rw [View.cells, List.map_map]
      rfl
    exact congrArg (fun cells => Except.ok (Eager.ofCells (.atomic .integer) cells)) cells

theorem eager_zeroed (kind : Kind) (length : Nat) (heap : Heap) :
    ((HeapM.zeroed kind length).outcome heap).map Value.eager = Eager.zeroed kind length := by
  unfold HeapM.zeroed Eager.zeroed
  by_cases large : Nat.pow 2 63 ≤ length * kind.width
  · rw [if_pos large, if_pos large]
    rfl
  · rw [if_neg large, if_neg large]
    cases kind with
    | null => rfl
    | closure => rfl
    | atomic kind => rfl
    | list =>
      have cells : cellsOfItems (List.replicate length .null) =
          List.replicate length (.item .null) := by
        rw [cellsOfItems_eq, List.map_replicate]
        rfl
      exact congrArg (fun cells => Except.ok (Eager.ofCells .list cells)) cells

theorem eager_ofNamedItems (id : StorageId) (entries : List (Option Symbol × Value)) :
    (Value.ofNamedItems id entries).eager =
      Eager.ofNamedItems (entries.map fun entry => (entry.1, entry.2.eager)) := by
  rw [Value.ofNamedItems, Value.eager, Storage.cells, cellsOfItems_eq, Eager.ofNamedItems,
    List.map_map, List.map_map, List.map_map]
  rfl

theorem outcome_assign (v : Value) (index : Nat) (element : Scalar) (heap : Heap) :
    ((HeapM.assign v index element).outcome heap).map Value.eager =
      v.eager.set index element.cell := by
  rw [← v.set_eq heap.nextStorage index element, ← Run.outcome_attempt _ heap.newStorage.2]
  rfl

/-- Reading an element as a list item. -/
theorem outcome_get (v : Value) (index : Nat) (heap : Heap) :
    (Run.outcome (do
      let reading ← (Run.ofDefect (v.get index) : HeapM (Metered Scalar))
      let element ← HeapM.metered reading
      pure element.toItem) heap).map Value.eager = (v.eager.get index).map Cell.toItem := by
  cases v with
  | null => rfl
  | closure layout env =>
    cases index with
    | zero => rfl
    | succ index => rfl
  | builtin name handle =>
    cases index with
    | zero => rfl
    | succ index => rfl
  | vector storage metadata =>
    have sizes : storage.size = storage.cells.length := storage.size_eq
    -- The denotation has an element at exactly the indices inside, so finding it decides both
    -- sides.
    cases found : storage.cells[index]? with
    | none =>
      have past := List.getElem?_eq_none_iff.mp found
      rw [← sizes] at past
      rw [Value.get, if_neg (Nat.not_lt_of_le past), Value.eager, Eager.get, found, sizes]
      rfl
    | some cell =>
      have inside := (List.getElem?_eq_some_iff.mp found).1
      rw [← sizes] at inside
      rw [Value.get, if_pos inside, Value.eager, Eager.get, found]
      have read := storage.element_eq found
      rw [← read]
      exact congrArg Except.ok (Scalar.eager_toItem _)

/-- What is known of every result so far is known of the result at a position. -/
theorem property_at {α : Type} {P : α → Prop} {pool : List α} {default : α}
    (earlier : ∀ a ∈ pool, P a) (nothing : P default) (position : Nat) :
    P (pool[position]?.getD default) := by
  cases found : pool[position]? with
  | none => exact nothing
  | some a => exact earlier a (List.mem_of_getElem? found)

/-- An instruction does to what values denote what it does to values without views. -/
theorem perform_eq (instruction : Instruction) {pool : List Value}
    (proper : ∀ v ∈ pool, v.eager.IsProper) (heap : Heap) :
    ((instruction.perform pool).outcome heap).map Value.eager =
      Eager.perform (pool.map Value.eager) instruction := by
  have ordinary_null : Value.null.IsOrdinary := nofun
  have ordinary_at (position : Nat) : (resultAt pool position).IsOrdinary :=
    property_at (fun v listed => (proper v listed).isOrdinary) ordinary_null position
  cases instruction with
  | null => rfl
  | closure layout env => rfl
  | builtin name index => rfl
  | atoms kind elements => rfl
  | list items =>
    exact congrArg (fun cells => Except.ok (Eager.ofCells .list cells))
      (map_eager_resultAt pool items)
  | namedList entries =>
    have named := eager_ofNamedItems heap.nextStorage
      (entries.map fun entry => (entry.1, resultAt pool entry.2))
    simp only [List.map_map, Function.comp_def, eager_resultAt] at named
    exact congrArg Except.ok named
  | sequence start stop step =>
    rw [Instruction.perform, Run.ofDefect, Run.outcome_ofExcept, eager_sequence]
    rfl
  | upTo stop =>
    rw [Instruction.perform, Run.ofDefect, Run.outcome_ofExcept, eager_upTo]
    rfl
  | zeroed kind length => exact eager_zeroed kind length heap
  | coerceTo source kind =>
    rw [Instruction.perform, Run.ofCause, Run.outcome_ofExcept, Value.coerceTo_eq, eager_resultAt]
    rfl
  | traced source =>
    exact congrArg Except.ok
      ((Value.eager_addTrace heap _).trans (eager_resultAt pool source))
  | materialize source =>
    exact congrArg Except.ok
      ((Value.eager_materialize _ (ordinary_at source)).trans (eager_resultAt pool source))
  | strip source =>
    rw [Eager.perform, ← eager_resultAt, ← Value.eager_strip]
    rfl
  | stripKeepNames source =>
    rw [Eager.perform, ← eager_resultAt, ← Value.eager_stripKeepNames]
    rfl
  | withNames source names =>
    rw [Instruction.perform, Run.ofDefect, Run.outcome_ofExcept, Value.withNames_eq, eager_resultAt]
    rfl
  | withDims source dims =>
    rw [Instruction.perform, Run.ofDefect, Run.outcome_ofExcept, Value.withDims_eq, eager_resultAt]
    rfl
  | withAttribute source name value =>
    rw [Eager.perform, ← eager_resultAt, ← eager_resultAt, ← Value.eager_withAttribute]
    rfl
  | set source index atom =>
    rw [Instruction.perform, outcome_assign, eager_resultAt]
    rfl
  | setItem source index value =>
    rw [Instruction.perform, outcome_assign, eager_resultAt, Scalar.cell, eager_resultAt]
    rfl
  | item source index =>
    rw [Instruction.perform, outcome_get, eager_resultAt]
    rfl

/-! ### Kinds that have vectors -/

namespace Eager

variable {v w : Eager}

/-- Whether an element is an atom or a value whose vectors are of kinds that have vectors. -/
def CellIsProper (cell : Cell) : Prop :=
  ∀ item, cell = .item item → item.IsProper

theorem IsProper.of_cells {kind : Kind} {cells : List Cell} {extras : Extras}
    (vectors : kind.HasVectors) (proper : ∀ cell ∈ cells, CellIsProper cell) :
    (Eager.vector kind cells extras).IsProper :=
  .vector vectors fun item member => proper _ member item rfl

theorem IsProper.cells (proper : v.IsProper) : ∀ cell ∈ v.cells, CellIsProper cell := by
  intro cell member item same
  subst same
  cases proper with
  | null => cases member
  | closure layout env =>
    cases List.mem_singleton.mp member
    exact .closure layout env
  | builtin name index =>
    cases List.mem_singleton.mp member
    exact .builtin name index
  | vector vectors items => exact items item member

theorem cellIsProper_atom (a : Atom) : CellIsProper (.atom a) :=
  fun _ same => nomatch same

theorem isProper_ofAtoms (kind : ElementKind) (elements : List kind.Carrier) :
    (ofAtoms kind elements).IsProper := by
  refine .of_cells (Kind.hasVectors_atomic kind) fun cell member => ?_
  obtain ⟨x, _, rfl⟩ := List.mem_map.mp member
  exact cellIsProper_atom _

theorem isProper_toItem {cell : Cell} (proper : CellIsProper cell) : cell.toItem.IsProper := by
  cases cell with
  | atom a =>
    refine .of_cells (Kind.hasVectors_atomic _) fun cell member => ?_
    rw [List.mem_singleton.mp member]
    exact cellIsProper_atom a
  | item v => exact proper v rfl

theorem cellIsProper_coerce {cell : Cell} (proper : CellIsProper cell) (kind : Kind) :
    CellIsProper (cell.coerce kind) := by
  cases kind with
  | atomic kind => exact cellIsProper_atom _
  | list =>
    intro item same
    cases same
    exact isProper_toItem proper
  | null => exact proper
  | closure => exact proper

theorem IsProper.toVector {kind : Kind} (proper : v.IsProper)
    (vectors : kind.HasVectors) (made : v.toVector kind = .ok w) :
    w.IsProper := by
  cases v with
  | null =>
    cases made
    exact .of_cells vectors fun cell member => nomatch member
  | vector own cells extras =>
    cases made
    refine .of_cells vectors fun cell member => ?_
    obtain ⟨before, listed, rfl⟩ := List.mem_map.mp member
    exact cellIsProper_coerce (proper.cells before listed) kind
  | closure layout env => cases made
  | builtin name index => cases made

theorem IsProper.coerceTo {kind : Kind} (proper : v.IsProper) (made : v.coerceTo kind = .ok w) :
    w.IsProper := by
  cases kind with
  | null =>
    cases made
    exact .null
  | atomic kind => exact IsProper.toVector proper (Kind.hasVectors_atomic kind) made
  | list => exact IsProper.toVector proper Kind.hasVectors_list made
  | closure =>
    rw [Eager.coerceTo] at made
    split at made
    · cases made
      exact proper
    · cases made

theorem IsProper.mapExtras (proper : v.IsProper) (change : Extras → Extras) :
    (v.mapExtras change).IsProper := by
  cases proper with
  | vector vectors items => exact .vector vectors items
  | null => exact .null
  | closure layout env => exact .closure layout env
  | builtin name index => exact .builtin name index

theorem IsProper.withNames {names : List (Option String)} (proper : v.IsProper)
    (made : v.withNames names = .ok w) : w.IsProper := by
  unfold Eager.withNames at made
  split at made
  · split at made
    · cases made
      exact proper.mapExtras _
    · cases made
  · cases made
    exact proper

theorem IsProper.withDims {dims : List Nat} (proper : v.IsProper)
    (made : v.withDims dims = .ok w) : w.IsProper := by
  unfold Eager.withDims at made
  split at made
  · split at made
    · cases made
    · split at made
      · cases made
      · split at made
        · cases made
          exact proper.mapExtras _
        · cases made
  · cases made
    exact proper

theorem IsProper.set {index : Nat} {element : Cell} (proper : v.IsProper)
    (suited : CellIsProper element) (made : v.set index element = .ok w) : w.IsProper := by
  cases holding : kindHolding v.kind element.kind with
  | none =>
    rw [Eager.set, holding] at made
    cases made
  | some target =>
    obtain ⟨vectors, cells, extras, widened⟩ :=
      coerceTo_of_kindHolding element.hasVectors_kind holding
    have wide := proper.coerceTo widened
    rw [set_eq holding widened] at made
    split at made
    · cases made
    · cases made
      refine .of_cells vectors fun cell member => ?_
      rcases List.mem_or_eq_of_mem_set member with old | rfl
      · exact wide.cells cell old
      · exact cellIsProper_coerce suited target

theorem IsProper.get {index : Nat} {cell : Cell} (proper : v.IsProper)
    (read : v.get index = .ok cell) : CellIsProper cell := by
  -- A function is its own only element.
  have itself (function : Eager) (proper : function.IsProper)
      (read : (if index = 0 then .ok (.item function)
        else .error (.defect (.indexIntoFunction index))) = (.ok cell : Except Stop Cell)) :
      CellIsProper cell := by
    split at read
    · cases read
      rintro _ ⟨⟩
      exact proper
    · cases read
  cases v with
  | null => cases read
  | vector kind cells extras =>
    rw [Eager.get] at read
    split at read
    · next found =>
      cases read
      exact proper.cells cell (List.mem_of_getElem? found)
    · cases read
  | closure layout env => exact itself _ proper read
  | builtin name handle => exact itself _ proper read

theorem isProper_zeroed {kind : Kind} {length : Nat} (made : zeroed kind length = .ok v) :
    v.IsProper := by
  unfold zeroed at made
  split at made
  · cases made
  · cases kind with
    | atomic kind =>
      cases made
      exact isProper_ofAtoms kind _
    | list =>
      cases made
      refine .of_cells Kind.hasVectors_list fun cell member => ?_
      rw [List.eq_of_mem_replicate member]
      exact fun item same => by cases same; exact .null
    | null =>
      cases made
      exact .null
    | closure =>
      cases made
      exact .null

/-- What an instruction makes of proper values is proper. -/
theorem isProper_perform {pool : List Eager} {instruction : Instruction}
    (proper : ∀ v ∈ pool, v.IsProper) (made : perform pool instruction = .ok w) :
    w.IsProper := by
  have proper_at (position : Nat) : (resultAt pool position).IsProper :=
    property_at proper .null position
  cases instruction with
  | null =>
    cases made
    exact .null
  | closure layout env =>
    cases made
    exact .closure layout env
  | builtin name index =>
    cases made
    exact .builtin name index
  | atoms kind elements =>
    cases made
    exact isProper_ofAtoms kind elements
  | list items =>
    cases made
    refine .of_cells Kind.hasVectors_list fun cell member => ?_
    obtain ⟨position, _, rfl⟩ := List.mem_map.mp member
    exact fun item same => by cases same; exact proper_at position
  | namedList entries =>
    cases made
    refine .of_cells Kind.hasVectors_list fun cell member => ?_
    obtain ⟨entry, listed, rfl⟩ := List.mem_map.mp member
    obtain ⟨position, _, rfl⟩ := List.mem_map.mp listed
    exact fun item same => by cases same; exact proper_at _
  | sequence start stop step =>
    change sequence start stop step = _ at made
    rw [sequence] at made
    split at made
    · cases made
      exact isProper_ofAtoms _ _
    · cases made
  | upTo stop =>
    change upTo stop = _ at made
    rw [upTo] at made
    split at made
    · cases made
      exact isProper_ofAtoms _ _
    · cases made
  | zeroed kind length => exact isProper_zeroed made
  | coerceTo source kind => exact (proper_at source).coerceTo made
  | traced source =>
    cases made
    exact proper_at source
  | materialize source =>
    cases made
    exact proper_at source
  | strip source =>
    cases made
    exact (proper_at source).mapExtras _
  | stripKeepNames source =>
    cases made
    exact (proper_at source).mapExtras _
  | withNames source names => exact (proper_at source).withNames made
  | withDims source dims => exact (proper_at source).withDims made
  | withAttribute source name value =>
    cases made
    exact (proper_at source).mapExtras _
  | set source index atom => exact (proper_at source).set (cellIsProper_atom atom) made
  | setItem source index value =>
    refine (proper_at source).set (fun item same => ?_) made
    cases same
    exact proper_at value
  | item source index =>
    cases read : (resultAt pool source).get index with
    | error stop =>
      rw [perform, read] at made
      cases made
    | ok cell =>
      rw [perform, read] at made
      cases made
      exact isProper_toItem ((proper_at source).get read)

end Eager

/-! ### Any number of instructions -/

theorem Run.outcome_bind {σ α β : Type} (step : Run σ α) (next : α → Run σ β) (state : σ) :
    (∃ stop, step.outcome state = .error stop ∧ (step >>= next).outcome state = .error stop) ∨
      ∃ a later, step.outcome state = .ok a ∧
        (step >>= next).outcome state = (next a).outcome later := by
  cases result : step state with
  | ok a later =>
    refine .inr ⟨a, later, ?_, ?_⟩
    · rw [Run.outcome, result]
    · simp only [Run.outcome, bind, EStateM.bind, result]
  | error stop later =>
    refine .inl ⟨stop, ?_, ?_⟩
    · rw [Run.outcome, result]
    · simp only [Run.outcome, bind, EStateM.bind, result]

/-- What is built denotes what is built without views. -/
theorem build_eq (instructions : List Instruction) {pool : List Value}
    (proper : ∀ v ∈ pool, v.eager.IsProper) (heap : Heap) :
    ((build instructions pool).outcome heap).map (List.map Value.eager) =
      Eager.build instructions (pool.map Value.eager) := by
  induction instructions generalizing pool heap with
  | nil => rfl
  | cons instruction rest ih =>
    -- Both histories do the same instruction on pools that denote the same. The pools stay proper,
    -- which `perform_eq` needs for the next instruction.
    have one := perform_eq instruction proper heap
    rw [build, Eager.build]
    rcases Run.outcome_bind (instruction.perform pool) (fun v => build rest (pool ++ [v])) heap with
      ⟨stop, failed, stopped⟩ | ⟨v, later, made, continued⟩
    · rw [failed] at one
      rw [stopped, ← one]
      rfl
    · rw [made] at one
      have new : v.eager.IsProper :=
        Eager.isProper_perform (List.forall_mem_map.mpr proper) one.symm
      have next : ∀ w ∈ pool ++ [v], w.eager.IsProper :=
        List.forall_mem_append.mpr ⟨proper, List.forall_mem_singleton.mpr new⟩
      rw [continued, ih next later, ← one, List.map_append]
      rfl

/-- All results without views are proper. -/
theorem Eager.isProper_build (instructions : List Instruction) {pool values : List Eager}
    (proper : ∀ v ∈ pool, v.IsProper) (built : build instructions pool = .ok values) :
    ∀ v ∈ values, v.IsProper := by
  induction instructions generalizing pool with
  | nil =>
    cases built
    exact proper
  | cons instruction rest ih =>
    cases made : perform pool instruction with
    | error stop =>
      rw [build, made] at built
      cases built
    | ok v =>
      rw [build, made] at built
      have new : v.IsProper := isProper_perform proper made
      exact ih (List.forall_mem_append.mpr ⟨proper, List.forall_mem_singleton.mpr new⟩) built

/-- What each instruction makes true of its result, from results of which it is true, is true of
all that is built. -/
theorem forall_mem_of_build {P : Value → Prop}
    (performs : ∀ (instruction : Instruction) (pool : List Value) (heap later : Heap) (v : Value),
      (∀ w ∈ pool, P w) → instruction.perform pool heap = .ok v later → P v)
    {instructions : List Instruction} {pool results : List Value} (earlier : ∀ v ∈ pool, P v)
    {heap later : Heap} (built : build instructions pool heap = .ok results later) :
    ∀ v ∈ results, P v := by
  induction instructions generalizing pool heap with
  | nil =>
    cases built
    exact earlier
  | cons instruction rest ih =>
    change EStateM.bind _ _ _ = _ at built
    rw [EStateM.bind] at built
    split at built
    · next v after made =>
      have new : P v := performs instruction pool heap after v earlier made
      exact ih (List.forall_mem_append.mpr ⟨earlier, List.forall_mem_singleton.mpr new⟩) built
    · cases built

/-! ### Looking alike -/

/-- The dimensions of a value. -/
def Value.dims (v : Value) : Option (List Nat) :=
  v.metadata.bind Metadata.dims

/-- The attributes of a value. -/
def Value.attributes (v : Value) : List (Symbol × Value) :=
  (v.metadata.map Metadata.attributes).getD []

mutual

/-- Whether a value looks like one without views: it is of the same kind and size, and carries
the same, and each of its elements can be read and looks like the element there. -/
inductive Shows : Value → Eager → Prop where
  | null : Shows .null .null
  | closure (layout : Layout) (env : FrameId) : Shows (.closure layout env) (.closure layout env)
  | builtin (name : Symbol) (index : Nat) : Shows (.builtin name index) (.builtin name index)
  | vector {v : Value} {kind : Kind} {cells : List Cell} {extras : Extras}
      (kind_eq : v.kind = kind)
      (size_eq : v.size = cells.length)
      (readable : ∀ index < v.size, ∃ reading, v.get index = .ok reading)
      (elements : ∀ (index : Nat) (reading : Metered Scalar) (cell : Cell),
        v.get index = .ok reading → cells[index]? = some cell → ShowsCell reading.value cell)
      (names_eq : v.names = extras.names)
      (dims_eq : v.dims = extras.dims)
      (attribute_names : v.attributes.map Prod.fst = extras.attributes.map Prod.fst)
      (attributes : ∀ (index : Nat) (entry : Symbol × Value) (other : Symbol × Eager),
        v.attributes[index]? = some entry → extras.attributes[index]? = some other →
        Shows entry.2 other.2) :
      Shows v (.vector kind cells extras)

/-- Whether an element looks like one of a value without views: atoms are the same, and list
items look alike. -/
inductive ShowsCell : Scalar → Cell → Prop where
  | atom (a : Atom) : ShowsCell (.atom a) (.atom a)
  | item {v : Value} {e : Eager} (shows : Shows v e) : ShowsCell (.item v) (.item e)

end

theorem getElem?_eagerAttributes {attributes : List (Symbol × Value)} {index : Nat}
    {entry : Symbol × Value} (found : attributes[index]? = some entry) :
    (eagerAttributes attributes)[index]? = some (entry.1, entry.2.eager) := by
  rw [eagerAttributes_eq, List.getElem?_map, found]
  rfl

/-- What a vector looks like follows from what its items and its attributes look like. -/
theorem shows_vector {storage : Storage} {metadata : Option Metadata}
    (items : ∀ v : Value, .item v.eager ∈ storage.cells → Shows v v.eager)
    (attributes : ∀ v : Value, ∀ name, (name, v.eager) ∈ (extrasOf metadata).attributes →
      Shows v v.eager) :
    Shows (.vector storage metadata) (Value.vector storage metadata).eager := by
  -- The items of the denotation are looked at, and not those of the storage, since a view has none.
  have shows (element : Scalar) (member : element.cell ∈ storage.cells) :
      ShowsCell element element.cell := by
    cases element with
    | atom a => exact .atom a
    | item v => exact .item (items v member)
  refine .vector rfl storage.size_eq (fun index inside => ⟨_, Value.get_eq inside⟩) ?_ ?_ ?_ ?_ ?_
  · intro index reading cell read found
    have inside : index < (Value.vector storage metadata).size := by
      rw [Value.size_eq]
      exact (List.getElem?_eq_some_iff.mp found).1
    rw [Value.get_eq inside] at read
    cases read
    have member := List.mem_of_getElem? found
    rw [← storage.element_eq found] at member ⊢
    exact shows _ member
  · cases metadata with
    | none => rfl
    | some m => cases m; rfl
  · cases metadata with
    | none => rfl
    | some m => cases m; rfl
  · cases metadata with
    | none => rfl
    | some m =>
      cases m with
      | mk dims names entries =>
        have same : (eagerAttributes entries).map Prod.fst = entries.map Prod.fst := by
          rw [eagerAttributes_eq, List.map_map]
          rfl
        exact same.symm
  · intro index entry other found there
    cases metadata with
    | none => cases found
    | some m =>
      cases m with
      | mk dims names entries =>
        have denotes := getElem?_eagerAttributes found
        obtain rfl : (entry.1, entry.2.eager) = other := Option.some.inj (denotes.symm.trans there)
        exact attributes entry.2 entry.1 (List.mem_of_getElem? denotes)

theorem sizeOf_attributes_lt (extras : Extras) : sizeOf extras.attributes < sizeOf extras := by
  cases extras
  simp only [Extras.attributes, Extras.mk.sizeOf_spec]
  omega

/-- A value looks like what it denotes. -/
theorem shows_eager (v : Value) : Shows v v.eager := by
  -- The recursion is on what the value denotes: an item behind a view is no part of the value
  -- itself.
  cases v with
  | null => exact .null
  | closure layout env => exact .closure layout env
  | builtin name index => exact .builtin name index
  | vector storage metadata =>
    refine shows_vector (fun item member => ?_) fun value name member => ?_
    · have smaller := List.sizeOf_lt_of_mem member
      exact shows_eager item
    · have smaller := List.sizeOf_lt_of_mem member
      exact shows_eager value
termination_by sizeOf v.eager
decreasing_by
  · simp only [Value.eager, Eager.vector.sizeOf_spec, Cell.item.sizeOf_spec] at smaller ⊢
    omega
  · have inside := sizeOf_attributes_lt (extrasOf metadata)
    simp only [Value.eager, Eager.vector.sizeOf_spec, Prod.mk.sizeOf_spec] at smaller ⊢
    omega

/-- Whether operations have results that look alike, or stop in the same way. -/
inductive Alike : EStateM.Result Stop Heap (List Value) → Except Stop (List Eager) → Prop where
  | built {values : List Value} {results : List Eager} {heap : Heap}
      (shows : List.Forall₂ Shows values results) : Alike (.ok values heap) (.ok results)
  | stopped (stop : Stop) (heap : Heap) : Alike (.error stop heap) (.error stop)

/-- What is built looks like what is built without views, and whichever way the elements of a
result are read, they are the same. -/
theorem built_values_show_eager_values (instructions : List Instruction) (heap : Heap) :
    Alike (build instructions [] heap) (Eager.build instructions []) ∧
      ∀ values later, build instructions [] heap = .ok values later →
        ∀ v ∈ values, v.IsReadAlike := by
  have denotes := build_eq instructions (fun v (member : v ∈ []) => nomatch member) heap
  rw [Run.outcome] at denotes
  cases result : build instructions [] heap with
  | error stop later =>
    rw [result] at denotes
    have stopped : Eager.build instructions [] = .error stop := denotes.symm
    rw [stopped]
    exact ⟨.stopped stop later, nofun⟩
  | ok values later =>
    rw [result] at denotes
    have built : Eager.build instructions [] = .ok (values.map Value.eager) := denotes.symm
    have proper := Eager.isProper_build instructions (fun v (member : v ∈ []) => nomatch member)
      built
    rw [built]
    refine ⟨.built ?_, ?_⟩
    · rw [List.forall₂_map_right_iff, List.forall₂_same]
      exact fun v _ => shows_eager v
    · rintro _ _ ⟨⟩ v member
      exact Value.isReadAlike (proper _ (List.mem_map_of_mem member)).isOrdinary

/-- A range, the range read as truth values, the same behind counters, and stored. -/
def storedTruthValues : List Instruction :=
  [.upTo 2, .coerceTo 0 (.atomic .logical), .traced 1, .materialize 2]

theorem built_values_show_eager_values_storedTruthValues :
    ∃ values later, build storedTruthValues [] .empty = .ok values later ∧ values.length = 4 ∧
      ∀ v ∈ values, v.IsReadAlike := by
  have built : build storedTruthValues [] .empty = .ok _ _ := rfl
  exact ⟨_, _, built, rfl,
    (built_values_show_eager_values storedTruthValues .empty).2 _ _ built⟩

end Vectorial
