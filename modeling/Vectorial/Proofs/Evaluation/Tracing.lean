import Vectorial.Proofs.Evaluation.Disregard
import Vectorial.Proofs.Value.Denotation

/-!
# Tracing of views

In a mode that traces views, what operators and builtins deliver is put behind counters if it
is computed on demand. Counters show in nothing that is read from a value. Two interpreters of
one program, one of which traces views, therefore go through the same states, except that there
are counters in front of some views of the one that traces.

## Main definitions

* `Disregard.counting`: counters are disregarded;
* `Mode.untraced`: the mode with a limit in which views are not traced;
* `Interpreter.SameButCounters`: interpreters in states that are the same but for counters.

## Main results

* `Value.eager_without`: a value denotes the same without its counters;
* `Interpreter.tracing_transparent`: tracing makes no difference but in counters.
-/

namespace Vectorial

/-- Counters in front of views are disregarded. -/
def Disregard.counting : Disregard :=
  { counters := true }

/-- The mode with a limit on the depth of calls, or without one, that does not trace views. -/
def Mode.untraced : Option Nat → Mode
  | none => .interpret
  | some limit => .bounded limit

/-! ### What values denote -/

section

variable {d : Disregard}

mutual

/-- A value denotes what it denotes without counters. -/
theorem Value.eager_without (kept : d.editions = false) : ∀ v : Value, (v.without d).eager = v.eager
  | .null => rfl
  | .vector storage metadata => by
    rw [Value.without, Value.eager, Value.eager, storage.kind_without, storage.cells_without kept,
      extrasOf_without kept metadata]
  | .closure layout env => by rw [Value.without, layout.without_of_editions kept]
  | .builtin .. => rfl

theorem Storage.cells_without (kept : d.editions = false) :
    ∀ storage : Storage, (storage.without d).cells = storage.cells
  | .atoms .. => rfl
  | .list _ items => cellsOfItems_without kept items
  | .view source => source.cells_without kept

theorem View.cells_without (kept : d.editions = false) :
    ∀ view : View, (view.without d).cells = view.cells
  | .sequence _ => rfl
  | .range _ => rfl
  | .coerce source _ => by rw [View.without, View.cells, View.cells, source.eager_without kept]
  | .traced _ inner => by
    rw [View.without]
    split <;> exact inner.cells_without kept

theorem cellsOfItems_without (kept : d.editions = false) :
    ∀ items : List Value, cellsOfItems (itemsWithout d items) = cellsOfItems items
  | [] => rfl
  | item :: rest => by
    rw [itemsWithout, cellsOfItems, cellsOfItems, item.eager_without kept,
      cellsOfItems_without kept rest]

theorem extrasOf_without (kept : d.editions = false) :
    ∀ metadata : Option Metadata, extrasOf (metadataWithout d metadata) = extrasOf metadata
  | none => rfl
  | some (.mk _ _ attributes) => by
    rw [metadataWithout, extrasOf, extrasOf, eagerAttributes_without kept attributes]

theorem eagerAttributes_without (kept : d.editions = false) :
    ∀ attributes : List (Symbol × Value),
      eagerAttributes (attributesWithout d attributes) = eagerAttributes attributes
  | [] => rfl
  | (_, value) :: rest => by
    rw [attributesWithout, eagerAttributes, eagerAttributes, value.eager_without kept,
      eagerAttributes_without kept rest]

end

end

/-- Values that are the same but for counters. -/
def Value.SameButCounters (v w : Value) : Prop :=
  w.without .counting = v.without .counting

/-- Values that are the same but for counters denote the same: they have the same kind and size,
the same elements, and carry the same. -/
theorem Value.SameButCounters.eager_eq {v w : Value} (same : v.SameButCounters w) :
    w.eager = v.eager := by
  rw [← w.eager_without (d := .counting) rfl, same, v.eager_without rfl]

namespace Interpreter

/-- Interpreters in states that are the same but for counters. -/
structure SameButCounters (interpreter traced : Interpreter) : Prop where
  frames (id : FrameId) : (traced.machine.heap.frame? id).map (Frame.without .counting) =
    (interpreter.machine.heap.frame? id).map (Frame.without .counting)
  globals (name : Symbol) : (traced.machine.global? name).map (Value.without .counting) =
    (interpreter.machine.global? name).map (Value.without .counting)
  outermost (name : Symbol) : (traced.global name).map (Value.without .counting) =
    (interpreter.global name).map (Value.without .counting)
  stack : traced.machine.stack = interpreter.machine.stack
  cache : traced.machine.cache = interpreter.machine.cache
  activations : traced.machine.activations = interpreter.machine.activations
  storages : traced.machine.heap.nextStorage = interpreter.machine.heap.nextStorage
  queue : traced.queue = interpreter.queue
  sink : traced.sink = interpreter.sink

end Interpreter

/-! ### The region of everything -/

namespace Region

/-- All frames and all functions, in machines that keep the same bindings. -/
def everything : Region .counting where
  base := 0
  keeps _ := True
  admits _ := True
  texts _ := True
  caches cache cache' := cache' = cache
  past := ([], [])
  keeps_of_le _ := trivial

theorem values_everything : everything.Values = Value.SameButCounters := by
  funext v w
  exact propext ⟨fun alike => alike.left, fun same => ⟨same, fun _ _ => ⟨trivial, trivial⟩⟩⟩

/-- The mode makes no difference to what is around. -/
theorem laws_everything {context : Context} (standard : context.builtins = .standard)
    (mode : Mode) : everything.Laws context { context with mode } where
  same_builtins := rfl
  disregards := by
    rw [standard]
    exact Registry.standard_disregards _
  handsOn := by
    rw [standard]
    exact Registry.standard_handsOn
  counting kept := nomatch kept
  texts_part _ _ := trivial
  texts_own _ _ _ := trivial
  function {site params body} _ := by
    cases context.program.layout? site.id with
    | none => exact .none
    | some layout => exact .some ⟨rfl, trivial⟩
  bindings {m n v f site labels} same _ _ _ := by
    -- The same bindings are kept, so that a call is matched anew in both or in neither.
    have known : n.known site f.key = m.known site f.key := by
      rw [Machine.known, Machine.known, same]
    unfold Machine.bindings
    rw [known]
    cases m.known site f.key with
    | some binding => exact .ok ⟨rfl, same⟩
    | none =>
      cases Matching.matchCall f.formals labels with
      | error cause => exact .error cause
      | ok binding =>
        refine .ok ⟨rfl, ?_⟩
        change (n.keep site f.key binding).cache = (m.keep site f.key binding).cache
        unfold Machine.keep
        cases kept : m.cache <;> cases site <;> simp [show n.cache = m.cache from same, kept]

theorem machines_everything (m : Machine) (calls : m.activations = []) :
    everything.Machines m m := by
  have values (v : Value) : everything.Values v v := ⟨rfl, fun _ _ => ⟨trivial, trivial⟩⟩
  have found (value : Option Value) : Option.Rel everything.Values value value := by
    cases value with
    | none => exact .none
    | some v => exact .some (values v)
  refine ⟨⟨fun id _ => ?_, rfl, Nat.zero_le _, rfl, fun _ => rfl⟩, fun name => found _, rfl, rfl,
    [], calls, calls⟩
  cases m.heap.frame? id with
  | none => exact .none
  | some frame =>
    exact .some ⟨rfl, List.forall₂_same.mpr fun _ _ => found _, rfl, fun _ _ => trivial⟩

end Region

namespace Interpreter

open Region

/-- Interpreters of one program alongside each other are in states that are the same but for
counters. -/
theorem Alongside.sameButCounters {interpreter traced : Interpreter}
    (alongside : Alongside everything.Machines interpreter traced)
    (program : traced.context.program = interpreter.context.program) :
    interpreter.SameButCounters traced := by
  obtain ⟨root, machine, queue, sink⟩ := alongside
  obtain ⟨since, calls, calls'⟩ := machine.activations
  refine ⟨fun id => machine.heap.left trivial, fun name => left_of_rel (machine.globals name),
    fun name => left_of_rel (R := everything) ?_, machine.stack, machine.cache,
    calls'.trans calls.symm, machine.heap.storage, queue, sink⟩
  unfold global rootSlot
  rw [program, root]
  refine rel_or ?_ (machine.globals name)
  cases interpreter.context.program.toplevel.slotOf name with
  | none => exact .none
  | some slot => exact machine.heap.get trivial slot

/-- Tracing views makes no difference but in counters. An interpreter that traces views can be built
if one that does not can. Whatever the host does with both, they answer the same or fail with the
same error, with its place and backtrace; they give the same diagnostics away; and they are in the
same states afterwards. This holds at every step, as every beginning of a session is one, and for
values that the host hands in with counters or without. -/
theorem tracing_transparent (settings : Settings) (standard : settings.builtins = .standard)
    (limit : Option Nat) (heap : Heap) :
    Likewise
      (fun interpreter traced : Interpreter => ∀ actions actions',
        List.Forall₂ (HostAction.Alike Value.SameButCounters) actions actions' →
          List.Forall₂
            (HostResponse.Alike (Likewise fun v w => v.SameButCounters w ∧ w.eager = v.eager))
            (interpreter.responses actions) (traced.responses actions') ∧
          (interpreter.afterActions actions).SameButCounters (traced.afterActions actions'))
      (build { settings with mode := .untraced limit } heap)
      (build { settings with mode := .traced limit } heap) := by
  rw [build_eq, build_eq]
  dsimp only
  cases Program.resolve heap.frames.size settings.top with
  | error defect => exact .error defect
  | ok program =>
    refine .ok fun actions actions' alike => ?_
    let interpreter := ofProgram { settings with mode := .untraced limit } heap program
    let traced := ofProgram { settings with mode := .traced limit } heap program
    have laws : everything.Laws interpreter.context traced.context :=
      laws_everything standard (.traced limit)
    -- Before the host does anything, the two differ in their modes only.
    have limits : (Mode.untraced limit).limit = limit := by cases limit <;> rfl
    have same : traced.machine = interpreter.machine := by
      change Machine.mk _ _ ⟨[], limit⟩ _ _ = Machine.mk _ _ ⟨[], (Mode.untraced limit).limit⟩ _ _
      rw [limits]
    have alongside : Alongside everything.Machines interpreter traced := by
      refine ⟨rfl, ?_, rfl, rfl⟩
      rw [same]
      exact machines_everything interpreter.machine rfl
    rw [← values_everything] at alike
    obtain ⟨responses, after, same_program⟩ := session laws rfl alongside trivial trivial alike
    refine ⟨responses.imp fun response response' related => related.mono ?_,
      after.sameButCounters same_program⟩
    intro answer answer' likewise
    exact likewise.mono fun v w values => ⟨values.left, Value.SameButCounters.eager_eq values.left⟩

/-- The program `seq(1L, 3L)`. -/
def oneToThree : Expr :=
  .call ⟨3, default⟩ (.ident ⟨0, default⟩ "seq")
    [(none, .literal ⟨1, default⟩ (.integer 1)), (none, .literal ⟨2, default⟩ (.integer 3))]

/-- What the program delivers is computed on demand, and is behind counters where views are
traced. That is all the difference. -/
theorem tracing_transparent_oneToThree :
    ∃ interpreter traced numbers,
      build { top := oneToThree, mode := .interpret } .empty = .ok interpreter ∧
      build { top := oneToThree, mode := .traced none } .empty = .ok traced ∧
      interpreter.responses [.ask (.run 2), .takeDiagnostics] =
        [.answer (.ok (.vector (.view numbers) none)), .diagnostics []] ∧
      traced.responses [.ask (.run 2), .takeDiagnostics] =
        [.answer (.ok (.vector (.view (.traced 0 numbers)) none)), .diagnostics []] ∧
      (interpreter.afterActions [.ask (.run 2), .takeDiagnostics]).SameButCounters
        (traced.afterActions [.ask (.run 2), .takeDiagnostics]) := by
  obtain ⟨interpreter, built⟩ : ∃ interpreter,
      build { top := oneToThree, mode := .interpret } .empty = .ok interpreter := ⟨_, rfl⟩
  obtain ⟨traced, built'⟩ : ∃ traced,
      build { top := oneToThree, mode := .traced none } .empty = .ok traced := ⟨_, rfl⟩
  have transparent := tracing_transparent { top := oneToThree } rfl none .empty
  change Likewise _ (build { top := oneToThree, mode := .interpret } .empty)
    (build { top := oneToThree, mode := .traced none } .empty) at transparent
  rw [built, built'] at transparent
  cases transparent with
  | ok same =>
    refine ⟨interpreter, traced, .sequence ⟨1, 3, 1, by decide⟩, built, built', ?_, ?_,
      (same _ _ (.cons (.ask (.run 2)) (.cons .takeDiagnostics .nil))).2⟩
    · cases built
      rfl
    · cases built'
      rfl

end Interpreter

end Vectorial
