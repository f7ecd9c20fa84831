import Vectorial.Diagnostic.Queue
import Vectorial.Diagnostic.Report
import Vectorial.Evaluation.Eval
import Vectorial.Heap.Collection

/-!
# Interpreters

An interpreter runs one program. Its variables stay between runs, its host may call
functions and set variables of its own, and every error is also reported. When an
interpreter is dropped it clears the cycles among the frames that nobody else holds, so
that functions which the host still holds keep working.

## Main definitions

* `Interpreter.Settings`: what an interpreter is built from;
* `Interpreter.build`, `Interpreter.drop`: its beginning and its end;
* `Interpreter.run`, `Interpreter.callValue`: evaluation;
* `Interpreter.global`, `Interpreter.setGlobal`: variables of the outermost level;
* `Interpreter.takeDiagnostics`: what was reported.
-/

namespace Vectorial

namespace Interpreter

/-- What an interpreter is built from. -/
structure Settings where
  top : Expr
  mode : Mode := .interpret
  builtins : Registry := .standard
  globals : List (Symbol × Value) := []
  /-- Whether bindings are kept from one call to the next. -/
  keepsBindings : Bool := true
  /-- Which errors are kept. -/
  queue : Queue.Settings := {}
  /-- Whether errors go to the host at once and are not kept. -/
  hasSink : Bool := false

end Interpreter

/-- A program in execution. -/
structure Interpreter where
  context : Context
  root : FrameId
  machine : Machine
  queue : Queue
  /-- What went to the host, if errors do. -/
  sink : Option (List Diagnostic)

namespace Interpreter

/-- The interpreter of a program, in a heap that may have frames of others. The builtins
are global variables, which the given ones may replace. -/
def build (settings : Settings) (heap : Heap) : Except Defect Interpreter := do
  let program ← Program.resolve heap.frames.size settings.top
  let (root, heap) := heap.allocate (.unbound program.toplevel none)
  let builtins := settings.builtins.visible.map fun (name, handle) =>
    (name, Value.builtin name handle)
  pure
    { context := { program, builtins := settings.builtins, mode := settings.mode }
      root
      machine :=
        { heap
          globals := settings.globals.foldl (fun all (name, v) => setEntry name v all) builtins
          stack := { limit := settings.mode.limit }
          cache := if settings.keepsBindings then some [] else none
          activations := [] }
      queue := .empty settings.queue
      sink := if settings.hasSink then some [] else none }

variable (interpreter : Interpreter)

/-! ### Evaluation -/

/-- The interpreter after a report. -/
def report (record : Diagnostic) : Interpreter :=
  match interpreter.sink with
  | some records => { interpreter with sink := some (records ++ [record]) }
  | none => { interpreter with queue := (interpreter.queue.emit record).2 }

/-- Performs an evaluation step. An error is reported. -/
def perform (step : EvalM Value) : Except Stop Value × Interpreter :=
  match step interpreter.machine with
  | .ok value machine => (.ok value, { interpreter with machine })
  | .error (.error e) machine =>
    (.error (.error e), { interpreter with machine }.report e.report)
  | .error stop machine => (.error stop, { interpreter with machine })

/-- Evaluates the program, to a bounded depth. -/
def run (depth : Nat) : Except Stop Value × Interpreter :=
  interpreter.perform <|
    EvalM.eval interpreter.context depth interpreter.context.program.toplevel.body
      interpreter.root

/-- Calls a value with named actuals, to a bounded depth. -/
def callValue (depth : Nat) (callee : Value) (actuals : Parts) :
    Except Stop Value × Interpreter :=
  interpreter.perform <|
    EvalM.call interpreter.context (EvalM.eval interpreter.context depth) callee actuals none

/-! ### Variables -/

/-- The slot of a variable of the outermost level. -/
def rootSlot (name : Symbol) : Option Nat :=
  interpreter.context.program.toplevel.slotOf name

/-- The value of a name at the outermost level. -/
def global (name : Symbol) : Option Value :=
  ((interpreter.rootSlot name).bind (interpreter.machine.heap.get interpreter.root)).or
    (interpreter.machine.global? name)

/-- The slot in the outermost frame that binding a name at the outermost level binds, if there
is one. -/
def rootPlace (name : Symbol) : Option (FrameId × Nat) :=
  (interpreter.rootSlot name).map fun slot => (interpreter.root, slot)

/-- Binds a name at the outermost level. -/
def setGlobal (name : Symbol) (value : Value) : Except Defect Interpreter :=
  (interpreter.machine.bindAt (interpreter.rootPlace name) name value).map fun machine =>
    { interpreter with machine }

/-! ### Inspection -/

/-- How many bindings are kept. -/
def cachedBindings : Nat :=
  (interpreter.machine.cache.getD []).length

/-- The errors kept, and the interpreter without them. -/
def takeDiagnostics : List Diagnostic × Interpreter :=
  let (records, queue) := interpreter.queue.flush
  (records, { interpreter with queue })

/-! ### End -/

/-- The frames of earlier calls that are still referred to, when the host holds
`outside`. -/
def liveActivations (outside : Holders) : List FrameId :=
  let own : Holders := ⟨[interpreter.root], interpreter.machine.globals.map Prod.snd⟩
  let alive := interpreter.machine.heap.alive (outside ++ own)
  interpreter.machine.activations.reverse.filter alive.contains

/-- The heap that an interpreter leaves behind when it is dropped: the frames that only
the interpreter held are cleared. -/
def drop (outside : Holders) : Heap :=
  (interpreter.machine.heap.collect (interpreter.liveActivations outside ++ [interpreter.root])
    (interpreter.machine.globals.map Prod.snd) outside).2

end Interpreter

end Vectorial
