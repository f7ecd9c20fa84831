import Vectorial.Proofs.Evaluation.Calls
import Vectorial.Proofs.Evaluation.KeptBindings

/-!
# Calls that get no binding

The callee of a call and then its actuals are evaluated, and only then the call is bound,
by the names and the number of the actuals. What the actuals did is done when that fails,
but nothing else is: no frame is made, no default and no body is evaluated, and the machine
is the one that the last actual has left.

No binding that is kept hides a failure: in a session of a program whose numbers identify
its nodes a call gets no binding exactly when matching fails.

## Main results

* `EvalM.eval_call_of_unbound`: the error of a call that gets no binding;
* `EvalM.bindings_eq_error_iff`: calls that get no binding in a session;
* `Interpreter.unbound_calls_abort`: what becomes of them;
* `Interpreter.actuals_come_before_binding`: the effects of actuals stay.
-/

namespace Vectorial

namespace EvalM

variable {context : Context} {depth : Nat} {site : Site} {callee : Expr}
  {actuals : List (Option Symbol × Expr)} {frame : FrameId} {m m₁ m₂ : Machine} {v : Value}
  {parts : Parts} {f : Callable} {cause : Cause}

theorem eval_call_of_unbound (called : eval context depth callee frame m = .ok v m₁)
    (given : evalActuals (eval context depth) frame actuals m₁ = .ok parts m₂)
    (callable : context.callable? v = some f)
    (unbound : m₂.bindings (some site) f (parts.map Prod.fst) = .error cause) :
    eval context (depth + 1) (.call site callee actuals) frame m =
      .error (.error ((m₂.stack.attach { cause }).withSpan site.span)) m₂ := by
  refine error_bind_iff.mpr (.inr ⟨v, m₁, called, error_bind_iff.mpr (.inr ⟨parts, m₂, given, ?_⟩)⟩)
  rw [call_of_callable (balanced_eval context depth) callable, unbound]

/-- Nothing of a function is evaluated in a call that gets no binding. -/
theorem not_callPart_of_unbound {evaluate : Evaluator} {layout : Layout} {env : FrameId}
    (unbound : m.bindings (some site) layout.callable (parts.map Prod.fst) = .error cause)
    (part : Moment) : ¬CallPart evaluate layout env parts (some site) m part := by
  intro visited
  obtain ⟨binding, bound, matched, -⟩ := exists_bound_of_callPart visited
  cases unbound.symm.trans matched

/-- Where bindings are kept only for calls of the program, a call gets the binding of matching,
whether it is kept or made. -/
theorem map_fst_bindings {base : FrameId} {top expr : Expr} {numbered : top.Numbered}
    {own : ∀ layout ∈ context.program.layouts, ∀ e ∈ ownText layout.params layout.body,
      e ∈ top.nodes}
    (fits : m.Fits (Discipline.keeping context base top numbered own))
    (known : context.formals? f.key = some f.formals)
    (node : .call site expr actuals ∈ top.nodes) :
    (m.bindings (some site) f (actuals.map Prod.fst)).map Prod.fst =
      Matching.matchCall f.formals (actuals.map Prod.fst) := by
  unfold Machine.bindings
  cases kept : m.known (some site) f.key with
  | some binding =>
    obtain ⟨cache, cached, found⟩ := Option.bind_eq_some_iff.mp kept
    obtain ⟨entry, listed, rfl⟩ := Option.map_eq_some_iff.mp found
    have key : entry.1 = (site.id, f.key) := by simpa using List.find?_some listed
    -- A kept binding was made at this place of the program, and so for the same names.
    have explained := fits.kept cache cached entry (List.mem_of_find?_eq_some listed)
    rw [key] at explained
    rw [explained.matched f.formals site expr actuals known node rfl]
    rfl
  | none => cases Matching.matchCall f.formals (actuals.map Prod.fst) <;> rfl

/-- So none is kept for a call that cannot be matched. -/
theorem bindings_eq_error_iff {base : FrameId} {top expr : Expr} {numbered : top.Numbered}
    {own : ∀ layout ∈ context.program.layouts, ∀ e ∈ ownText layout.params layout.body,
      e ∈ top.nodes}
    (fits : m.Fits (Discipline.keeping context base top numbered own))
    (known : context.formals? f.key = some f.formals)
    (node : .call site expr actuals ∈ top.nodes) :
    m.bindings (some site) f (actuals.map Prod.fst) = .error cause ↔
      Matching.matchCall f.formals (actuals.map Prod.fst) = .error cause := by
  rw [← map_fst_bindings fits known node]
  cases m.bindings (some site) f (actuals.map Prod.fst) with
  | error refused => constructor <;> rintro ⟨⟩ <;> rfl
  | ok bound => constructor <;> rintro ⟨⟩

/-- What is called when a value at hand is has the parameters that the program knows. -/
theorem formals?_of_callable {base : FrameId} {top : Expr} {numbered : top.Numbered}
    {own : ∀ layout ∈ context.program.layouts, ∀ e ∈ ownText layout.params layout.body,
      e ∈ top.nodes}
    (admitted : Discipline.Admits (Discipline.keeping context base top numbered own) m.heap v)
    (callable : context.callable? v = some f) : context.formals? f.key = some f.formals := by
  cases v with
  | closure layout env =>
    cases callable
    obtain ⟨-, known⟩ := admitted (layout, env) (List.mem_singleton_self _)
    rw [Context.formals?, known, Option.map_some]
  | builtin name handle =>
    obtain ⟨builtin, known, rfl⟩ := Option.map_eq_some_iff.mp callable
    rw [Context.formals?, known, Option.map_some]
  | null => cases callable
  | vector => cases callable

end EvalM

namespace Interpreter

open EvalM

/-- Calls that get no binding are aborted. Whatever the machine, such a call ends in the error of
matching at the place of the call, in the machine that the last of its actuals has left: all
frames and global variables are as they were right then, and no default and no body is evaluated.
And in every honest session of a program whose numbers identify its nodes, a call gets no binding
exactly when the names and the number of its actuals cannot be matched with the parameters. -/
theorem unbound_calls_abort {settings : Settings} {heap : Heap} {interpreter : Interpreter}
    (built : build settings heap = .ok interpreter)
    (numbered : settings.top.Numbered) (handsOn : settings.builtins.HandsOn)
    (closed : ∀ entry ∈ settings.globals, entry.2.closures = [])
    {depth : Nat} {site : Site} {callee : Expr} {actuals : List (Option Symbol × Expr)}
    {frame : FrameId} {m m₁ m₂ : Machine} {v : Value} {parts : Parts} {f : Callable}
    (called : eval interpreter.context depth callee frame m = .ok v m₁)
    (given : evalActuals (eval interpreter.context depth) frame actuals m₁ = .ok parts m₂)
    (callable : interpreter.context.callable? v = some f) (cause : Cause) :
    (m₂.bindings (some site) f (parts.map Prod.fst) = .error cause →
      eval interpreter.context (depth + 1) (.call site callee actuals) frame m =
          .error (.error ((m₂.stack.attach { cause }).withSpan site.span)) m₂ ∧
        ∀ layout env, v = .closure layout env → ∀ part,
          ¬CallPart (eval interpreter.context depth) layout env parts (some site) m₂ part) ∧
    ∀ requests, interpreter.Honest [] requests →
      interpreter.Evaluates requests ⟨.call site callee actuals, frame, m⟩ →
      (m₂.bindings (some site) f (parts.map Prod.fst) = .error cause ↔
        Matching.matchCall f.formals (actuals.map Prod.fst) = .error cause) := by
  refine ⟨?_, ?_⟩
  · intro unbound
    refine ⟨eval_call_of_unbound called given callable unbound, ?_⟩
    rintro layout env rfl part
    cases callable
    exact not_callPart_of_unbound unbound part
  · intro requests honest evaluates
    obtain ⟨own, fits⟩ := fits_keeping_of_build built numbered closed
    have handsOn : interpreter.context.builtins.HandsOn := by
      obtain ⟨program, -, rfl⟩ := build_eq_ok built
      exact handsOn
    have allowed := allowed_of_evaluates handsOn fits honest evaluates
    obtain ⟨follows, admitted, -, labels⟩ :=
      Discipline.Allowed.call (Discipline.sound_eval handsOn depth) allowed called given
    rw [labels]
    exact bindings_eq_error_iff follows.fits (formals?_of_callable admitted callable)
      allowed.placed.2

/-- The program `length(x <- 1L, 2L)`. -/
def assigningActual : Expr :=
  .call ⟨5, default⟩ (.ident ⟨1, default⟩ "length")
    [(none, .assign ⟨3, default⟩ "x" (.literal ⟨2, default⟩ (.integer 1))),
      (none, .literal ⟨4, default⟩ (.integer 2))]

theorem numbered_assigningActual : assigningActual.Numbered := by
  intro node listed other listed' same
  have nodes_eq : assigningActual.nodes =
      [.ident ⟨1, default⟩ "length", .literal ⟨2, default⟩ (.integer 1),
        .assign ⟨3, default⟩ "x" (.literal ⟨2, default⟩ (.integer 1)),
        .literal ⟨4, default⟩ (.integer 2), assigningActual] := rfl
  simp only [nodes_eq, List.mem_cons, List.not_mem_nil, or_false] at listed listed'
  rcases listed with rfl | rfl | rfl | rfl | rfl <;>
    rcases listed' with rfl | rfl | rfl | rfl | rfl <;>
      first | rfl | exact absurd same (by decide)

/-- The call ends with one actual too many in the machine that its last actual has left. -/
theorem unbound_calls_abort_assigningActual :
    ∃ interpreter v m₁ parts m₂, build { top := assigningActual } .empty = .ok interpreter ∧
      eval interpreter.context 2 (.ident ⟨1, default⟩ "length") interpreter.root
        interpreter.machine = .ok v m₁ ∧
      evalActuals (eval interpreter.context 2) interpreter.root
        [(none, .assign ⟨3, default⟩ "x" (.literal ⟨2, default⟩ (.integer 1))),
          (none, .literal ⟨4, default⟩ (.integer 2))] m₁ = .ok parts m₂ ∧
      eval interpreter.context 3 assigningActual interpreter.root interpreter.machine =
        .error (.error { cause := .tooMany "length" 1 (some 1) 2, span := some default }) m₂ := by
  obtain ⟨interpreter, v, m₁, parts, m₂, f, built, called, given, callable, unmatched, bare⟩ :
      ∃ interpreter v m₁ parts m₂ f,
        build { top := assigningActual } .empty = .ok interpreter ∧
        eval interpreter.context 2 (.ident ⟨1, default⟩ "length") interpreter.root
          interpreter.machine = .ok v m₁ ∧
        evalActuals (eval interpreter.context 2) interpreter.root
          [(none, .assign ⟨3, default⟩ "x" (.literal ⟨2, default⟩ (.integer 1))),
            (none, .literal ⟨4, default⟩ (.integer 2))] m₁ = .ok parts m₂ ∧
        interpreter.context.callable? v = some f ∧
        Matching.matchCall f.formals [none, none] = .error (.tooMany "length" 1 (some 1) 2) ∧
        m₂.stack = {} :=
    ⟨_, _, _, _, _, _, rfl, rfl, rfl, rfl, rfl, rfl⟩
  obtain ⟨abort, unbound_iff⟩ := @unbound_calls_abort _ _ _ built
    numbered_assigningActual Registry.standard_handsOn
    (fun _ member => (List.not_mem_nil member).elim) 2 ⟨5, default⟩ _ _ _ _ _ _ _ _ _
    called given callable (.tooMany "length" 1 (some 1) 2)
  have honest : interpreter.Honest [] [.run 3] :=
    ⟨fun _ handed => (List.not_mem_nil handed).elim, trivial⟩
  have start : interpreter.Evaluates [.run 3]
      ⟨assigningActual, interpreter.root, interpreter.machine⟩ := by
    obtain ⟨program, resolved, rfl⟩ := build_eq_ok built
    refine .inl (.run ?_)
    have body_eq : program.toplevel.body = assigningActual := Program.body_toplevel resolved
    change Visits _ 3 ⟨program.toplevel.body, _, _⟩ _
    rw [body_eq]
    exact .here
  obtain ⟨failed, -⟩ := abort ((unbound_iff [.run 3] honest start).mpr unmatched)
  rw [bare] at failed
  exact ⟨interpreter, v, m₁, parts, m₂, built, called, given, failed⟩

/-- The actuals of a call are evaluated before it is bound: in `length(x <- 1L, 2L)` no binding is
found, and `x`, which is not bound when the callee has been evaluated, is bound afterwards. -/
theorem actuals_come_before_binding :
    ∃ interpreter v m₁ e later, build { top := assigningActual } .empty = .ok interpreter ∧
      eval interpreter.context 2 (.ident ⟨1, default⟩ "length") interpreter.root
        interpreter.machine = .ok v m₁ ∧
      eval interpreter.context 3 assigningActual interpreter.root interpreter.machine =
        .error (.error e) later ∧
      e.cause = .tooMany "length" 1 (some 1) 2 ∧
      m₁.heap.get interpreter.root 0 = none ∧
      later.heap.get interpreter.root 0 = some (.ofInteger 1) :=
  ⟨_, _, _, _, _, rfl, rfl, rfl, rfl, rfl, rfl⟩

end Interpreter

end Vectorial
