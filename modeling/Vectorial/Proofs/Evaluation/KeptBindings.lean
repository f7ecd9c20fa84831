import Vectorial.Proofs.Evaluation.Agreement
import Vectorial.Proofs.Scope.Resolution
import Vectorial.Proofs.Session

/-!
# Kept bindings

Bindings are kept under the number of the call site and what is called. The names of the
actuals are a function of the site, and the formals are a function of the literal or of the
builtin, so that a kept binding is what matching the call again would give. Keeping
bindings therefore makes no difference to what a host sees.

Numbers identify nodes: two nodes of a program with the same number are the same node, even
where it occurs at several places.

## Main definitions

* `Expr.Numbered`: numbers identify nodes;
* `Context.Explains`: kept bindings that are what matching gives;
* `Discipline.keeping`: all kept bindings are of this kind.

## Main results

* `EvalM.agree_eval`: evaluation does not depend on kept bindings;
* `Interpreter.keepsBindings_transparent`: nor do the answers of an interpreter.
-/

namespace Vectorial

/-- Whether the number of a node identifies it. -/
def Expr.Numbered (top : Expr) : Prop :=
  ∀ node ∈ top.nodes, ∀ other ∈ top.nodes, node.id = other.id → node = other

/-- The parameters of what is called. -/
def Context.formals? (context : Context) : Callee → Option Formals
  | .literal id => (context.program.layout? id).map Layout.formals
  | .builtin handle => (context.builtins.get handle).map Builtin.formals

/-- Whether a binding kept for a call site and a callee is what matching gives, at every call
of the program with the number of the site. -/
structure Context.Explains (context : Context) (top : Expr) (id : NodeId) (callee : Callee)
    (binding : Binding) : Prop where
  formals : ∃ formals, context.formals? callee = some formals
  calls : ∃ site expr actuals, .call site expr actuals ∈ top.nodes ∧ site.id = id
  matched : ∀ formals site expr actuals, context.formals? callee = some formals →
    .call site expr actuals ∈ top.nodes → site.id = id →
    Matching.matchCall formals (actuals.map Prod.fst) = .ok binding

/-- What matching gives at one call explains a binding kept for it. -/
theorem Context.explains_of_call {context : Context} {top : Expr} (numbered : top.Numbered)
    {site : Site} {expr : Expr} {actuals : List (Option Symbol × Expr)} {callee : Callee}
    {formals : Formals} {binding : Binding} (node : .call site expr actuals ∈ top.nodes)
    (known : context.formals? callee = some formals)
    (matched : Matching.matchCall formals (actuals.map Prod.fst) = .ok binding) :
    context.Explains top site.id callee binding := by
  refine ⟨⟨formals, known⟩, ⟨site, expr, actuals, node, rfl⟩, ?_⟩
  intro other site' expr' actuals' same node' same_id
  rw [known] at same
  cases same
  -- Both calls have the number, so that they are the same call, with the same names.
  cases numbered _ node' _ node same_id
  exact matched

/-! ### The discipline -/

namespace Discipline

/-- Bindings are kept only for calls of the program, and are what matching gives. -/
def keeping (context : Context) (base : FrameId) (top : Expr) (numbered : top.Numbered)
    (own : ∀ layout ∈ context.program.layouts, ∀ e ∈ ownText layout.params layout.body,
      e ∈ top.nodes) : Discipline context base where
  guests _ := False
  outermost _ := True
  admits heap layout env :=
    (base ≤ env ∧ env < heap.frames.size) ∧
      context.program.layout? layout.literal = some layout
  places heap e frame := (base ≤ frame ∧ frame < heap.frames.size) ∧ e ∈ top.nodes
  binds := context.Explains top
  admits_env admitted := ⟨.inl admitted.1.1, admitted.1.2⟩
  admits_mono := by
    rintro heap later layout env grows ⟨⟨own, inside⟩, known⟩
    exact ⟨⟨own, grows.lt_size inside⟩, known⟩
  places_mono := by
    rintro heap later e frame grows ⟨⟨own, inside⟩, node⟩
    exact ⟨⟨own, grows.lt_size inside⟩, node⟩
  places_frame placed := ⟨.inl placed.1.1, placed.1.2⟩
  places_part := by
    rintro heap e part frame ⟨own, node⟩ inside
    have child := Expr.mem_children_of_mem_parts inside
    exact ⟨own, top.nodes_subset_of_mem_nodes node
      (Expr.nodes_subset_of_mem_children child part.mem_nodes_self)⟩
  admits_function := by
    -- What a literal makes is the layout found under its number, whatever layout was meant.
    rintro heap site params body frame layout ⟨own, -⟩ known
    refine ⟨own, ?_⟩
    rw [Program.literal_of_layout? known]
    exact known
  places_entered := by
    rintro heap later layout env id frame e ⟨-, known⟩ - found - - inside text
    refine ⟨⟨inside, ?_⟩, ?_⟩
    · exact Heap.exists_frame_iff.mp ⟨frame, found⟩
    · exact own layout (Program.mem_of_layout? known) e text
  binds_closure := by
    rintro heap site callee actuals frame env layout binding ⟨-, node⟩ ⟨-, known⟩ matched
    refine Context.explains_of_call numbered node ?_ matched
    rw [Context.formals?, known, Option.map_some]
  binds_builtin := by
    rintro heap site callee actuals frame handle builtin binding ⟨-, node⟩ known matched
    refine Context.explains_of_call numbered node ?_ matched
    rw [Context.formals?, known, Option.map_some]

end Discipline

/-! ### Evaluation without kept bindings -/

namespace EvalM

variable {context : Context} {base : FrameId} {D : Discipline context base}

/-- Matching agrees with matching anew if what is kept for the call is what matching gives. -/
theorem agree_matchKnown {site : Option Site} {callee : Callee} {formals : Formals}
    {labels : List (Option Symbol)} {m : Machine}
    (right : ∀ cache s binding, m.cache = some cache → site = some s →
      ((s.id, callee), binding) ∈ cache → Matching.matchCall formals labels = .ok binding) :
    Agree (fun _ => none) (matchKnown site callee formals labels)
      (matchKnown site callee formals labels) m := by
  rw [matchKnown]
  refine .get ?_
  cases kept : m.cache with
  | none =>
    have same : (m.recache fun _ => none).cache = none := rfl
    rw [same]
    exact .ofExcept _ _
  | some cache =>
    have same : (m.recache fun _ => none).cache = none := rfl
    rw [same]
    cases site with
    | none => exact .ofExcept _ _
    | some s =>
      dsimp only
      -- Only a binding that is found could differ from matching anew; it is one of those kept.
      cases known : knownBinding cache (s.id, callee) with
      | some binding =>
        obtain ⟨entry, found, rfl⟩ := Option.map_eq_some_iff.mp known
        have key : entry.1 = (s.id, callee) := by simpa using List.find?_some found
        have listed := List.mem_of_find?_eq_some found
        rw [right cache s entry.2 kept rfl (key ▸ listed)]
        rfl
      | none =>
        cases Matching.matchCall formals labels <;> rfl

section

variable {context : Context} {base : FrameId} {top : Expr} {numbered : top.Numbered}
variable {own : ∀ layout ∈ context.program.layouts, ∀ e ∈ ownText layout.params layout.body,
  e ∈ top.nodes}

/-- The matching of a call of the program agrees, whatever is called. -/
theorem matches_of_fits {site : Site} {expr : Expr} {actuals : List (Option Symbol × Expr)}
    {v : Value} {parts : Parts} {m : Machine}
    (fits : m.Fits (Discipline.keeping context base top numbered own))
    (admitted : Discipline.Admits (Discipline.keeping context base top numbered own) m.heap v)
    (node : .call site expr actuals ∈ top.nodes)
    (labels : parts.map Prod.fst = actuals.map Prod.fst) :
    Matches (fun _ => none) context v parts (some site) m := by
  have right (callee : Callee) (formals : Formals)
      (known : context.formals? callee = some formals) :
      Agree (fun _ => none) (matchKnown (some site) callee formals (parts.map Prod.fst))
        (matchKnown (some site) callee formals (parts.map Prod.fst)) m := by
    apply agree_matchKnown
    rintro cache _ binding kept ⟨⟩ listed
    have explained : context.Explains top site.id callee binding := fits.kept cache kept _ listed
    rw [labels]
    exact explained.matched formals site expr actuals known node rfl
  constructor
  · rintro layout env rfl
    -- A closure at hand has a layout that the program finds by its literal.
    obtain ⟨-, known⟩ := admitted (layout, env) (List.mem_singleton_self _)
    refine right _ _ ?_
    rw [Context.formals?, known, Option.map_some]
  · rintro name handle builtin rfl known
    refine right _ _ ?_
    rw [Context.formals?, known, Option.map_some]

/-- Evaluation does not depend on the bindings kept. -/
theorem agree_eval (handsOn : context.builtins.HandsOn) (depth : Nat) {moment : Moment}
    (allowed : Discipline.Allowed (Discipline.keeping context base top numbered own) moment) :
    Agree (fun _ => none) (eval context depth moment.expr moment.frame)
      (eval context depth moment.expr moment.frame) moment.machine := by
  induction depth generalizing moment with
  | zero => exact .stop _
  | succ depth ih =>
    have sound := Discipline.sound_eval (D := Discipline.keeping context base top numbered own)
      handsOn depth
    -- The parts agree by induction on the depth; what is left is the matching of a call.
    refine agree_step moment ?_ fun part inside =>
      ih (Discipline.allowed_of_part sound allowed inside)
    obtain ⟨e, frame, m⟩ := moment
    rintro site callee actuals v parts m₁ m₂ rfl called given
    obtain ⟨follows, admitted, -, labels⟩ := Discipline.Allowed.call sound allowed called given
    exact matches_of_fits follows.fits admitted allowed.placed.2 labels

end

end EvalM

/-! ### Interpreters without kept bindings -/

namespace Interpreter

/-- The interpreter without the bindings that it keeps, and without keeping others. -/
def forget (interpreter : Interpreter) : Interpreter :=
  { interpreter with machine := interpreter.machine.recache fun _ => none }

theorem perform_forget {interpreter : Interpreter} {action : EvalM Value}
    (agree : EvalM.Agree (fun _ => none) action action interpreter.machine) :
    interpreter.forget.perform action =
      ((interpreter.perform action).1, (interpreter.perform action).2.forget) := by
  rw [EvalM.Agree] at agree
  have same : interpreter.forget.machine = interpreter.machine.recache fun _ => none := rfl
  have report_forget (i : Interpreter) (record : Diagnostic) :
      (i.report record).forget = i.forget.report record := by
    -- Reporting looks at the queue only, which is open or closed.
    obtain ⟨context, root, machine, queue, _ | records⟩ := i <;> rfl
  unfold perform
  rw [same, agree]
  cases action interpreter.machine with
  | ok v later => rfl
  | error stop later =>
    cases stop with
    | error e =>
      dsimp only [EvalM.changed]
      rw [report_forget]
      rfl
    | defect defect => rfl
    | exhausted => rfl

theorem setGlobal_forget (interpreter : Interpreter) (name : Symbol) (v : Value) :
    interpreter.forget.setGlobal name v = (interpreter.setGlobal name v).map forget := by
  have same : interpreter.forget.rootPlace name = interpreter.rootPlace name := rfl
  -- Binding a variable does not touch the cache.
  have changes : interpreter.forget.machine.bindAt (interpreter.rootPlace name) name v =
      (interpreter.machine.bindAt (interpreter.rootPlace name) name v).map
        (.recache fun _ => none) :=
    EvalM.bindAt_recache _ _ _ _
  unfold setGlobal
  rw [same, changes]
  cases interpreter.machine.bindAt (interpreter.rootPlace name) name v <;> rfl

section

variable {context : Context} {base : FrameId} {top : Expr} {numbered : top.Numbered}
variable {own : ∀ layout ∈ context.program.layouts, ∀ e ∈ ownText layout.params layout.body,
  e ∈ top.nodes}
variable {interpreter : Interpreter} {given : List (Layout × FrameId)}

/-- One request of an honest host is served alike. -/
theorem serve_forget (handsOn : context.builtins.HandsOn)
    (fits : interpreter.Fits (Discipline.keeping context base top numbered own) given)
    {request : Request} {rest : List Request}
    (honest : interpreter.Honest given (request :: rest)) :
    interpreter.forget.serve request =
      ((interpreter.serve request).1, (interpreter.serve request).2.forget) := by
  have same_context : interpreter.forget.context = context := fits.same_context
  have same_root : interpreter.forget.root = base := fits.same_root
  cases request with
  | run depth =>
    refine perform_forget ?_
    rw [same_context, same_root]
    have allowed : Discipline.Allowed (Discipline.keeping context base top numbered own)
        ⟨context.program.toplevel.body, base, interpreter.machine⟩ := ⟨fits.machine, fits.placed⟩
    exact EvalM.agree_eval handsOn depth allowed
  | call depth callee actuals =>
    obtain ⟨admitted, admitted_parts⟩ := fits.admits_of_call honest
    refine perform_forget ?_
    rw [same_context]
    have sound := Discipline.sound_eval (D := Discipline.keeping context base top numbered own)
      handsOn depth
    -- A call without a site is matched anew in any case.
    refine EvalM.agree_call ⟨fun _ _ _ => ?_, fun _ _ _ _ _ => ?_⟩ ?_
    · exact EvalM.agree_matchKnown fun _ _ _ _ site => nomatch site
    · exact EvalM.agree_matchKnown fun _ _ _ _ site => nomatch site
    · rintro layout env part rfl inside
      refine EvalM.agree_eval handsOn depth (Discipline.allowed_of_callPart sound fits.machine
        (admitted _ (List.mem_singleton_self _)) admitted_parts ?_ inside)
      rintro _ _ ⟨⟩
  | setGlobal name v =>
    unfold serve
    dsimp only
    rw [setGlobal_forget]
    cases interpreter.setGlobal name v <;> rfl

theorem session_forget (handsOn : context.builtins.HandsOn) {requests : List Request}
    (fits : interpreter.Fits (Discipline.keeping context base top numbered own) given)
    (honest : interpreter.Honest given requests) :
    interpreter.forget.answers requests = interpreter.answers requests ∧
      interpreter.forget.after requests = (interpreter.after requests).forget := by
  -- What serving has returned to the host is given from then on.
  induction requests generalizing interpreter given with
  | nil => exact ⟨rfl, rfl⟩
  | cons request rest ih =>
    have served := serve_forget handsOn fits honest
    obtain ⟨answers_eq, after_eq⟩ := ih (fits.serve handsOn honest) honest.2
    constructor
    · rw [answers, answers, served, answers_eq]
    · change (interpreter.forget.serve request).2.after rest = _
      rw [served]
      exact after_eq

end

/-- An interpreter that has just been built keeps the discipline, when its globals hold no
closures. -/
theorem fits_keeping_of_build {settings : Settings} {heap : Heap} {interpreter : Interpreter}
    (built : build settings heap = .ok interpreter) (numbered : settings.top.Numbered)
    (closed : ∀ entry ∈ settings.globals, entry.2.closures = []) :
    ∃ own, interpreter.Fits
      (Discipline.keeping interpreter.context interpreter.root settings.top numbered own) [] := by
  obtain ⟨program, resolved, rfl⟩ := build_eq_ok built
  have own (layout : Layout) (listed : layout ∈ program.layouts) (e : Expr)
      (text : e ∈ ownText layout.params layout.body) : e ∈ settings.top.nodes :=
    Program.mem_nodes_of_ownText resolved listed text
  refine ⟨own, fits_of_build built (fun _ => id) trivial closed ⟨⟨Nat.le_refl _, ?_⟩, ?_⟩⟩
  · refine Heap.exists_frame_iff.mp ⟨.unbound program.toplevel none, ?_⟩
    exact (Heap.frame_allocate heap _ _).trans (if_pos rfl)
  · change program.toplevel.body ∈ settings.top.nodes
    rw [Program.body_toplevel resolved]
    exact settings.top.mem_nodes_self

/-- Keeping bindings makes no difference. An interpreter that keeps them and one that does
not give an honest host the same answers and have the same frames, global variables and
reports after them; and every binding kept, at any moment, is what matching gives for the
formals of the callee and the names at the call site. -/
theorem keepsBindings_transparent {settings : Settings} {heap : Heap} {interpreter : Interpreter}
    (built : build { settings with keepsBindings := true } heap = .ok interpreter)
    (numbered : settings.top.Numbered)
    (handsOn : settings.builtins.HandsOn)
    (closed : ∀ entry ∈ settings.globals, entry.2.closures = []) :
    ∃ other, build { settings with keepsBindings := false } heap = .ok other ∧
      ∀ requests, interpreter.Honest [] requests →
        (other.answers requests = interpreter.answers requests ∧
          other.after requests = (interpreter.after requests).forget) ∧
        (∀ cache, (interpreter.after requests).machine.cache = some cache → ∀ entry ∈ cache,
          interpreter.context.Explains settings.top entry.1.1 entry.1.2 entry.2) ∧
        ∀ moment, interpreter.Evaluates requests moment →
          ∀ cache, moment.machine.cache = some cache → ∀ entry ∈ cache,
            interpreter.context.Explains settings.top entry.1.1 entry.1.2 entry.2 := by
  obtain ⟨own, fits⟩ := fits_keeping_of_build built numbered closed
  obtain ⟨program, resolved, rfl⟩ := build_eq_ok built
  refine ⟨ofProgram { settings with keepsBindings := false } heap program, ?_, ?_⟩
  -- Both interpreters resolve the same program.
  · rw [build_eq]
    dsimp only
    rw [resolved]
    rfl
  intro requests honest
  refine ⟨?_, ?_, ?_⟩
  · exact session_forget handsOn fits honest
  · intro cache kept entry listed
    obtain ⟨_, fits_after⟩ := fits_after handsOn fits honest
    exact fits_after.machine.kept cache kept entry listed
  · intro moment evaluates cache kept entry listed
    have allowed := allowed_of_evaluates handsOn fits honest evaluates
    exact allowed.fits.kept cache kept entry listed

/-- The program `(function(x) x)(TRUE)`. -/
def identityCall : Expr :=
  .call ⟨4, default⟩ (.function ⟨2, default⟩ [("x", none)] (.ident ⟨1, default⟩ "x"))
    [(none, .literal ⟨3, default⟩ (.logical true))]

theorem numbered_identityCall : identityCall.Numbered := by
  intro node listed other listed' same
  have nodes_eq : identityCall.nodes =
      [.ident ⟨1, default⟩ "x", .function ⟨2, default⟩ [("x", none)] (.ident ⟨1, default⟩ "x"),
        .literal ⟨3, default⟩ (.logical true), identityCall] := rfl
  simp only [nodes_eq, List.mem_cons, List.not_mem_nil, or_false] at listed listed'
  rcases listed with rfl | rfl | rfl | rfl <;> rcases listed' with rfl | rfl | rfl | rfl <;>
    first | rfl | exact absurd same (by decide)

/-- Run twice, the program gives the same answers whether the binding of the first call is kept
for the second or not. -/
theorem keepsBindings_transparent_identityCall :
    ∃ interpreter other,
      build { top := identityCall, keepsBindings := true } .empty = .ok interpreter ∧
      build { top := identityCall, keepsBindings := false } .empty = .ok other ∧
      other.answers [.run 3, .run 3] = interpreter.answers [.run 3, .run 3] := by
  obtain ⟨interpreter, built⟩ : ∃ interpreter,
      build { top := identityCall, keepsBindings := true } .empty = .ok interpreter := ⟨_, rfl⟩
  obtain ⟨other, built_other, same⟩ :=
    @keepsBindings_transparent { top := identityCall } .empty interpreter built
      numbered_identityCall Registry.standard_handsOn
      fun _ member => (List.not_mem_nil member).elim
  have nothing (c : Layout × FrameId) (handed : c ∈ (Request.run 3).closures) : False :=
    List.not_mem_nil handed
  have honest : interpreter.Honest [] [.run 3, .run 3] :=
    ⟨fun c handed => (nothing c handed).elim, fun c handed => (nothing c handed).elim, trivial⟩
  exact ⟨interpreter, other, built, built_other, (same _ honest).1.1⟩

end Interpreter

end Vectorial
