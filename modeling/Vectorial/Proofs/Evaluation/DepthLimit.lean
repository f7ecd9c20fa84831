import Vectorial.Proofs.Evaluation.KeptBindings
import Vectorial.Proofs.Evaluation.Likeness

/-!
# The limit on the depth of calls

A limit on the depth of calls is looked at in one place only, where a call is put on the stack.
Nothing else that evaluation does depends on it, and no expression goes on after the error that
it raises. An evaluation that a limit does not cut off is therefore what it is under any higher
limit and under none, and an evaluation without a limit whose calls nest no deeper than a limit
is what it is under this limit.

## Main definitions

* `Machine.limited`, `Interpreter.inMode`: a machine under a limit, an interpreter in a mode;
* `Likeness.limiting`: evaluation beside evaluation under a lower limit;
* `Interpreter.Reaches`: the calls that serving a request comes to.

## Main results

* `Interpreter.build_inMode`: a mode may be changed after an interpreter is built;
* `Interpreter.limit_only_cuts_off`: a limit makes no difference unless it cuts off.
-/

namespace Vectorial

open EvalM

/-- The machine under another limit on the depth of calls. -/
def Machine.limited (limit : Option Nat) (m : Machine) : Machine :=
  { m with stack := { m.stack with limit } }

variable {limit : Nat} {m n : Machine}

/-! ### Under a lower limit -/

/-- Whether the second machine is the first one under a limit that is not higher. -/
def Looser (limit : Nat) (m n : Machine) : Prop :=
  n = m.limited (some limit) ∧ ∀ own, m.stack.limit = some own → limit ≤ own

namespace Looser

theorem setSlot (looser : Looser limit m n) (frame : FrameId) (slot : Nat) (v : Value) :
    Likewise (Looser limit) (m.setSlot frame slot v) (n.setSlot frame slot v) := by
  obtain ⟨rfl, higher⟩ := looser
  have same : (m.limited (some limit)).heap = m.heap := rfl
  unfold Machine.setSlot
  rw [same]
  cases m.heap.set frame slot v with
  | ok heap => exact .ok ⟨rfl, higher⟩
  | error defect => exact .error defect

theorem bindAt (looser : Looser limit m n) (place : Option (FrameId × Nat)) (name : Symbol)
    (v : Value) : Likewise (Looser limit) (m.bindAt place name v) (n.bindAt place name v) := by
  cases place with
  | some place => exact looser.setSlot place.1 place.2 v
  | none =>
    obtain ⟨rfl, higher⟩ := looser
    exact .ok ⟨rfl, higher⟩

theorem onHeap {α : Type} {cuts : Cause → Prop} (looser : Looser limit m n) (work : HeapM α) :
    Tracks (Looser limit) cuts Eq (EvalM.onHeap work) (EvalM.onHeap work) m n := by
  obtain ⟨rfl, higher⟩ := looser
  have same : (m.limited (some limit)).heap = m.heap := rfl
  unfold Tracks EvalM.onHeap Run.within
  rw [same]
  cases work m.heap with
  | ok a heap => exact .ok rfl ⟨rfl, higher⟩
  | error stop heap => exact .stop ⟨rfl, higher⟩

theorem bindings (looser : Looser limit m n) (site : Option Site) (f : Callable)
    (labels : List (Option Symbol)) :
    Likewise (fun kept kept' => kept'.1 = kept.1 ∧ Looser limit kept.2 kept'.2)
      (m.bindings site f labels) (n.bindings site f labels) := by
  obtain ⟨rfl, higher⟩ := looser
  have same : (m.limited (some limit)).known site f.key = m.known site f.key := rfl
  unfold Machine.bindings
  rw [same]
  cases m.known site f.key with
  | some binding => exact .ok ⟨rfl, rfl, higher⟩
  | none =>
    cases Matching.matchCall f.formals labels with
    | error cause => exact .error cause
    | ok binding =>
      refine .ok ⟨rfl, ?_⟩
      -- Keeping a binding does not look at the limit.
      have keep_limited : (m.limited (some limit)).keep site f.key binding =
          (m.keep site f.key binding).limited (some limit) := by
        have cached : (m.limited (some limit)).cache = m.cache := rfl
        unfold Machine.keep
        rw [cached]
        split <;> rfl
      dsimp only
      rw [keep_limited]
      obtain ⟨cache, kept⟩ := m.keep_eq site f.key binding
      rw [kept]
      exact ⟨rfl, higher⟩

end Looser

theorem Layout.Resembles.refl (layout : Layout) : layout.Resembles layout :=
  ⟨rfl, rfl, rfl⟩

theorem Value.Resembles.refl (v : Value) : v.Resembles v := by
  cases v with
  | null => exact .data rfl rfl rfl
  | vector storage metadata => exact .data rfl rfl rfl
  | closure layout env => exact .closure (.refl layout) env
  | builtin name handle => exact .builtin name handle

theorem Parts.eq_of_likewise {actuals actuals' : Parts}
    (alike : Parts.Likewise Eq actuals actuals') : actuals' = actuals := by
  induction alike with
  | nil => rfl
  | cons first _ ih => rw [ih, Prod.ext first.1 first.2.symm]

/-- Evaluation beside evaluation under a limit that is not higher, in modes that count alike. -/
def Likeness.limiting (context : Context) (mode : Mode)
    (same_counting : mode.tracesViews = context.mode.tracesViews) (limit : Nat)
    (cuts : Cause → Prop) : Likeness context { context with mode } where
  values := Eq
  machines := Looser limit
  places _ _ := True
  cuts := cuts
  same_builtins := rfl
  same_calls := by
    rintro m n ⟨rfl, -⟩
    rfl
  -- A stack that is full under the higher limit is so under the lower one.
  full := by
    rintro m n ⟨rfl, higher⟩ full
    cases own : m.stack.limit with
    | none => simp [CallStack.isFull, own] at full
    | some limit' =>
      have deep : limit' ≤ m.stack.depth := by simpa [CallStack.isFull, own] using full
      have lower := higher limit' own
      have shallow : limit ≤ m.stack.depth := Nat.le_trans lower deep
      exact decide_eq_true shallow
  restack := by
    rintro m n calls ⟨rfl, higher⟩
    exact ⟨rfl, higher⟩
  places_part _ _ := trivial
  literal _ := rfl
  resembles := by
    rintro v _ rfl
    exact .refl v
  read := by
    rintro m n site name frame ⟨rfl, -⟩ -
    exact .refl (fun _ => rfl) (m.read name frame)
  assign := by
    rintro m n site target value frame v _ ⟨rfl, higher⟩ - rfl
    exact Looser.bindAt ⟨rfl, higher⟩ (m.localSlot target frame) target v
  assignOuter := by
    rintro m n site target value frame v _ ⟨rfl, higher⟩ - rfl
    exact Looser.bindAt ⟨rfl, higher⟩ (m.outerSlot target frame) target v
  function {site _ _ _} _ := by
    cases context.program.layout? site.id with
    | some layout => exact .some rfl
    | none => exact .none
  test := by
    rintro m n v _ looser rfl
    exact looser.onHeap _
  binary := by
    rintro m n op left right _ _ looser rfl rfl
    exact looser.onHeap _
  counted := by
    rintro m n v _ looser rfl
    unfold EvalM.counted
    rw [same_counting]
    split
    · exact looser.onHeap _
    · exact .pure rfl looser
  operate := by
    rintro m n handle builtin actuals actuals' binding looser - likewise
    rw [Parts.eq_of_likewise likewise]
    exact looser.onHeap _
  bindings := by
    rintro m n v _ f g site labels looser rfl callable callable' -
    cases callable.symm.trans callable'
    exact looser.bindings site f labels
  newFrame := by
    rintro m n layout layout' env actuals actuals' binding ⟨rfl, higher⟩ ⟨⟩ likewise
    rw [Parts.eq_of_likewise likewise]
    exact Meets.ok ⟨rfl, fun _ _ => trivial⟩ ⟨rfl, higher⟩
  unbound := by
    rintro m n e frame slot ⟨rfl, -⟩ -
    rfl
  setSlot := by
    rintro m n e frame slot v _ looser - rfl
    exact looser.setSlot frame slot v

/-! ### Interpreters in another mode -/

namespace Interpreter

variable {interpreter : Interpreter}

/-- The interpreter in another mode. -/
def inMode (mode : Mode) (interpreter : Interpreter) : Interpreter :=
  { interpreter with
    context := { interpreter.context with mode }
    machine := interpreter.machine.limited mode.limit }

/-- A mode may be changed after an interpreter is built: the program is resolved alike. -/
theorem build_inMode (settings : Settings) (mode : Mode) (heap : Heap) :
    build { settings with mode } heap = (build settings heap).map (inMode mode) := by
  rw [build_eq, build_eq]
  cases Program.resolve heap.frames.size settings.top <;> rfl

/-- The calls that come to be put on the stack while a request is served, each with the machine that
it is put on. -/
inductive Reaches (interpreter : Interpreter) : Request → CallFrame → Machine → Prop where
  | run {depth : Nat} {call : CallFrame} {bound : Machine} :
      EvalM.Reaches interpreter.context depth
        ⟨interpreter.context.program.toplevel.body, interpreter.root, interpreter.machine⟩
        call bound →
      Reaches interpreter (.run depth) call bound
  | call {depth : Nat} {callee : Value} {actuals : Parts} {call : CallFrame} {bound : Machine} :
      Approaches interpreter.context callee actuals none interpreter.machine call bound →
      Reaches interpreter (.call depth callee actuals) call bound
  | inside {depth : Nat} {layout : Layout} {env : FrameId} {actuals : Parts} {part : Moment}
      {call : CallFrame} {bound : Machine} :
      CallPart (eval interpreter.context depth) layout env actuals none interpreter.machine part →
      EvalM.Reaches interpreter.context depth part call bound →
      Reaches interpreter (.call depth (.closure layout env) actuals) call bound

theorem setGlobal_inMode (interpreter : Interpreter) (mode : Mode) (name : Symbol) (v : Value) :
    (interpreter.inMode mode).setGlobal name v =
      (interpreter.setGlobal name v).map (inMode mode) := by
  have same : (interpreter.inMode mode).rootPlace name = interpreter.rootPlace name := rfl
  unfold setGlobal
  rw [same]
  cases interpreter.rootPlace name with
  | none => rfl
  | some place =>
    have heap : (interpreter.inMode mode).machine.heap = interpreter.machine.heap := rfl
    dsimp only [Machine.bindAt]
    unfold Machine.setSlot
    rw [heap]
    cases interpreter.machine.heap.set place.1 place.2 v <;> rfl

/-- Back in its own mode an interpreter is what it was. -/
theorem inMode_inMode (mode : Mode) (own : interpreter.context.mode = mode)
    (limit : interpreter.machine.stack.limit = mode.limit) (between : Mode) :
    (interpreter.inMode between).inMode mode = interpreter := by
  obtain ⟨⟨program, builtins, mode'⟩, root, ⟨heap, globals, ⟨frames, limit'⟩, cache, activations⟩,
    queue, sink⟩ := interpreter
  cases own
  dsimp only at limit
  subst limit
  rfl

/-- Under a lower limit a request is served alike, unless the lower limit cuts it off. It does not
if there is room for every call that serving the request comes to. -/
theorem serve_of_limiting (request : Request) (mode : Mode) (cuts : Cause → Prop)
    (same_counting : mode.tracesViews = interpreter.context.mode.tracesViews)
    (limited : mode.limit = some limit)
    (higher : ∀ own, interpreter.machine.stack.limit = some own → limit ≤ own)
    (room : ∀ call bound n, interpreter.Reaches request call bound → Looser limit bound n →
      n.stack.isFull → n.stack = bound.stack ∨ cuts (.stackOverflow (n.stack.limit.getD 0))) :
    (interpreter.inMode mode).serve request =
        ((interpreter.serve request).1, (interpreter.serve request).2.inMode mode) ∨
      ∃ e, ((interpreter.inMode mode).serve request).1 = .error (.error e) ∧ cuts e.cause := by
  let L := Likeness.limiting interpreter.context mode same_counting limit cuts
  have looser : L.machines interpreter.machine (interpreter.inMode mode).machine := by
    refine ⟨?_, higher⟩
    change interpreter.machine.limited mode.limit = _
    rw [limited]
  have alongside : Alongside L.machines interpreter (interpreter.inMode mode) :=
    ⟨rfl, looser, rfl, rfl⟩
  -- Interpreters alongside each other differ in nothing but the mode.
  have serves {step instead : EvalM Value}
      (tracks : L.Tracks L.values step instead interpreter.machine
        (interpreter.inMode mode).machine) :
      (interpreter.inMode mode).perform instead =
          ((interpreter.perform step).1, (interpreter.perform step).2.inMode mode) ∨
        ∃ e, ((interpreter.inMode mode).perform instead).1 = .error (.error e) ∧
          cuts e.cause := by
    refine (perform_of_tracks alongside tracks).imp_left ?_
    rintro ⟨answers, root, ⟨machine, -⟩, queue, sink⟩
    have first : ((interpreter.inMode mode).perform instead).1 = (interpreter.perform step).1 := by
      generalize (interpreter.perform step).1 = answer at answers
      generalize ((interpreter.inMode mode).perform instead).1 = answer' at answers
      cases answers with
      | ok same => rw [show _ = _ from same]
      | error stop => rfl
    have second : ((interpreter.inMode mode).perform instead).2 =
        (interpreter.perform step).2.inMode mode := by
      have context := ((interpreter.inMode mode).context_perform instead).1
      have context' := (interpreter.context_perform step).1
      generalize (interpreter.perform step).2 = after at *
      generalize ((interpreter.inMode mode).perform instead).2 = after' at *
      obtain ⟨c, r, m, q, s⟩ := after
      obtain ⟨c', r', m', q', s'⟩ := after'
      dsimp only at *
      subst root machine queue sink context context'
      change _ = Interpreter.mk _ r' (m.limited mode.limit) q' s'
      rw [limited]
      rfl
    exact Prod.ext first second
  cases request with
  | run depth =>
    exact serves (L.tracks_eval depth ⟨_, _, interpreter.machine⟩ looser trivial
      fun call bound n reaches => room call bound n (.run reaches))
  | call depth callee actuals =>
    refine serves (L.tracks_call (balanced_eval _ depth) looser rfl ?_ (fun _ nothing => ?_)
      (fun call bound n approaches => room call bound n (.call approaches)) ?_)
    · exact List.forall₂_same.mpr fun _ _ => ⟨rfl, rfl⟩
    · cases nothing
    · rintro layout env part n rfl inside alike -
      exact L.tracks_eval depth part alike trivial fun call bound n' reaches =>
        room call bound n' (.inside inside reaches)
  | setGlobal name v =>
    left
    unfold serve
    dsimp only
    rw [setGlobal_inMode]
    cases interpreter.setGlobal name v <;> rfl

/-- A limit on the depth of calls only cuts off. What an interpreter answers under a limit without
a call past the limit it answers under any higher limit and without one, and it is left in the same
state; and so the other way around, if no call that it comes to without a limit nests deeper than
the limit allows. This holds in whatever state the interpreter is. -/
theorem limit_only_cuts_off (interpreter : Interpreter) (request : Request) (limit : Nat) :
    (∀ mode, (mode = .interpret ∨ ∃ higher, mode = .bounded higher ∧ limit ≤ higher) →
      (∀ e, ((interpreter.inMode (.bounded limit)).serve request).1 = .error (.error e) →
        e.cause ≠ .stackOverflow limit) →
      (interpreter.inMode mode).serve request =
        (((interpreter.inMode (.bounded limit)).serve request).1,
          ((interpreter.inMode (.bounded limit)).serve request).2.inMode mode)) ∧
    ((∀ call m, (interpreter.inMode .interpret).Reaches request call m →
        (m.within call).stack.depth ≤ limit) →
      (interpreter.inMode (.bounded limit)).serve request =
        (((interpreter.inMode .interpret).serve request).1,
          ((interpreter.inMode .interpret).serve request).2.inMode (.bounded limit))) := by
  constructor
  · intro mode loose finishes
    let upper := interpreter.inMode mode
    have counts : (Mode.bounded limit).tracesViews = upper.context.mode.tracesViews := by
      rcases loose with rfl | ⟨higher, rfl, -⟩ <;> rfl
    have higher : ∀ own, upper.machine.stack.limit = some own → limit ≤ own := by
      rcases loose with rfl | ⟨higher, rfl, le⟩
      · exact fun _ unlimited => nomatch unlimited
      · rintro _ ⟨⟩
        exact le
    have lower : upper.inMode (.bounded limit) = interpreter.inMode (.bounded limit) := rfl
    rcases upper.serve_of_limiting request (.bounded limit) (· = .stackOverflow limit) counts rfl
      higher (fun _ _ n _ looser _ => .inr (by rw [looser.1]; rfl)) with same | ⟨e, cut, overflow⟩
    · rw [lower] at same
      -- Put under the lower limit and back again, the interpreter is what it was.
      rw [same]
      dsimp only
      rw [inMode_inMode mode]
      · rw [(context_serve _ request).1]
        rfl
      · exact (upper.keepsStack_serve request).nests.limit_eq
    · rw [lower] at cut
      exact absurd overflow (finishes e cut)
  · intro shallow
    let upper := interpreter.inMode .interpret
    have room (call : CallFrame) (bound n : Machine) (reaches : upper.Reaches request call bound)
        (looser : Looser limit bound n) (full : n.stack.isFull) :
        n.stack = bound.stack ∨ False := by
      -- The call would be one too many under the limit.
      have deep : limit ≤ bound.stack.depth := by
        rw [looser.1] at full
        exact of_decide_eq_true full
      exact absurd (shallow call bound reaches) (Nat.not_le_of_lt (Nat.lt_succ_of_le deep))
    rcases upper.serve_of_limiting request (.bounded limit) (fun _ => False) rfl rfl
      (fun _ unlimited => nomatch unlimited) room with same | ⟨_, _, never⟩
    · exact same
    · exact never.elim

/-! ### A call of one function -/

theorem not_reaches_of_leaf {context : Context} {depth : Nat} {e : Expr} {frame : FrameId}
    {m bound : Machine} {call : CallFrame} (strict : e.strict = []) (branches : e.branches = []) :
    ¬EvalM.Reaches context depth ⟨e, frame, m⟩ call bound := by
  intro reaches
  cases reaches with
  | here => cases strict
  | inside part =>
    cases part with
    | strict inOrder =>
      rw [strict] at inOrder
      cases inOrder
    | thenBranch => cases branches
    | elseBranch => cases branches
    | call => cases strict

/-- The program calls one function, which calls none. A limit of one call is enough for it, and
makes no difference. -/
theorem limit_only_cuts_off_identityCall :
    ∃ interpreter, build { top := identityCall } .empty = .ok interpreter ∧
      (interpreter.inMode (.bounded 1)).answers [.run 3] = [.ok (.ofBool true)] ∧
      (interpreter.inMode .interpret).serve (.run 3) =
        (((interpreter.inMode (.bounded 1)).serve (.run 3)).1,
          ((interpreter.inMode (.bounded 1)).serve (.run 3)).2.inMode .interpret) ∧
      (interpreter.inMode (.bounded 1)).serve (.run 3) =
        (((interpreter.inMode .interpret).serve (.run 3)).1,
          ((interpreter.inMode .interpret).serve (.run 3)).2.inMode (.bounded 1)) := by
  obtain ⟨interpreter, built⟩ : ∃ interpreter, build { top := identityCall } .empty =
    .ok interpreter := ⟨_, rfl⟩
  have answered : ((interpreter.inMode (.bounded 1)).serve (.run 3)).1 = .ok (.ofBool true) := by
    cases built
    rfl
  refine ⟨interpreter, built, congrArg (fun answer => [answer]) answered, ?_, ?_⟩
  · refine (limit_only_cuts_off interpreter (.run 3) 1).1 .interpret (.inl rfl) ?_
    rw [answered]
    rintro e ⟨⟩
  · refine (limit_only_cuts_off interpreter (.run 3) 1).2 fun call m reaches => ?_
    cases built
    -- Every place that evaluation can come to: the call itself, its parts and its body.
    cases reaches with
    | run reaches =>
      cases reaches with
      | here called given approaches =>
        obtain ⟨callable, matched⟩ := approaches
        obtain ⟨cache, rfl⟩ := Machine.eq_of_bindings matched
        cases called
        cases given
        exact Nat.le_refl 1
      | inside part reaches =>
        cases part with
        | strict inOrder =>
          cases inOrder with
          | first => exact absurd reaches (not_reaches_of_leaf rfl rfl)
          | later _ inOrder =>
            cases inOrder with
            | first => exact absurd reaches (not_reaches_of_leaf rfl rfl)
            | later _ inOrder => cases inOrder
        | call called given callPart =>
          cases called
          cases callPart with
          | @default _ _ _ index _ opened _ _ known =>
            cases index <;> cases known
          | body => exact absurd reaches (not_reaches_of_leaf rfl rfl)

end Interpreter

end Vectorial
