import Vectorial.Proofs.Evaluation.Lasting

/-!
# The order of moments

The moments of an evaluation come one after the other. A moment comes before everything that is
evaluated inside it; and of two parts of a moment one is over when the other begins, so that what
is inside the first comes before what is inside the second. Any two moments of an evaluation come
in turn in this sense, one way or the other. What no assignment takes away holds at all later
moments, too.

## Main definitions

* `EvalM.PartsInTurn`: two moments immediately inside a moment, one after the other;
* `EvalM.VisitsInTurn`: two moments of an evaluation, one after the other.

## Main results

* `EvalM.inTurn_of_visits`: any two moments of an evaluation come in turn;
* `EvalM.keeps_of_inTurn`: what is bound at a moment is bound at those that come after it.
-/

namespace Vectorial

namespace EvalM

/-! ### Parts -/

/-- Two of the moments at which the expressions of a list are evaluated, one after the other. -/
inductive InTurn (evaluate : Evaluator) (frame : FrameId) :
    List Expr → Machine → Moment → Moment → Prop where
  | first {e : Expr} {rest : List Expr} {m m' : Machine} {v : Value} {next : Moment} :
      evaluate e frame m = .ok v m' → InOrder evaluate frame rest m' next →
      InTurn evaluate frame (e :: rest) m ⟨e, frame, m⟩ next
  | later {e : Expr} {rest : List Expr} {m m' : Machine} {v : Value} {part next : Moment} :
      evaluate e frame m = .ok v m' → InTurn evaluate frame rest m' part next →
      InTurn evaluate frame (e :: rest) m part next

/-- Two of the moments at which a call of a closure evaluates something itself, one after the
other: defaults in the order of the parameters, and after them the body. -/
inductive CallInTurn (evaluate : Evaluator) (layout : Layout) (env : FrameId) (actuals : Parts)
    (site : Option Site) (m : Machine) : Moment → Moment → Prop where
  | defaults {frame : FrameId} {m₁ m₂ m₃ : Machine} {index later : Nat} {e e' : Expr} :
      entered layout env actuals site m = .ok frame m₁ →
      (List.range index).forM (fillDefault evaluate layout frame) m₁ = .ok () m₂ →
      m₂.heap.get frame index = none → layout.defaultFor index = some e → index < later →
      (List.range later).forM (fillDefault evaluate layout frame) m₁ = .ok () m₃ →
      m₃.heap.get frame later = none → layout.defaultFor later = some e' →
      CallInTurn evaluate layout env actuals site m ⟨e, frame, m₂⟩ ⟨e', frame, m₃⟩
  | body {frame : FrameId} {m₁ m₂ m₃ : Machine} {index : Nat} {e : Expr} :
      entered layout env actuals site m = .ok frame m₁ →
      (List.range index).forM (fillDefault evaluate layout frame) m₁ = .ok () m₂ →
      m₂.heap.get frame index = none → layout.defaultFor index = some e →
      fillDefaults evaluate layout frame m₁ = .ok () m₃ →
      CallInTurn evaluate layout env actuals site m ⟨e, frame, m₂⟩ ⟨layout.body, frame, m₃⟩

/-- Two moments immediately inside a moment, of which the first is over when the second begins. -/
inductive PartsInTurn (evaluate : Evaluator) : Moment → Moment → Moment → Prop where
  | strict {e : Expr} {frame : FrameId} {m : Machine} {part next : Moment} :
      InTurn evaluate frame e.strict m part next → PartsInTurn evaluate ⟨e, frame, m⟩ part next
  | thenBranch {site : Site} {condition thenBranch : Expr} {elseBranch : Option Expr}
      {frame : FrameId} {m m₁ m₂ : Machine} {v : Value} :
      evaluate condition frame m = .ok v m₁ → test site v m₁ = .ok true m₂ →
      PartsInTurn evaluate ⟨.branch site condition thenBranch elseBranch, frame, m⟩
        ⟨condition, frame, m⟩ ⟨thenBranch, frame, m₂⟩
  | elseBranch {site : Site} {condition thenBranch elseBranch : Expr}
      {frame : FrameId} {m m₁ m₂ : Machine} {v : Value} :
      evaluate condition frame m = .ok v m₁ → test site v m₁ = .ok false m₂ →
      PartsInTurn evaluate ⟨.branch site condition thenBranch (some elseBranch), frame, m⟩
        ⟨condition, frame, m⟩ ⟨elseBranch, frame, m₂⟩
  | called {site : Site} {callee : Expr} {actuals : List (Option Symbol × Expr)}
      {frame env : FrameId} {layout : Layout} {parts : Parts} {m m₁ m₂ : Machine}
      {part next : Moment} :
      evaluate callee frame m = .ok (.closure layout env) m₁ →
      evalActuals evaluate frame actuals m₁ = .ok parts m₂ →
      InOrder evaluate frame (callee :: actuals.map Prod.snd) m part →
      CallPart evaluate layout env parts (some site) m₂ next →
      PartsInTurn evaluate ⟨.call site callee actuals, frame, m⟩ part next
  | inCall {site : Site} {callee : Expr} {actuals : List (Option Symbol × Expr)}
      {frame env : FrameId} {layout : Layout} {parts : Parts} {m m₁ m₂ : Machine}
      {part next : Moment} :
      evaluate callee frame m = .ok (.closure layout env) m₁ →
      evalActuals evaluate frame actuals m₁ = .ok parts m₂ →
      CallInTurn evaluate layout env parts (some site) m₂ part next →
      PartsInTurn evaluate ⟨.call site callee actuals, frame, m⟩ part next

/-- Two moments inside a moment, itself included, one after the other. -/
inductive VisitsInTurn (context : Context) : Nat → Moment → Moment → Moment → Prop where
  | start {depth : Nat} {outer moment : Moment} :
      Visits context depth outer moment → VisitsInTurn context depth outer outer moment
  | inside {depth : Nat} {outer part moment next : Moment} :
      Part (eval context depth) outer part → VisitsInTurn context depth part moment next →
      VisitsInTurn context (depth + 1) outer moment next
  | across {depth : Nat} {outer part further moment next : Moment} :
      PartsInTurn (eval context depth) outer part further → Visits context depth part moment →
      Visits context depth further next → VisitsInTurn context (depth + 1) outer moment next

/-! ### Any two moments -/

section

variable {evaluate : Evaluator} {outer part next : Moment} {m : Machine}

theorem inTurn_of_inOrder {frame : FrameId} {es : List Expr}
    (first : InOrder evaluate frame es m part) (second : InOrder evaluate frame es m next) :
    part = next ∨ InTurn evaluate frame es m part next ∨ InTurn evaluate frame es m next part := by
  -- Both go along the list until one of them has come to its part.
  induction first with
  | first =>
    cases second with
    | first => exact .inl rfl
    | later done second => exact .inr (.inl (.first done second))
  | later done first ih =>
    cases second with
    | first => exact .inr (.inr (.first done first))
    | later again second =>
      cases done.symm.trans again
      exact (ih second).imp_right (.imp (.later done) (.later done))

theorem inTurn_of_callPart {layout : Layout} {env : FrameId} {actuals : Parts} {site : Option Site}
    (first : CallPart evaluate layout env actuals site m part)
    (second : CallPart evaluate layout env actuals site m next) :
    part = next ∨ CallInTurn evaluate layout env actuals site m part next ∨
      CallInTurn evaluate layout env actuals site m next part := by
  cases first with
  | @default _ _ _ index _ opened filled unbound known =>
    cases second with
    | @default _ _ _ index' _ opened' filled' unbound' known' =>
      cases opened.symm.trans opened'
      -- Defaults are evaluated in the order of their parameters, and the body after all of them.
      rcases Nat.lt_trichotomy index index' with before | rfl | after
      · exact .inr (.inl (.defaults opened filled unbound known before filled' unbound' known'))
      · cases filled.symm.trans filled'
        cases known.symm.trans known'
        exact .inl rfl
      · exact .inr (.inr (.defaults opened filled' unbound' known' after filled unbound known))
    | body opened' filled' =>
      cases opened.symm.trans opened'
      exact .inr (.inl (.body opened filled unbound known filled'))
  | body opened filled =>
    cases second with
    | default opened' filled' unbound' known' =>
      cases opened.symm.trans opened'
      exact .inr (.inr (.body opened filled' unbound' known' filled))
    | body opened' filled' =>
      cases opened.symm.trans opened'
      cases filled.symm.trans filled'
      exact .inl rfl

theorem inTurn_of_parts (first : Part evaluate outer part) (second : Part evaluate outer next) :
    part = next ∨ PartsInTurn evaluate outer part next ∨ PartsInTurn evaluate outer next part := by
  -- The condition of a branch comes before it, and the callee and the actuals before the call.
  cases first with
  | strict inOrder =>
    cases second with
    | strict inOrder' =>
      exact (inTurn_of_inOrder inOrder inOrder').imp_right (.imp .strict .strict)
    | thenBranch done tested =>
      cases inOrder with
      | first => exact .inr (.inl (.thenBranch done tested))
      | later _ nothing => cases nothing
    | elseBranch done tested =>
      cases inOrder with
      | first => exact .inr (.inl (.elseBranch done tested))
      | later _ nothing => cases nothing
    | call called given callPart => exact .inr (.inl (.called called given inOrder callPart))
  | thenBranch done tested =>
    cases second with
    | strict inOrder =>
      cases inOrder with
      | first => exact .inr (.inr (.thenBranch done tested))
      | later _ nothing => cases nothing
    | thenBranch done' tested' =>
      cases done.symm.trans done'
      cases tested.symm.trans tested'
      exact .inl rfl
    | elseBranch done' tested' =>
      cases done.symm.trans done'
      cases tested.symm.trans tested'
  | elseBranch done tested =>
    cases second with
    | strict inOrder =>
      cases inOrder with
      | first => exact .inr (.inr (.elseBranch done tested))
      | later _ nothing => cases nothing
    | thenBranch done' tested' =>
      cases done.symm.trans done'
      cases tested.symm.trans tested'
    | elseBranch done' tested' =>
      cases done.symm.trans done'
      cases tested.symm.trans tested'
      exact .inl rfl
  | call called given callPart =>
    cases second with
    | strict inOrder => exact .inr (.inr (.called called given inOrder callPart))
    | call called' given' callPart' =>
      cases called.symm.trans called'
      cases given.symm.trans given'
      exact (inTurn_of_callPart callPart callPart').imp_right
        (.imp (.inCall called given) (.inCall called given))

end

variable {context : Context} {depth : Nat} {outer moment next : Moment}

/-- Any two moments of an evaluation come in turn. -/
theorem inTurn_of_visits (first : Visits context depth outer moment)
    (second : Visits context depth outer next) :
    VisitsInTurn context depth outer moment next ∨
      VisitsInTurn context depth outer next moment := by
  -- Both go into the same parts for a while; where they part, the parts are in turn.
  induction first with
  | here => exact .inl (.start second)
  | inside inside visits ih =>
    cases second with
    | here => exact .inr (.start (.inside inside visits))
    | inside inside' visits' =>
      rcases inTurn_of_parts inside inside' with rfl | before | after
      · exact (ih visits').imp (.inside inside) (.inside inside)
      · exact .inl (.across before visits visits')
      · exact .inr (.across after visits' visits)

/-! ### What holds later -/

section

variable {holds : Heap → Prop} {evaluate : Evaluator} {outer part next : Moment} {m : Machine}
variable (lasting : Heap.Lasting holds fun _ _ => False)
variable (always : ∀ e frame m, holds m.heap → holds (Run.ending (evaluate e frame) m).heap)
include always

theorem holds_of_inTurn {frame : FrameId} {es : List Expr}
    (inTurn : InTurn evaluate frame es m part next)
    (kept : holds (Run.ending (evaluate part.expr part.frame) part.machine).heap) :
    holds next.machine.heap := by
  induction inTurn with
  | first done inOrder =>
    rw [ending_of_ok done] at kept
    exact holds_of_inOrder kept (fun part _ => always _ _ _) inOrder
  | later _ _ ih => exact ih kept

include lasting

theorem holds_of_callInTurn {layout : Layout} {env : FrameId} {actuals : Parts} {site : Option Site}
    (inTurn : CallInTurn evaluate layout env actuals site m part next)
    (kept : holds (Run.ending (evaluate part.expr part.frame) part.machine).heap) :
    holds next.machine.heap := by
  cases inTurn with
  | defaults _ filled unbound known before filled' =>
    have filling := holds_ending_forM_fillDefault_of_default lasting always filled unbound known
      kept before
    rwa [ending_of_ok filled'] at filling
  | body _ filled unbound known filled' =>
    have filling := holds_ending_forM_fillDefault_of_default lasting always filled unbound known
      kept (layout.lt_length_of_defaultFor known)
    rw [fillDefaults] at filled'
    rwa [ending_of_ok filled'] at filling

/-- What holds when a part is over holds when the next one begins. -/
theorem holds_of_partsInTurn (inTurn : PartsInTurn evaluate outer part next)
    (kept : holds (Run.ending (evaluate part.expr part.frame) part.machine).heap) :
    holds next.machine.heap := by
  cases inTurn with
  | strict inTurn => exact holds_of_inTurn always inTurn kept
  | thenBranch done tested => exact holds_of_test lasting done tested kept
  | elseBranch done tested => exact holds_of_test lasting done tested kept
  | called called given inOrder callPart =>
    refine holds_of_callPart lasting ?_ (fun part _ => always _ _ _) callPart
    rw [← ending_of_ok given]
    -- What was evaluated last is the callee, before all actuals, or one of these.
    cases inOrder with
    | first =>
      rw [ending_of_ok called] at kept
      exact holds_ending_evalActuals kept fun part _ => always _ _ _
    | later again inOrder =>
      cases called.symm.trans again
      exact holds_ending_evalActuals_of_inOrder always inOrder kept
  | inCall called given inTurn => exact holds_of_callInTurn lasting always inTurn kept

omit always in
/-- What no assignment takes away holds at the moments after one at which it holds. -/
theorem holds_of_visitsInTurn (inTurn : VisitsInTurn context depth outer moment next)
    (kept : holds moment.machine.heap) : holds next.machine.heap := by
  have visited {depth : Nat} {outer moment : Moment} (visits : Visits context depth outer moment)
      (start : holds outer.machine.heap) : holds moment.machine.heap :=
    holds_of_visits lasting start (fun _ _ _ _ _ _ => id) visits
  induction inTurn with
  | start visits => exact visited visits kept
  | inside _ _ ih => exact ih kept
  | across parts visits visits' =>
    -- To the end of the first part, from there to the second, and into it.
    refine visited visits' (holds_of_partsInTurn lasting
      (holds_ending_eval_of_start lasting context _) parts ?_)
    exact holds_ending_of_visits lasting visits kept

end

/-- What is bound at a moment is bound at those that come after it. -/
theorem keeps_of_inTurn (inTurn : VisitsInTurn context depth outer moment next) :
    moment.machine.heap.Keeps next.machine.heap :=
  holds_of_visitsInTurn (Heap.lasting_keeps _) inTurn (.refl _)

end EvalM

end Vectorial
