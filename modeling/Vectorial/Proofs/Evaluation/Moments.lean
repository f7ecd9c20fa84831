import Vectorial.Proofs.Evaluation.Likeness

/-!
# Moments with a machine beside them

Two evaluations that begin alike come to alike ends. As long as nothing cuts the second one short
they also keep beside each other meanwhile: at every moment of the first there is a machine that
is alike, and what is about to be evaluated may be evaluated in its frame. Beside itself, an
evaluation has at every moment what the likeness asks of its machines.

## Main definitions

* `Likeness.Attends`: moments that have a machine beside them.

## Main results

* `Likeness.exists_of_issued`: a call whose callee and actuals are evaluated;
* `Likeness.attends_of_visits`: every moment of an evaluation has a machine beside it.
-/

namespace Vectorial

namespace Likeness

open EvalM

variable {α β : Type} {context other : Context} {L : Likeness context other} {m n : Machine}

/-- Whether a moment has a machine beside it that is alike, and its expression may be evaluated in
its frame. -/
structure Attends (L : Likeness context other) (moment : Moment) : Prop where
  machine : ∃ n, L.machines moment.machine n
  placed : L.places moment.expr moment.frame

section

variable (uncut : ∀ cause, ¬L.cuts cause)
include uncut

/-- Beside a step that has a result the other one has a result. -/
theorem exists_of_ok {Q : α → β → Prop} {step : EvalM α} {instead : EvalM β} {a : α}
    {later : Machine} (tracks : L.Tracks Q step instead m n) (done : step m = .ok a later) :
    ∃ b n', Q a b ∧ L.machines later n' := by
  unfold Likeness.Tracks EvalM.Tracks at tracks
  rw [done] at tracks
  -- A result has an alike one beside it unless the other step is cut short.
  generalize instead n = result at tracks
  cases tracks with
  | ok related alike => exact ⟨_, _, related, alike⟩
  | cut short => exact absurd short (uncut _)

variable {evaluate instead : Evaluator}
variable (tracks : ∀ e frame m n, L.machines m n → L.places e frame →
  L.Tracks L.values (evaluate e frame) (instead e frame) m n)
include tracks

theorem attends_of_inOrder {frame : FrameId} {es : List Expr} {part : Moment}
    (alike : L.machines m n) (placed : ∀ e ∈ es, L.places e frame)
    (inOrder : InOrder evaluate frame es m part) : L.Attends part := by
  induction inOrder generalizing n with
  | first => exact ⟨⟨n, alike⟩, placed _ List.mem_cons_self⟩
  | later done _ ih =>
    obtain ⟨-, n', -, alike'⟩ :=
      exists_of_ok uncut (tracks _ _ _ n alike (placed _ List.mem_cons_self)) done
    exact ih alike' fun e inside => placed e (List.mem_cons_of_mem _ inside)

theorem attends_of_callPart {layout layout' : Layout} {env : FrameId} {actuals actuals' : Parts}
    {site : Option Site} {part : Moment} (alike : L.machines m n)
    (closures : L.values (.closure layout env) (.closure layout' env))
    (likewise : Parts.Likewise L.values actuals actuals')
    (placed : ∀ s, site = some s → ∃ callee given frame,
      L.places (.call s callee given) frame ∧ actuals.map Prod.fst = given.map Prod.fst)
    (callPart : CallPart evaluate layout env actuals site m part) : L.Attends part := by
  -- The two frames are alike when they are made, and stay so while defaults are filled in.
  have like := resembles_layout closures
  have entering {frame : FrameId} {later : Machine}
      (opened : entered layout env actuals site m = .ok frame later) :
      (∃ n', L.machines later n') ∧ ∀ e ∈ ownText layout.params layout.body, L.places e frame := by
    obtain ⟨binding, bound, matched, -, opened⟩ := entered_iff.mp opened
    have bindings :=
      L.bindings (f := layout.callable) (g := layout'.callable) alike closures rfl rfl placed
    rw [matched] at bindings
    generalize n.bindings site layout'.callable (actuals.map Prod.fst) = result at bindings
    cases bindings with
    | ok kept =>
      have entered := L.restack (⟨layout.name, site.map Site.span⟩ :: bound.stack.frames) kept.2
      obtain ⟨-, n', ⟨-, inside⟩, alike'⟩ :=
        exists_of_ok uncut (L.newFrame binding entered closures likewise) opened
      exact ⟨⟨n', alike'⟩, inside⟩
  have filling {frame : FrameId} {count : Nat} {m₁ m₂ : Machine}
      (opened : entered layout env actuals site m = .ok frame m₁)
      (filled : (List.range count).forM (fillDefault evaluate layout frame) m₁ = .ok () m₂) :
      ∃ n', L.machines m₂ n' := by
    obtain ⟨⟨n₁, alike₁⟩, inside⟩ := entering opened
    have filling := tracks_forM_fillDefault like count alike₁ inside
      fun _ m' n' e _ alike' _ known =>
        tracks e frame m' n' alike' (inside e (Discipline.mem_ownText_of_default known))
    obtain ⟨-, n₂, -, alike₂⟩ := exists_of_ok uncut filling filled
    exact ⟨n₂, alike₂⟩
  cases callPart with
  | default opened filled _ known =>
    exact ⟨filling opened filled, (entering opened).2 _ (Discipline.mem_ownText_of_default known)⟩
  | body opened filled =>
    exact ⟨filling opened filled, (entering opened).2 _ Discipline.body_mem_ownText⟩

/-- When the callee and the actuals of a call are evaluated, there are a machine, a callee and
actuals beside them. -/
theorem exists_of_issued {site : Site} {callee : Expr} {actuals : List (Option Symbol × Expr)}
    {frame : FrameId} {v : Value} {parts : Parts} {m₁ m₂ : Machine} (alike : L.machines m n)
    (placed : L.places (.call site callee actuals) frame)
    (called : evaluate callee frame m = .ok v m₁)
    (given : evalActuals evaluate frame actuals m₁ = .ok parts m₂) :
    ∃ w parts' n', L.values v w ∧ Parts.Likewise L.values parts parts' ∧ L.machines m₂ n' := by
  have strict (e : Expr) (inside : e ∈ (Expr.call site callee actuals).strict) :
      L.places e frame :=
    L.places_part placed (List.mem_append_left _ inside)
  -- The callee first, and the actuals from where it leads to.
  obtain ⟨w, n₁, values, alike₁⟩ :=
    exists_of_ok uncut (tracks _ _ _ n alike (strict callee List.mem_cons_self)) called
  have evaluated : L.Tracks (Parts.Likewise L.values) (evalActuals evaluate frame actuals)
      (evalActuals instead frame actuals) m₁ n₁ := by
    refine tracks_evalActuals alike₁ fun part n' inOrder alike' => ?_
    obtain ⟨inside, same⟩ := of_inOrder inOrder
    rw [same]
    exact tracks _ _ _ n' alike' (strict _ (List.mem_cons_of_mem _ inside))
  obtain ⟨parts', n₂, likewise, alike₂⟩ := exists_of_ok uncut evaluated given
  exact ⟨w, parts', n₂, values, likewise, alike₂⟩

/-- The parts of a moment that has a machine beside it have one. -/
theorem attends_of_part {outer part : Moment} (attends : L.Attends outer)
    (inside : Part evaluate outer part) : L.Attends part := by
  obtain ⟨⟨n, alike⟩, placed⟩ := attends
  have tested {site : Site} {condition : Expr} {frame : FrameId} {m m₁ m₂ : Machine} {v : Value}
      {truth : Bool} (alike : L.machines m n) (placed : L.places condition frame)
      (done : evaluate condition frame m = .ok v m₁)
      (tested : EvalM.test site v m₁ = .ok truth m₂) :
      ∃ n', L.machines m₂ n' := by
    obtain ⟨w, n₁, values, alike₁⟩ := exists_of_ok uncut (tracks _ _ _ n alike placed) done
    have testing : L.Tracks Eq (EvalM.test site v) (EvalM.test site w) m₁ n₁ :=
      .located (L.test alike₁ values)
    obtain ⟨-, n₂, -, alike₂⟩ := exists_of_ok uncut testing tested
    exact ⟨n₂, alike₂⟩
  cases inside with
  | strict inOrder =>
    exact attends_of_inOrder uncut tracks alike
      (fun e inside => L.places_part placed (List.mem_append_left _ inside)) inOrder
  | thenBranch done truth =>
    have condition := L.places_part placed (List.mem_append_left _ List.mem_cons_self)
    exact ⟨tested alike condition done truth,
      L.places_part placed (List.mem_append_right _ List.mem_cons_self)⟩
  | elseBranch done truth =>
    have condition := L.places_part placed (List.mem_append_left _ List.mem_cons_self)
    exact ⟨tested alike condition done truth,
      L.places_part placed (List.mem_append_right _ (by simp [Expr.branches]))⟩
  | @call site callee actuals frame env layout parts m m₁ m₂ _ called given callPart =>
    obtain ⟨w, parts', n', values, likewise, alike'⟩ :=
      exists_of_issued uncut tracks alike placed called given
    -- Beside a closure there is a closure over the same frame.
    have closures : ∃ layout', w = .closure layout' env := by
      rcases L.resembles values with ⟨_, _⟩ | _ | ⟨function, _, _⟩
      · exact ⟨_, rfl⟩
      · cases function
    obtain ⟨layout', rfl⟩ := closures
    refine attends_of_callPart uncut tracks alike' values likewise ?_ callPart
    rintro _ ⟨⟩
    exact ⟨callee, actuals, frame, placed, labels_of_evalActuals given⟩

end

variable (room : ∀ m n, L.machines m n → L.Room m n)
include room

/-- Where there is always room for a call, evaluations come to alike ends. -/
theorem tracks_of_room (depth : Nat) (e : Expr) (frame : FrameId) (m n : Machine)
    (alike : L.machines m n) (placed : L.places e frame) :
    L.Tracks L.values (eval context depth e frame) (eval other depth e frame) m n :=
  L.tracks_eval depth ⟨e, frame, m⟩ alike placed fun _ _ _ _ => room _ _

/-- Every moment of an evaluation has a machine beside it if its beginning has one. -/
theorem attends_of_visits (uncut : ∀ cause, ¬L.cuts cause) {depth : Nat} {outer moment : Moment}
    (attends : L.Attends outer) (visits : Visits context depth outer moment) :
    L.Attends moment := by
  induction visits with
  | here => exact attends
  | inside inside _ ih =>
    exact ih (attends_of_part uncut (tracks_of_room room _) attends inside)

end Likeness

end Vectorial
