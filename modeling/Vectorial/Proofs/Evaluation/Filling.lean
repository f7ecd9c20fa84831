import Vectorial.Proofs.Evaluation.Arena
import Vectorial.Proofs.Evaluation.Lasting

/-!
# The parameters of a call

The frame of a call begins with the actuals of the call in the slots of their parameters, and with
a list in that of the varargs marker. A matched call supplies every parameter without a default, so
that a parameter without a value has a default. Defaults are evaluated in the order of the
parameters; when one has been evaluated its parameter is bound.

A name in the text of a function that is a parameter of the function is found in the slot of the
parameter, and reading it fails only while this slot is unbound.

## Main results

* `Layout.Resolved.exists_default`: what a matched call leaves unbound has a default;
* `EvalM.bound_of_filled`: parameters whose defaults have been filled in are bound;
* `Machine.exists_read_of_bound`, `Machine.missing_of_read`: reading a parameter.
-/

namespace Vectorial

/-! ### Layouts -/

theorem Program.resolved_toplevel {edition : Nat} {top : Expr} {program : Program}
    (resolved : resolve edition top = .ok program) : program.toplevel.Resolved := by
  obtain ⟨layouts, -, resolved⟩ := bind_eq_ok resolved
  obtain ⟨toplevel, made, ⟨⟩⟩ := bind_eq_ok resolved
  obtain ⟨site_eq, params_eq, body_eq, -⟩ := layoutIn_eq_ok made
  refine ⟨edition, [localNames [] top], toplevelName, ?_⟩
  rw [site_eq, params_eq, body_eq]
  exact made

namespace Layout

variable {layout : Layout} {index slot : Nat} {name : Symbol}

theorem length_formals (layout : Layout) : layout.formals.length = layout.params.length := by
  have same := congrArg List.length layout.formals_names
  simpa [Formals.names, Formals.length] using same

/-- The slot of a parameter is its position. -/
theorem idxOf?_locals_of_param (declared : (layout.params.map Prod.fst)[slot]? = some name) :
    layout.locals.idxOf? name = some slot := by
  obtain ⟨rest, leading⟩ := layout.params_leading
  have first := idxOf?_eq_some_of_nodup layout.nodup_params declared
  obtain ⟨inside, here, others⟩ := List.idxOf?_eq_some_iff.mp first
  refine List.idxOf?_eq_some_iff.mpr ⟨?_, ?_, fun earlier before => ?_⟩
  · exact Nat.lt_of_lt_of_le inside layout.params_leading.length_le
  · simpa [← leading, List.getElem_append_left inside] using here
  · simpa [← leading, List.getElem_append_left (Nat.lt_trans before inside)] using
      others earlier before

namespace Resolved

/-- A parameter that need not be supplied has a default, or is the varargs marker. -/
theorem exists_default_of_not_required (resolved : layout.Resolved)
    (declared : index < layout.params.length) (optional : layout.formals.isRequired index = false)
    (ordinary : layout.formals.dotsIndex ≠ some index) :
    ∃ e, layout.defaultFor index = some e := by
  have params := resolved.declared_formals
  obtain ⟨⟨name, default⟩, here⟩ : ∃ p, layout.params[index]? = some p :=
    ⟨_, List.getElem?_eq_getElem declared⟩
  have named : layout.formals.names[index]? = some name := by
    rw [layout.formals_names, List.getElem?_map, here, Option.map_some]
  cases default with
  | some e => exact ⟨e, by rw [defaultFor, here]; rfl⟩
  | none =>
    -- Without a default only the marker is not required.
    have not_marker : name.isDots = false := by
      cases is_marker : name.isDots with
      | false => rfl
      | true =>
        rw [beq_iff_eq.mp is_marker] at named
        exact absurd (idxOf?_eq_some_of_nodup layout.formals.nodup named) ordinary
    have required : name ∈ requiredNames layout.params := by
      refine List.mem_map.mpr ⟨(name, none), List.mem_filter.mpr ⟨?_, ?_⟩, rfl⟩
      · exact List.mem_of_getElem? here
      · simp [not_marker]
    have needed : layout.formals.isRequired index = true := by
      simp [Formals.isRequired, params, Vectorial.declared, here, required]
    rw [optional] at needed
    cases needed

/-- What a matched call leaves unbound in its frame has a default. -/
theorem exists_default (resolved : layout.Resolved) {actuals : Vectorial.Parts} {binding : Binding}
    {fresh : StorageId}
    (matched : Matching.matchCall layout.formals (actuals.map Prod.fst) = .ok binding)
    (declared : index < layout.params.length)
    (unbound : Frame.initialSlot layout binding actuals fresh index = none) :
    ∃ e, layout.defaultFor index = some e := by
  obtain ⟨bound, supplies, -⟩ := Matching.matchCall_eq_ok_iff.mp matched
  rw [Frame.initialSlot] at unbound
  split at unbound
  · cases unbound
  next ordinary =>
  refine resolved.exists_default_of_not_required declared ?_ ordinary
  -- Were it required, it would have an actual, and this is one of the call.
  refine Bool.eq_false_iff.mpr fun required => ?_
  have received := supplies index required
  rw [Binding.isBound, if_neg ordinary] at received
  obtain ⟨actual, known⟩ := Option.isSome_iff_exists.mp received
  have given : actual < actuals.length := by
    have distributes := Matching.distributes_of_bind bound
    rw [List.length_map] at distributes
    refine List.mem_range.mp (distributes.subset (List.mem_append_left _ ?_))
    refine List.mem_append_left _ ?_
    exact List.reduceOption_mem_iff.mpr (List.mem_of_getElem? (Option.join_eq_some_iff.mp known))
  rw [known, Option.bind_some, List.getElem?_eq_getElem given] at unbound
  cases unbound

/-- A parameter that is read in the own text of the function is found in its slot. -/
theorem resolveRead_of_param (resolved : layout.Resolved) {root : Expr}
    (own : root ∈ ownText layout.params layout.body) {site : Site}
    (within : root.Within (.ident site name))
    (declared : (layout.params.map Prod.fst)[slot]? = some name) :
    ∃ outer, layout.resolveRead name = some (.here slot outer) := by
  obtain ⟨edition, scopes, given, made⟩ := resolved
  obtain ⟨-, -, -, locals_eq, reads_eq, -⟩ := layoutIn_eq_ok made
  have read : name ∈ root.reads :=
    subset_of_within Expr.reads_eq within (List.mem_singleton_self name)
  refine ⟨scopes.findOuter name, ?_⟩
  rw [resolveRead, reads_eq, lastEntry_map _ (mem_firstOccurrences.mpr
    (List.mem_flatMap.mpr ⟨root, own, read⟩)), Scopes.resolveRead, ← locals_eq,
    idxOf?_locals_of_param declared]

/-- A name that is found in the slot of a parameter is the name of the parameter. -/
theorem param_of_resolveRead (resolved : layout.Resolved) {outer : Option Address}
    (known : layout.resolveRead name = some (.here slot outer))
    (param : slot < layout.params.length) : (layout.params.map Prod.fst)[slot]? = some name := by
  obtain ⟨edition, scopes, given, made⟩ := resolved
  obtain ⟨-, -, -, locals_eq, reads_eq, -⟩ := layoutIn_eq_ok made
  rw [resolveRead, reads_eq] at known
  have found := eq_of_lastEntry_map known
  rw [Scopes.resolveRead, ← locals_eq] at found
  split at found
  · next position here =>
    cases found
    obtain ⟨inside, rfl, -⟩ := List.idxOf?_eq_some_iff.mp here
    obtain ⟨rest, leading⟩ := layout.params_leading
    have before : slot < (layout.params.map Prod.fst).length := by simpa using param
    rw [List.getElem?_eq_getElem before]
    simp [← leading, List.getElem_append_left before]
  · cases outward : scopes.findOuter name <;> rw [outward] at found <;> cases found

end Resolved

end Layout

/-! ### Reading -/

namespace Machine

variable {m : Machine} {frame : FrameId} {layout : Layout} {name : Symbol}

/-- A parameter that is bound can be read. -/
theorem exists_read_of_bound (known : m.heap.layout? frame = some layout) {slot : Nat}
    {outer : Option Address} (here : layout.resolveRead name = some (.here slot outer))
    (bound : (m.heap.get frame slot).isSome) : ∃ v, m.read name frame = .ok v := by
  obtain ⟨v, bound⟩ := Option.isSome_iff_exists.mp bound
  refine ⟨v, ?_⟩
  simp only [read, known, here, bound]

/-- Only a parameter of the function itself is missing, and only while it is unbound. -/
theorem missing_of_read (resolved : layout.Resolved) (known : m.heap.layout? frame = some layout)
    {function missing : Symbol}
    (failed : m.read name frame = .error (.missingArgument function missing)) :
    function = layout.name ∧ missing = name ∧ ∃ slot,
      (layout.params.map Prod.fst)[slot]? = some name ∧ m.heap.get frame slot = none := by
  have undefined {result : Option Value} :
      found name result ≠ .error (.missingArgument function missing) := by
    cases result <;> rintro ⟨⟩
  simp only [read, known] at failed
  -- Only an unbound slot of the frame itself is reported as a missing argument.
  split at failed
  · next slot outer here =>
    split at failed
    · cases failed
    · next unbound =>
      split at failed
      · next param =>
        cases failed
        exact ⟨rfl, rfl, slot, resolved.param_of_resolveRead here param, unbound⟩
      · exact absurd failed undefined
  · exact absurd failed undefined
  · exact absurd failed undefined
  · exact absurd failed undefined

end Machine

namespace EvalM

/-! ### The frame of a call -/

variable {layout : Layout} {env frame : FrameId} {actuals : Parts} {site : Option Site}
variable {m later : Machine}

/-- The slots of the parameters in the frame of a call. -/
theorem slots_ofCall {binding : Binding} {fresh : StorageId} {index : Nat}
    (declared : index < layout.params.length) :
    (Frame.ofCall layout binding actuals fresh env).slots[index]?.join =
      Frame.initialSlot layout binding actuals fresh index := by
  rw [← layout.length_formals] at declared
  simp [Frame.ofCall, List.getElem?_append_left, declared]

/-- A call that is entered has a new frame, with what its binding gives to the parameters. -/
theorem slots_of_entered (opened : entered layout env actuals site m = .ok frame later) :
    ∃ binding bound fresh,
      m.bindings site layout.callable (actuals.map Prod.fst) = .ok (binding, bound) ∧
      frame = m.heap.frames.size ∧ later.heap.layout? frame = some layout ∧
      ∀ index < layout.params.length,
        later.heap.get frame index = Frame.initialSlot layout binding actuals fresh index := by
  obtain ⟨binding, bound, matched, -, opened⟩ := entered_iff.mp opened
  obtain ⟨cache, rfl⟩ := Machine.eq_of_bindings matched
  cases opened
  refine ⟨binding, _, m.heap.nextStorage, matched, rfl, ?_, fun index declared => ?_⟩
  · exact Heap.layout_of_frame ((Heap.frame_allocate _ _ _).trans (if_pos rfl))
  · refine (Heap.get_allocate _ _ _ _).trans ((if_pos rfl).trans ?_)
    exact slots_ofCall declared

/-! ### Defaults -/

variable {context : Context} {depth : Nat}

/-- An evaluation keeps what is bound. -/
theorem keeps_of_eval {e : Expr} {v : Value} (done : eval context depth e frame m = .ok v later) :
    m.heap.Keeps later.heap := by
  rw [← ending_of_ok done]
  have lasting := Heap.lasting_keeps m.heap
  exact holds_ending_eval_of_start lasting context depth e frame m (.refl m.heap)

/-- So does filling in defaults. -/
theorem keeps_of_filled {indices : List Nat}
    (filled : indices.forM (fillDefault (eval context depth) layout frame) m = .ok () later) :
    m.heap.Keeps later.heap := by
  have lasting := Heap.lasting_keeps m.heap
  rw [← ending_of_ok filled]
  exact holds_ending_forM_fillDefault_of_start lasting
    (holds_ending_eval_of_start lasting context depth) indices (.refl m.heap)

theorem bound_of_fillDefault {index : Nat} {e : Expr}
    (filled : fillDefault (eval context depth) layout frame index m = .ok () later)
    (known : layout.defaultFor index = some e) : (later.heap.get frame index).isSome := by
  rw [fillDefault, get_bind] at filled
  split at filled
  · rw [known] at filled
    obtain ⟨v, between, -, filled⟩ := ok_of_bind filled
    rw [get_bind] at filled
    cases bound : between.setSlot frame index v with
    | error defect => rw [bound] at filled; cases filled
    | ok changed =>
      rw [bound] at filled
      cases filled
      rw [Heap.get_set (Machine.set_of_setSlot bound), if_pos ⟨rfl, rfl⟩]
      rfl
  · next bound =>
    cases filled
    simpa [Option.isSome_iff_ne_none] using bound

/-- When defaults have been filled in, the parameters that have them are bound. -/
theorem bound_of_filled {count index : Nat} {e : Expr}
    (filled : (List.range count).forM (fillDefault (eval context depth) layout frame) m =
      .ok () later)
    (before : index < count) (known : layout.defaultFor index = some e) :
    (later.heap.get frame index).isSome := by
  induction count generalizing later with
  | zero => exact absurd before (Nat.not_lt_zero index)
  | succ count ih =>
    rw [List.range_succ, forM_append] at filled
    obtain ⟨⟨⟩, between, earlier, filled⟩ := ok_of_bind filled
    have last : fillDefault (eval context depth) layout frame count between = .ok () later := by
      obtain ⟨⟨⟩, same, filled, ⟨⟩⟩ := ok_of_bind filled
      exact filled
    rcases Nat.lt_succ_iff_lt_or_eq.mp before with before | rfl
    · exact (keeps_of_filled filled).bound frame index (ih earlier before)
    · exact bound_of_fillDefault last known

end EvalM

end Vectorial
