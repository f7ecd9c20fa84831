import Vectorial.Proofs.Binary64.Rounding
import Vectorial.Proofs.Value.WellFormed

/-!
# Operators and builtins violate no precondition

On well-formed values every operator and every standard builtin delivers a well-formed value
or fails with an evaluation error: each check that could find a precondition violated is
passed. Only memory that no address reaches may still be asked for.

The progression between two doubles leads from its start to its end because rounding keeps
the order; the names of a vector that is put together are as many as its elements because
each part accounts for its own.

## Main definitions

* `Stop.IsHarmless`, `IsSafe`: ends that violate no precondition;
* `Attempt.IsSafe`, `Operation.IsSafe`: computations whose ends are such;
* `Builtin.IsSafe`, `Registry.IsSafe`: builtins that are safe on well-formed actuals.

## Main results

* `Value.between_isSafe`: what is between two finite numbers;
* `Value.binary_isSafe`: operators;
* `Registry.standard_isSafe`: the standard builtins.
-/

namespace Vectorial

variable {α β : Type}

/-! ### Ends -/

/-- Whether no precondition was violated, except that memory was asked for which no address
reaches. -/
def Stop.IsHarmless : Stop → Prop
  | .defect violated => violated = .capacityOverflow
  | _ => True

/-- A result that has the property, or a stop that is harmless. -/
def IsSafe (P : α → Prop) : Except Stop α → Prop
  | .ok a => P a
  | .error stop => stop.IsHarmless

/-- The attempt ends safely. -/
def Attempt.IsSafe (attempt : Attempt α) (P : α → Prop) : Prop :=
  Vectorial.IsSafe P attempt.outcome

/-- The operation ends safely, whichever identities are free. -/
def Operation.IsSafe (operation : Operation α) (P : α → Prop) : Prop :=
  ∀ next, Attempt.IsSafe (operation next) fun result => P result.1

namespace Attempt

variable {P : α → Prop} {Q : β → Prop}

theorem IsSafe.pure {a : α} (holds : P a) : IsSafe (Pure.pure a) P :=
  holds

theorem IsSafe.refuse (cause : Cause) : IsSafe (Attempt.refuse cause) P :=
  .intro

theorem IsSafe.bind {attempt : Attempt α} {next : α → Attempt β} (first : IsSafe attempt P)
    (second : ∀ a, P a → IsSafe (next a) Q) : IsSafe (attempt >>= next) Q := by
  obtain ⟨value, ticks⟩ := attempt
  cases value with
  | ok a => exact second a first
  | error fault => exact first

theorem IsSafe.ofMetered {reading : Metered α} (holds : P reading.value) :
    IsSafe (monadLift reading) P :=
  holds

/-- A reading only takes time: what follows it decides. -/
theorem IsSafe.afterMetered {reading : Metered α} {next : α → Attempt β}
    (each : ∀ a, IsSafe (next a) Q) : IsSafe (monadLift reading >>= next) Q :=
  bind (P := fun _ => True) (.ofMetered .intro) fun a _ => each a

theorem IsSafe.ofCause {result : Except Cause α} (holds : ∀ a, result = .ok a → P a) :
    IsSafe (Attempt.ofCause result) P := by
  cases result with
  | ok a => exact holds a rfl
  | error cause => exact .intro

theorem IsSafe.ofDefect {result : Except Defect α} (passes : ∃ a, result = .ok a ∧ P a) :
    IsSafe (Attempt.ofDefect result) P := by
  obtain ⟨a, rfl, holds⟩ := passes
  exact holds

end Attempt

namespace Operation

variable {P : α → Prop} {Q : β → Prop}

theorem IsSafe.pure {a : α} (holds : P a) : IsSafe (Pure.pure a) P :=
  fun _ => holds

theorem IsSafe.bind {operation : Operation α} {next : α → Operation β}
    (first : IsSafe operation P) (second : ∀ a, P a → IsSafe (next a) Q) :
    IsSafe (operation >>= next) Q :=
  fun free => (first free).bind fun result holds => second result.1 holds result.2

theorem IsSafe.lift {attempt : Attempt α} (safe : attempt.IsSafe P) :
    IsSafe (monadLift attempt) P :=
  fun _ => safe.bind fun _ holds => .pure holds

theorem IsSafe.liftMetered {reading : Metered α} (holds : P reading.value) :
    IsSafe (monadLift reading) P :=
  .lift (.ofMetered holds)

theorem IsSafe.refuse (cause : Cause) :
    IsSafe (monadLift (Attempt.refuse cause : Attempt α)) P :=
  .lift (.refuse cause)

theorem IsSafe.freshStorage : IsSafe freshStorage fun _ => True :=
  fun _ => .intro

/-- One operation for each source: the results are what the sources give, one by one. -/
theorem IsSafe.mapM {operation : α → Operation β} {R : α → β → Prop} {sources : List α}
    (each : ∀ a ∈ sources, IsSafe (operation a) (R a)) :
    IsSafe (sources.mapM operation) (List.Forall₂ R sources) := by
  induction sources with
  | nil => exact .pure .nil
  | cons source rest ih =>
    rw [List.mapM_cons]
    refine (each source List.mem_cons_self).bind fun first holds => ?_
    refine (ih fun a later => each a (List.mem_cons_of_mem _ later)).bind fun others hold => ?_
    exact .pure (.cons holds hold)

end Operation

namespace Value

variable {v w : Value}

/-! ### Reading -/

theorem atomWithin_isSafe {index : Nat} (inside : index < v.size) (kind : ElementKind) :
    (v.atomWithin index kind).IsSafe fun _ => True := by
  rw [atomWithin, if_pos inside]
  exact .ofMetered .intro

theorem get_isSafe {index : Nat} (inside : index < v.size) :
    (Attempt.ofDefect (v.get index)).IsSafe fun _ => True :=
  .ofDefect ⟨_, get_eq inside, .intro⟩

theorem size_toVector {kind : Kind} (empty : Value) (nothing : empty.size = 0)
    (made : v.toVector kind empty = .ok w) : w.size = v.size := by
  rw [toVector] at made
  split at made
  · cases made
    rfl
  · split at made
    · next null =>
      cases made
      cases v <;> cases null
      exact nothing
    · split at made <;> cases made
      cases v <;> rfl

/-- Coercion to a kind of atoms keeps the number of elements. -/
theorem size_coerceTo {kind : ElementKind} (made : v.coerceTo (.atomic kind) = .ok w) :
    w.size = v.size :=
  size_toVector (.ofAtoms kind []) rfl made

theorem withNames_isSafe (sound : v.WellFormed) {names : List (Option String)}
    (each : names.length = v.size) :
    (Attempt.ofDefect (v.withNames names)).IsSafe Value.WellFormed := by
  have fits : v.withNames names = .ok (v.mapMetadata (·.setNames names)) :=
    if_neg (by simp [each])
  exact .ofDefect ⟨_, fits, sound.withNames fits⟩

end Value

/-! ### Arguments -/

/-- A value of one element is read by its only index. -/
theorem size_pos_of_single {v : Value} (single : v.size = 1) : 0 < v.size :=
  single ▸ Nat.one_pos

theorem truthOf_isSafe (v : Value) : (truthOf v).IsSafe fun _ => True := by
  rw [truthOf]
  split
  · exact .refuse _
  · next some_left =>
    refine Attempt.IsSafe.bind (.ofCause fun _ made => Value.size_coerceTo made) ?_
    intro truth same
    -- Coercion keeps the number of elements, so that there is a first one to be read.
    have inside : 0 < truth.size := same ▸ Nat.pos_of_ne_zero some_left
    refine (Value.atomWithin_isSafe inside _).bind fun first _ => ?_
    split
    · exact .pure .intro
    · exact .refuse _

theorem checkScalar_isSafe (arg : Symbol) (v : Value) :
    (checkScalar arg v).IsSafe fun _ => v.size = 1 := by
  rw [checkScalar]
  split
  · exact .refuse _
  · next single =>
    have single : v.size = 1 := by
      by_contra other
      simp [other] at single
    refine (Value.get_isSafe (size_pos_of_single single)).bind fun reading _ => ?_
    refine Attempt.IsSafe.afterMetered fun element => ?_
    split
    · exact .refuse _
    · exact .pure single

theorem scalarInteger_isSafe (arg : Symbol) (v : Value) :
    (scalarInteger arg v).IsSafe fun _ => True := by
  refine (checkScalar_isSafe arg v).bind fun _ single => ?_
  refine (Value.atomWithin_isSafe (size_pos_of_single single) _).bind fun i _ => ?_
  dsimp only
  split
  · exact .bind (.refuse _) fun _ never => never
  · exact .pure .intro

theorem scalarDouble_isSafe (arg : Symbol) (v : Value) :
    (scalarDouble arg v).IsSafe fun _ => True :=
  (checkScalar_isSafe arg v).bind fun _ single =>
    Value.atomWithin_isSafe (size_pos_of_single single) _

namespace Choice

variable {choice : Choice}

/-- A text names one of the options. -/
theorem lt_of_find_eq_some {text : String} {index : Nat} (found : choice.find text = some index) :
    index < choice.options.length := by
  rw [find] at found
  -- A text is found as it stands or as the beginning of just one option.
  split at found
  · next exact exactly =>
    cases found
    exact (List.idxOf?_eq_some_iff.mp exactly).1
  · split at found
    · next only completes =>
      cases found
      have listed : index ∈ choice.completions text := completes ▸ List.mem_singleton_self _
      exact List.mem_range.mp (List.mem_of_mem_filter listed)
    · cases found

/-- A value names one of the options, of which there must be some. -/
theorem parse_isSafe (choice : Choice) (some_left : 0 < choice.options.length) (v : Value) :
    (choice.parse v).IsSafe (· < choice.options.length) := by
  rw [parse]
  split
  · exact .pure some_left
  · split
    · exact .refuse _
    · split
      · exact .refuse _
      · next single =>
        have inside : 0 < v.size := size_pos_of_single (Decidable.of_not_not single)
        refine (Value.atomWithin_isSafe inside _).bind fun text _ => ?_
        split
        · next found =>
          obtain ⟨text, -, found⟩ := Option.bind_eq_some_iff.mp found
          exact .pure (lt_of_find_eq_some found)
        · exact .refuse _

end Choice

/-! ### Operators -/

namespace Binary64

variable {x y : Binary64} {i : Int32}

theorem truncated_le (below : x.grains ≤ y.grains) : x.truncated ≤ y.truncated :=
  Int.tdiv_le_tdiv (Int.natCast_pos.mpr unit_pos) below

theorem integral?_eq_some (whole : x.integral? = some i) :
    x.isFinite ∧ i.toInt = x.truncated := by
  rw [integral?] at whole
  split at whole
  · next fits =>
    cases whole
    simp only [Bool.and_eq_true, decide_eq_true_eq] at fits
    refine ⟨fits.1.1, Int32.toInt_ofInt_of_le ?_ ?_⟩
    all_goals omega
  · cases whole

/-- Integers are in the order of the grains of the doubles. -/
theorem integral?_le {j : Int32} (whole : x.integral? = some i) (whole' : y.integral? = some j)
    (below : x.grains ≤ y.grains) : i.toInt ≤ j.toInt := by
  rw [(integral?_eq_some whole).2, (integral?_eq_some whole').2]
  exact truncated_le below

/-- As many steps as fit between two numbers, a number that is not negative. -/
theorem negative_stepsBetween (x y : Binary64) :
    (y.sub x).abs.floorNonnegative.negative = false :=
  negative_floorNonnegative (negative_abs _)

/-- Steps upward do not lead down. -/
theorem le_grains_stepsUp {steps : Binary64} (forward : steps.negative = false)
    (finite : (x.add ((ofInt 1).mul steps)).isFinite) :
    x.grains ≤ (x.add ((ofInt 1).mul steps)).grains := by
  have product := (add_of_isFinite finite).1
  refine le_grains_add (grains_nonneg ?_) finite
  rw [negative_mul product, forward]
  decide +kernel

/-- Steps downward do not lead up. -/
theorem grains_stepsDown_le {steps : Binary64} (forward : steps.negative = false)
    (finite : (x.add ((ofInt (-1)).mul steps)).isFinite) :
    (x.add ((ofInt (-1)).mul steps)).grains ≤ x.grains := by
  have product := (add_of_isFinite finite).1
  refine grains_add_le (grains_nonpos ?_) finite
  rw [negative_mul product, forward]
  decide +kernel

end Binary64

namespace Value

theorem bound_isSafe (arg : Symbol) (v : Value) : (v.bound arg).IsSafe fun _ => True := by
  rw [bound]
  split
  · exact .refuse _
  · next single =>
    refine Attempt.IsSafe.bind (.ofCause fun _ made => size_coerceTo made) fun number same => ?_
    have inside : 0 < number.size :=
      size_pos_of_single (same.trans (Decidable.of_not_not single))
    refine (atomWithin_isSafe inside _).bind fun x _ => ?_
    split
    · exact .refuse _
    · split
      · exact .refuse _
      · exact .pure .intro

theorem upTo_isSafe {stop : Int32} (positive : 1 ≤ stop.toInt) :
    (Attempt.ofDefect (Value.upTo stop)).IsSafe Value.WellFormed := by
  have made : Value.upTo stop = .ok (.vector (.view (.range ⟨stop, positive⟩)) none) :=
    congrArg (Except.map _) (dif_pos positive)
  exact .ofDefect ⟨_, made, wellFormed_upTo made⟩

theorem sequence_isSafe {start stop step : Int32}
    (leads : (0 < step.toInt ∧ start.toInt ≤ stop.toInt) ∨
      (step.toInt < 0 ∧ stop.toInt ≤ start.toInt)) :
    (Attempt.ofDefect (Value.sequence start stop step)).IsSafe Value.WellFormed := by
  have made : Value.sequence start stop step =
      .ok (.vector (.view (.sequence ⟨start, stop, step, leads⟩)) none) :=
    congrArg (Except.map _) (dif_pos leads)
  exact .ofDefect ⟨_, made, wellFormed_sequence made⟩

/-- What is between two numbers is a progression that leads from one to the other, or is
stored if that is possible. -/
theorem between_isSafe (start stop : Binary64) :
    (Attempt.ofDefect (between start stop)).IsSafe Value.WellFormed := by
  have forward := Binary64.negative_stepsBetween start stop
  rw [between]
  generalize (stop.sub start).abs.floorNonnegative = steps at forward
  dsimp only
  split
  · next first last whole reached =>
    split
    · next upward => exact upTo_isSafe (Int32.le_iff_toInt_le.mp upward.2)
    · refine sequence_isSafe ?_
      -- The last step reached is rounded, but rounding does not lead it past the start.
      by_cases upward : start.le stop
      · rw [if_pos upward] at reached ⊢
        have finite := (Binary64.integral?_eq_some reached).1
        exact .inl ⟨by decide, Binary64.integral?_le whole reached
          (Binary64.le_grains_stepsUp forward finite)⟩
      · rw [if_neg upward] at reached ⊢
        have finite := (Binary64.integral?_eq_some reached).1
        exact .inr ⟨by decide, Binary64.integral?_le reached whole
          (Binary64.grains_stepsDown_le forward finite)⟩
  · split
    · exact rfl
    · exact .ofDefect ⟨_, rfl, wellFormed_ofAtoms _ _⟩

theorem colon_isSafe (start stop : Value) : (start.colon stop).IsSafe Value.WellFormed :=
  (bound_isSafe _ start).bind fun first _ => (bound_isSafe _ stop).bind fun last _ =>
    between_isSafe first last

theorem memberIn_isSafe (kind : ElementKind) (needles haystack : Value) :
    (memberIn kind needles haystack).IsSafe fun _ => True := by
  rw [memberIn]
  split
  · next single =>
    refine (atomWithin_isSafe (size_pos_of_single single) _).bind fun needle _ => ?_
    split
    · exact .pure .intro
    · exact Attempt.IsSafe.afterMetered fun _ => .pure .intro
  · exact Attempt.IsSafe.afterMetered fun _ => .afterMetered fun _ => .pure .intro

theorem member_isSafe (needles haystack : Value) :
    (needles.member haystack).IsSafe Value.WellFormed := by
  rw [member]
  split
  · exact .pure (wellFormed_ofAtoms _ _)
  · exact (memberIn_isSafe _ _ _).bind fun _ _ => .pure (wellFormed_ofAtoms _ _)
  · exact .refuse _

theorem arithmetic_isSafe (op : BinaryOp) (left right : Value) :
    (arithmetic op left right).IsSafe Value.WellFormed := by
  have combined (kind : ElementKind) (f : kind.Carrier → kind.Carrier → kind.Carrier) :
      Attempt.IsSafe (monadLift (combine kind f left right)) Value.WellFormed :=
    .ofMetered (wellFormed_ofAtoms _ _)
  rw [arithmetic]
  split
  · exact combined _ _
  · exact combined _ _
  · exact combined _ _
  · exact .refuse _

/-- Operators violate no precondition, whatever the operands. -/
theorem binary_isSafe (op : BinaryOp) (left right : Value) :
    (Value.binary op left right).IsSafe Value.WellFormed := by
  unfold Value.binary
  split
  · exact colon_isSafe left right
  · exact member_isSafe left right
  · exact arithmetic_isSafe _ left right

end Value

/-! ### Builtins -/

/-- Whether all actuals are well formed. -/
def Parts.WellFormed (parts : Parts) : Prop :=
  ∀ part ∈ parts, part.2.WellFormed

/-- On well-formed actuals the builtin violates no precondition. -/
def Builtin.IsSafe (builtin : Builtin) : Prop :=
  ∀ arguments, arguments.formals = builtin.formals → arguments.actuals.WellFormed →
    (builtin.run arguments).IsSafe Value.WellFormed

/-- No registered builtin violates a precondition. -/
def Registry.IsSafe (registry : Registry) : Prop :=
  ∀ builtin ∈ registry.builtins, builtin.IsSafe

namespace Arguments

variable {arguments : Arguments}

theorem wellFormed_absorbed (sound : arguments.actuals.WellFormed) :
    arguments.absorbed.WellFormed := by
  intro part absorbed
  obtain ⟨position, -, found⟩ := List.mem_filterMap.mp absorbed
  exact sound part (List.mem_of_getElem? found)

theorem arg_isSafe (sound : arguments.actuals.WellFormed) {index : Nat}
    (inside : index < arguments.formals.length) :
    (arguments.arg index).IsSafe fun given => ∀ v ∈ given, v.WellFormed := by
  rw [arg, if_pos inside]
  refine .pure fun v given => ?_
  obtain ⟨position, -, given⟩ := Option.bind_eq_some_iff.mp given
  obtain ⟨part, found, rfl⟩ := Option.map_eq_some_iff.mp given
  exact sound part (List.mem_of_getElem? found)

theorem required_isSafe (sound : arguments.actuals.WellFormed) {index : Nat}
    (inside : index < arguments.formals.length) :
    (arguments.required index).IsSafe Value.WellFormed := by
  refine (arg_isSafe sound inside).bind fun given well => ?_
  cases given with
  | some v => exact .pure (well v rfl)
  | none => exact .refuse _

end Arguments

namespace Builtin

variable {arguments : Arguments}

/-- A vector may be given names, one for each element. -/
private theorem named_isSafe {names : Option (List (Option String))} {v : Value}
    (sound : v.WellFormed) (each : ∀ listed ∈ names, listed.length = v.size) :
    Operation.IsSafe
      (match names with
        | some names => monadLift (Attempt.ofDefect (v.withNames names))
        | none => Pure.pure v) Value.WellFormed := by
  cases names with
  | none => exact .pure sound
  | some names => exact .lift (Value.withNames_isSafe sound (each names rfl))

theorem length_partNames (part : Option Symbol × Value) :
    (partNames part).length = part.2.size := by
  rw [partNames, List.length_map, List.length_range]

/-- There are as many joined names as elements, if each part has its own. -/
theorem length_combinedNames {parts : Parts} {names : List (Option String)}
    {pieces : List (List α)} (joined : combinedNames parts = some names)
    (each : List.Forall₂ (fun part piece => piece.length = part.2.size) parts pieces) :
    names.length = pieces.flatten.length := by
  have all : (parts.flatMap partNames).length = pieces.flatten.length := by
    clear joined
    -- Part by part: each contributes as many names as it has elements.
    induction each with
    | nil => rfl
    | cons first _ ih =>
      rw [List.flatMap_cons, List.flatten_cons, List.length_append, List.length_append, ih,
        length_partNames, first]
  rw [combinedNames] at joined
  split at joined
  · cases joined
    exact all
  · cases joined

theorem combine_isSafe (sound : arguments.actuals.WellFormed) :
    (combine arguments).IsSafe Value.WellFormed := by
  have absorbed := Arguments.wellFormed_absorbed sound
  rw [combine]
  dsimp only
  split
  · exact .pure .null
  · split
    · exact .refuse _
    · exact .pure .null
    -- Atoms: one list of elements for each part, as long as the part.
    · next kind _ =>
      refine (Operation.IsSafe.mapM (R := fun part xs => xs.length = part.2.size) fun part _ =>
        .liftMetered (part.2.length_atomsAs kind)).bind fun pieces each => ?_
      exact named_isSafe (Value.wellFormed_ofAtoms _ _) fun names joined =>
        length_combinedNames joined each
    -- Items: besides their number, that they are well formed has to be carried along.
    · refine (Operation.IsSafe.mapM
        (R := fun part xs => xs.length = part.2.size ∧ ∀ item ∈ xs, item.WellFormed)
        fun part listed => .liftMetered ⟨part.2.length_items, (absorbed part listed).items⟩).bind
        fun pieces each => ?_
      refine Operation.IsSafe.freshStorage.bind fun id _ => named_isSafe ?_ fun names joined =>
        length_combinedNames joined (each.imp fun _ _ both => both.1)
      refine Value.wellFormed_ofItems id fun item member => ?_
      obtain ⟨piece, listed, member⟩ := List.mem_flatten.mp member
      have inside := (List.forall₂_and_left pieces arguments.absorbed).mp
        (each.flip.imp fun _ _ both => both.symm)
      exact inside.1 piece listed item member

theorem makeList_isSafe (sound : arguments.actuals.WellFormed) :
    (makeList arguments).IsSafe Value.WellFormed :=
  Operation.IsSafe.freshStorage.bind fun id _ =>
    .pure (Value.wellFormed_ofParts id (Arguments.wellFormed_absorbed sound))

theorem length_isSafe (sound : arguments.actuals.WellFormed)
    (params : 0 < arguments.formals.length) : (length arguments).IsSafe Value.WellFormed :=
  (Operation.IsSafe.lift (Arguments.required_isSafe sound params)).bind fun _ _ =>
    .pure (Value.wellFormed_ofAtoms _ _)

theorem isAbsent_isSafe (element : Scalar) : (isAbsent element).IsSafe fun _ => True := by
  cases element with
  | atom a => exact .pure .intro
  | item v =>
    rw [isAbsent]
    split
    · next atomic =>
      have single : v.size = 1 := by
        simp only [Bool.and_eq_true, beq_iff_eq] at atomic
        exact atomic.2
      refine (Value.get_isSafe (size_pos_of_single single)).bind fun reading _ => ?_
      refine Attempt.IsSafe.afterMetered fun element => ?_
      split
      · exact .pure .intro
      · exact .pure .intro
    · exact .pure .intro

theorem isMissing_isSafe (sound : arguments.actuals.WellFormed)
    (params : 0 < arguments.formals.length) : (isMissing arguments).IsSafe Value.WellFormed := by
  refine (Operation.IsSafe.lift (Arguments.required_isSafe sound params)).bind fun x sound => ?_
  split
  · exact .pure (Value.wellFormed_ofAtoms _ _)
  · refine (Operation.IsSafe.liftMetered (P := fun elements => elements.length = x.size)
      x.length_elements).bind fun elements as_many => ?_
    refine (Operation.IsSafe.mapM fun element _ => .lift (isAbsent_isSafe element)).bind
      fun flags each => ?_
    refine named_isSafe (Value.wellFormed_ofAtoms _ _) fun names named => ?_
    rw [sound.length_names named, ← as_many, each.length_eq]
    exact (List.length_map _).symm

theorem wholeStep_isSafe (v : Value) : (wholeStep v).IsSafe fun _ => True := by
  rw [wholeStep]
  split
  · refine (scalarDouble_isSafe "by" v).bind fun step _ => ?_
    split
    · exact .bind (.refuse _) fun _ never => never
    · exact scalarInteger_isSafe "by" v
  · exact scalarInteger_isSafe "by" v

theorem integerOrOne_isSafe (arg : Symbol) (given : Option Value) :
    (integerOrOne arg given).IsSafe fun _ => True := by
  cases given with
  | none => exact .pure .intro
  | some v => exact scalarInteger_isSafe arg v

/-- A step that is not refused leads from the start to the end. -/
theorem leads_of_checks {start stop step : Int32} (nonzero : step ≠ 0)
    (towards : ¬ (start ≠ stop ∧ decide (start.toInt < stop.toInt) ≠ decide (0 < step.toInt))) :
    (0 < step.toInt ∧ start.toInt ≤ stop.toInt) ∨
      (step.toInt < 0 ∧ stop.toInt ≤ start.toInt) := by
  have moving : step.toInt ≠ 0 := fun still => nonzero (Int32.toInt_inj.mp still)
  by_cases same : start = stop
  · rw [same]
    omega
  · have apart : start.toInt ≠ stop.toInt := fun equal => same (Int32.toInt_inj.mp equal)
    simp only [ne_eq, same, not_false_eq_true, true_and, Decidable.not_not,
      decide_eq_decide] at towards
    omega

theorem sequence_isSafe (sound : arguments.actuals.WellFormed)
    (params : 2 < arguments.formals.length) : (sequence arguments).IsSafe Value.WellFormed := by
  have at_position {index : Nat} (inside : index < 3) :=
    Operation.IsSafe.lift (Arguments.arg_isSafe sound (Nat.lt_of_lt_of_le inside params))
  rw [sequence]
  refine (at_position (by decide)).bind fun first _ => ?_
  refine (Operation.IsSafe.lift (integerOrOne_isSafe "from" first)).bind fun start _ => ?_
  refine (at_position (by decide)).bind fun second _ => ?_
  refine (Operation.IsSafe.lift (integerOrOne_isSafe "to" second)).bind fun stop _ => ?_
  refine (at_position (by decide)).bind fun third _ => ?_
  -- The checks on the step, whether it was given or is one.
  have finish (step : Int32) : Operation.IsSafe
      (if step = 0 then monadLift (Attempt.refuse (.typeMismatch "a non-zero step" "0"))
        else if start ≠ stop ∧ decide (start.toInt < stop.toInt) ≠ decide (0 < step.toInt) then
          monadLift (Attempt.refuse
            (.typeMismatch s!"a step towards {stop.toInt}" (toString step.toInt)))
        else monadLift (Attempt.ofDefect (Value.sequence start stop step)))
      Value.WellFormed := by
    split
    · exact .refuse _
    · next nonzero =>
      split
      · exact .refuse _
      · next towards =>
        exact .lift (Value.sequence_isSafe (leads_of_checks nonzero towards))
  cases third with
  | none =>
    exact (Operation.IsSafe.pure (P := fun _ => True) .intro).bind fun step _ => finish step
  | some v => exact (Operation.IsSafe.lift (wholeStep_isSafe v)).bind fun step _ => finish step

theorem kindOfMode_isSafe {mode : Nat} (inside : mode < modes.length) :
    (kindOfMode mode).IsSafe fun _ => True := by
  rw [kindOfMode, List.getElem?_eq_getElem inside]
  exact .pure .intro

theorem lengthOrZero_isSafe (given : Option Value) : (lengthOrZero given).IsSafe fun _ => True := by
  cases given with
  | none => exact .pure .intro
  | some v =>
    refine (scalarInteger_isSafe "length" v).bind fun length _ => ?_
    split
    · exact .refuse _
    · exact .pure .intro

theorem zeros_isSafe (sound : arguments.actuals.WellFormed)
    (params : 1 < arguments.formals.length) : (zeros arguments).IsSafe Value.WellFormed := by
  have some_param : 0 < arguments.formals.length := Nat.zero_lt_of_lt params
  -- Everything after the mode is known, which is among the options either way.
  have finish {mode : Nat} (inside : mode < modes.length) : Operation.IsSafe (do
      let length ← lengthOrZero (← arguments.arg 1)
      let kind ← kindOfMode mode
      let id ← Operation.freshStorage
      pure (Value.zeroed id kind length)) Value.WellFormed := by
    refine (Operation.IsSafe.lift (Arguments.arg_isSafe sound params)).bind fun given _ => ?_
    refine (Operation.IsSafe.lift (lengthOrZero_isSafe given)).bind fun length _ => ?_
    refine (Operation.IsSafe.lift (kindOfMode_isSafe inside)).bind fun kind _ => ?_
    exact Operation.IsSafe.freshStorage.bind fun id _ =>
      .pure (Value.wellFormed_zeroed id kind length)
  rw [zeros]
  refine (Operation.IsSafe.lift (Arguments.arg_isSafe sound some_param)).bind fun given _ => ?_
  cases given with
  | none => exact (Operation.IsSafe.pure (P := (· < modes.length)) (by decide)).bind fun _ => finish
  | some v =>
    have options : modeChoice.options.length = modes.length := List.length_map _
    have parsed := Choice.parse_isSafe modeChoice (by decide) v
    rw [options] at parsed
    exact (Operation.IsSafe.lift parsed).bind fun _ => finish

end Builtin

/-- The standard builtins violate no precondition. -/
theorem Registry.standard_isSafe : Registry.standard.IsSafe := by
  intro builtin member arguments same sound
  simp only [standard, variadic, unary, List.mem_cons, List.not_mem_nil, or_false] at member
  have params : builtin.formals.length = arguments.formals.length := congrArg _ same.symm
  rcases member with rfl | rfl | rfl | rfl | rfl | rfl
  · exact Builtin.combine_isSafe sound
  · exact Builtin.makeList_isSafe sound
  · exact Builtin.length_isSafe sound (params ▸ Nat.one_pos)
  · exact Builtin.isMissing_isSafe sound (params ▸ Nat.one_pos)
  · exact Builtin.sequence_isSafe sound (params ▸ Nat.lt_add_one 2)
  · exact Builtin.zeros_isSafe sound (params ▸ Nat.lt_add_one 1)

end Vectorial
