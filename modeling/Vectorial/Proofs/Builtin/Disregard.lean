import Vectorial.Builtin.Registry
import Vectorial.Operator.Binary
import Vectorial.Proofs.Builtin.Alike
import Vectorial.Proofs.Value.Disregard

/-!
# Operators and builtins on what is left of values

Operators and the standard builtins look neither at the counters in front of a view nor at
the editions of layouts. Applied to what is left of their operands when these are
disregarded, they do the same, and deliver what is left of their results.

The results of operators hold no part of an operand, and so they are the same.

## Main definitions

* `Attempt.Ignores`: an attempt that delivers the same from what is left;
* `Builtin.Disregards`, `Registry.Disregards`: builtins that work on what is left.

## Main results

* `truthOf_ignores`, `Value.binary_ignores`: conditions and operators;
* `Registry.standard_disregards`: the standard builtins.
-/

namespace Vectorial

variable {d : Disregard} {α : Type}

/-- Attempts that deliver the same. -/
abbrev Attempt.Ignores (attempt other : Attempt α) : Prop :=
  Attempt.Alike Eq attempt other

/-- A value, and what is left of it. -/
abbrev Value.Leaves (d : Disregard) (v w : Value) : Prop :=
  w = v.without d

/-! ### Arguments -/

theorem Value.atomWithin_ignores (v : Value) (index : Nat) (kind : ElementKind) :
    (v.atomWithin index kind).Ignores ((v.without d).atomWithin index kind) := by
  rw [atomWithin, atomWithin, v.size_without]
  split
  · exact .ofMetered (v.value_atomAt_without index kind).symm
  · exact .fault _

theorem Value.coerceTo_leaves (v : Value) (kind : ElementKind) :
    Attempt.Alike (Value.Leaves d) (Attempt.ofCause (v.coerceTo (.atomic kind)))
      (Attempt.ofCause ((v.without d).coerceTo (.atomic kind))) :=
  .ofExcept (.of_map (v.toVector_without (.atomic kind) rfl))

/-- An element at an index that is checked, and what is left of it. -/
theorem Value.get_leaves (v : Value) (index : Nat) :
    Likewise (fun reading reading' => reading'.value = reading.value.without d) (v.get index)
      ((v.without d).get index) := by
  have same := v.get_without (d := d) index
  -- Both readings pass the same check, so that the mixed cases contradict `same`.
  cases got : v.get index with
  | ok reading =>
    cases got' : (v.without d).get index with
    | ok reading' =>
      rw [got, got'] at same
      exact .ok (Except.ok.inj same)
    | error defect =>
      rw [got, got'] at same
      cases same
  | error defect =>
    cases got' : (v.without d).get index with
    | ok reading' =>
      rw [got, got'] at same
      cases same
    | error defect' =>
      rw [got, got'] at same
      cases same
      exact .error _

theorem Choice.parse_ignores (choice : Choice) (v : Value) :
    (choice.parse v).Ignores (choice.parse (v.without d)) := by
  rw [parse, parse, v.isNull_without, v.kind_without, v.size_without, v.typeName_without]
  split
  · exact .pure rfl
  · split
    · exact .fault _
    · split
      · exact .fault _
      · refine (v.atomWithin_ignores 0 .character).bind fun text _ same => ?_
        rw [same]
        exact .refl (fun _ => rfl) _

/-- What is disregarded does not show in a condition. -/
theorem truthOf_ignores (v : Value) : (truthOf v).Ignores (truthOf (v.without d)) := by
  rw [truthOf, truthOf, v.size_without]
  split
  · exact .fault _
  · refine (v.coerceTo_leaves .logical).bind fun truth _ left => ?_
    rw [left]
    refine (truth.atomWithin_ignores 0 .logical).bind fun first _ same => ?_
    rw [same]
    exact .refl (fun _ => rfl) _

theorem checkScalar_ignores (arg : Symbol) (v : Value) :
    (checkScalar arg v).Ignores (checkScalar arg (v.without d)) := by
  rw [checkScalar, checkScalar, v.size_without, v.kind_without]
  split
  · exact .fault _
  · refine (Attempt.Alike.ofExcept (v.get_leaves 0)).bind fun reading reading' left => ?_
    refine Attempt.Alike.bind (Q := fun s s' : Scalar => s' = s.without d) (.ofMetered left)
      fun element _ same => ?_
    rw [same, element.isMissing_without]
    exact .refl (fun _ => rfl) _

theorem scalarInteger_ignores (arg : Symbol) (v : Value) :
    (scalarInteger arg v).Ignores (scalarInteger arg (v.without d)) := by
  refine (checkScalar_ignores arg v).bind fun _ _ _ => ?_
  refine (v.atomWithin_ignores 0 .integer).bind fun i _ same => ?_
  rw [same]
  exact .refl (fun _ => rfl) _

theorem scalarDouble_ignores (arg : Symbol) (v : Value) :
    (scalarDouble arg v).Ignores (scalarDouble arg (v.without d)) :=
  (checkScalar_ignores arg v).bind fun _ _ _ => v.atomWithin_ignores 0 .double

/-! ### Operators -/

namespace Value

theorem bound_ignores (arg : Symbol) (v : Value) :
    (v.bound arg).Ignores ((v.without d).bound arg) := by
  rw [bound, bound, v.size_without]
  split
  · exact .fault _
  · refine (v.coerceTo_leaves .double).bind fun number _ left => ?_
    rw [left]
    refine (number.atomWithin_ignores 0 .double).bind fun x _ same => ?_
    rw [same]
    exact .refl (fun _ => rfl) _

theorem colon_ignores (start stop : Value) :
    (start.colon stop).Ignores ((start.without d).colon (stop.without d)) := by
  refine (start.bound_ignores "from").bind fun first _ same => ?_
  refine (stop.bound_ignores "to").bind fun last _ same' => ?_
  rw [same, same']
  exact .refl (fun _ => rfl) _

theorem value_containsFrom_without (v : Value) (kind : ElementKind) (key : kind.Carrier)
    (count index : Nat) :
    ((v.without d).containsFrom kind key count index).value =
      (v.containsFrom kind key count index).value := by
  induction count generalizing index with
  | zero => rfl
  | succ count ih =>
    rw [containsFrom, containsFrom, Metered.value_bind, Metered.value_bind, value_atomAt_without]
    split
    · rfl
    · exact ih (index + 1)

theorem memberIn_ignores (kind : ElementKind) (needles haystack : Value) :
    (memberIn kind needles haystack).Ignores
      (memberIn kind (needles.without d) (haystack.without d)) := by
  rw [memberIn, memberIn, needles.size_without]
  split
  · -- One needle is looked for until it is found; for several the whole haystack is read.
    refine (needles.atomWithin_ignores 0 kind).bind fun needle _ same => ?_
    subst same
    cases kind.key needle with
    | none => exact .pure rfl
    | some key =>
      refine Attempt.Alike.bind (Q := Eq) (.ofMetered ?_) fun found _ same => ?_
      · rw [contains, contains, haystack.size_without]
        exact (haystack.value_containsFrom_without kind key _ 0).symm
      · rw [same]
        exact .pure rfl
  · refine Attempt.Alike.bind (Q := Eq) (.ofMetered (haystack.value_atomsAs_without kind).symm)
      fun present _ same => ?_
    refine Attempt.Alike.bind (Q := Eq) (.ofMetered (needles.value_atomsAs_without kind).symm)
      fun sought _ same' => ?_
    rw [same, same']
    exact .pure rfl

theorem member_ignores (needles haystack : Value) :
    (needles.member haystack).Ignores ((needles.without d).member (haystack.without d)) := by
  have refusal : notComparable (needles.without d) (haystack.without d) =
      notComparable needles haystack := by
    unfold notComparable
    rw [needles.isFunction_without]
    split <;> rw [typeName_without]
  rw [member, member, needles.kind_without, haystack.kind_without, refusal]
  split
  · exact .pure rfl
  · next kind _ =>
    refine (memberIn_ignores kind needles haystack).bind fun found _ same => ?_
    rw [same]
    exact .pure rfl
  · exact .fault _

theorem isArithmetic_without (v : Value) : (v.without d).isArithmetic = v.isArithmetic := by
  rw [isArithmetic, isArithmetic, v.isNull_without, v.kind_without]

theorem arithmetic_ignores (op : BinaryOp) (left right : Value) :
    (arithmetic op left right).Ignores (arithmetic op (left.without d) (right.without d)) := by
  have kinds : arithmeticKind op (left.without d) (right.without d) =
      arithmeticKind op left right := by
    rw [arithmeticKind, arithmeticKind, isArithmetic_without, isArithmetic_without,
      left.kind_without, right.kind_without]
  -- The refusal names the types of the operands, which are not disregarded.
  have refusal : unsupportedOperands op (left.without d) (right.without d) =
      unsupportedOperands op left right := by
    simp only [unsupportedOperands, typeName_without]
  have combined (kind : ElementKind) (f : kind.Carrier → kind.Carrier → kind.Carrier) :
      Attempt.Ignores (monadLift (combine kind f left right))
        (monadLift (combine kind f (left.without d) (right.without d))) := by
    refine .ofMetered ?_
    simp only [combine, Metered.value_bind, Metered.value_pure, value_produce_without]
  rw [arithmetic, arithmetic, kinds, refusal]
  split
  · exact combined _ _
  · exact combined _ _
  · exact combined _ _
  · exact .fault _

/-- What is disregarded does not show in the result of an operator. -/
theorem binary_ignores (op : BinaryOp) (left right : Value) :
    (Value.binary op left right).Ignores
      (Value.binary op (left.without d) (right.without d)) := by
  unfold Value.binary
  split
  · exact colon_ignores left right
  · exact member_ignores left right
  · exact arithmetic_ignores _ left right

end Value

/-! ### Builtins -/

/-- The arguments without what is disregarded in the actuals. -/
def Arguments.without (d : Disregard) (arguments : Arguments) : Arguments :=
  { arguments with actuals := arguments.actuals.without d }

/-- A builtin does the same with what is left of its actuals, and delivers what is left of its
result. -/
def Builtin.Disregards (d : Disregard) (builtin : Builtin) : Prop :=
  ∀ arguments, Operation.Alike (Value.Leaves d) (builtin.run arguments)
    (builtin.run (arguments.without d))

/-- All registered builtins do. -/
def Registry.Disregards (d : Disregard) (registry : Registry) : Prop :=
  ∀ builtin ∈ registry.builtins, builtin.Disregards d

namespace Arguments

variable (arguments : Arguments)

@[simp]
theorem formals_without : (arguments.without d).formals = arguments.formals :=
  rfl

@[simp]
theorem binding_without : (arguments.without d).binding = arguments.binding :=
  rfl

@[simp]
theorem getElem?_actuals_without (index : Nat) : (arguments.without d).actuals[index]? =
    arguments.actuals[index]?.map fun part => (part.1, part.2.without d) :=
  List.getElem?_map

theorem arg_leaves (index : Nat) :
    Attempt.Alike (fun given given' => given' = given.map (Value.without d)) (arguments.arg index)
      ((arguments.without d).arg index) := by
  rw [arg, arg, formals_without, binding_without]
  split
  · refine .pure ?_
    cases arguments.binding.actualFor index with
    | none => rfl
    | some actual =>
      dsimp only [Option.bind_some]
      rw [getElem?_actuals_without]
      cases arguments.actuals[actual]? <;> rfl
  · exact .fault _

theorem required_leaves (index : Nat) :
    Attempt.Alike (Value.Leaves d) (arguments.required index)
      ((arguments.without d).required index) := by
  refine (arguments.arg_leaves index).bind fun given _ left => ?_
  subst left
  cases given with
  | none => exact .fault _
  | some v => exact .pure rfl

theorem absorbed_without : (arguments.without d).absorbed = arguments.absorbed.without d := by
  unfold absorbed Parts.without
  simp only [getElem?_actuals_without, List.map_filterMap]
  rfl

end Arguments

namespace Builtin

variable (arguments : Arguments)

theorem any_without {holds : Option Symbol × Value → Bool}
    (same : ∀ part, holds (part.1, part.2.without d) = holds part) (parts : Parts) :
    (parts.without d).any holds = parts.any holds := by
  rw [Parts.without, List.any_map]
  exact congrArg (List.any parts) (funext same)

theorem combinedKind_without (parts : Parts) :
    combinedKind (parts.without d) = combinedKind parts := by
  unfold combinedKind
  rw [any_without fun part => by rw [part.2.isFunction_without, part.2.kind_without], Parts.without,
    List.map_map]
  simp only [Function.comp_def, Value.kind_without]

theorem combinedNames_without (parts : Parts) :
    combinedNames (parts.without d) = combinedNames parts := by
  unfold combinedNames
  rw [any_without fun part => by rw [part.2.names_without], Parts.without, List.flatMap_map]
  simp only [partNames, Value.size_without, Value.names_without]
  rfl

/-- A vector may be given the same names before and after. -/
private theorem named_leaves (names : Option (List (Option String))) (v : Value) :
    Operation.Alike (Value.Leaves d)
      (match names with
        | some names => monadLift (Attempt.ofDefect (v.withNames names))
        | none => Pure.pure v)
      (match names with
        | some names => monadLift (Attempt.ofDefect ((v.without d).withNames names))
        | none => Pure.pure (v.without d)) := by
  cases names with
  | none => exact .pure rfl
  | some names => exact .lift (.ofExcept (.of_map (v.withNames_without names)))

theorem without_ofItems (id : StorageId) (items : List Value) :
    (Value.ofItems id items).without d = Value.ofItems id (items.map (Value.without d)) := by
  simp [Value.ofItems, Value.without, Storage.without, metadataWithout]

/-- One operation for each part. -/
theorem mapM_without {β : Type} {operation : Option Symbol × Value → Operation β} (f : β → β)
    (each : ∀ part, Operation.Alike (fun result result' => result' = f result) (operation part)
      (operation (part.1, part.2.without d))) (parts : Parts) :
    Operation.Alike (fun results results' => results' = results.map f) (parts.mapM operation)
      ((parts.without d).mapM operation) :=
  .mapM each parts

theorem combine_leaves :
    Operation.Alike (Value.Leaves d) (combine arguments) (combine (arguments.without d)) := by
  have nulls : ((arguments.absorbed.without d).all fun part => part.2.isNull) =
      arguments.absorbed.all fun part => part.2.isNull := by
    simp [Parts.without, Function.comp_def]
  rw [combine, combine, arguments.absorbed_without]
  dsimp only
  rw [nulls, combinedNames_without, combinedKind_without]
  split
  · exact .pure rfl
  · split
    · exact .fault _
    · exact .pure rfl
    -- Atoms come through unchanged; what the items hold is left out below.
    · next kind _ =>
      have read (part : Option Symbol × Value) :
          Operation.Alike (fun elements elements' => elements' = id elements)
            (monadLift (part.2.atomsAs kind)) (monadLift ((part.2.without d).atomsAs kind)) :=
        .liftMetered (part.2.value_atomsAs_without kind)
      refine (mapM_without id read _).bind fun elements _ same => ?_
      rw [same, List.map_id]
      exact named_leaves (combinedNames arguments.absorbed) (.ofAtoms kind elements.flatten)
    · have read (part : Option Symbol × Value) :
          Operation.Alike (fun items items' => items' = items.map (Value.without d))
            (monadLift part.2.items) (monadLift (part.2.without d).items) :=
        .liftMetered part.2.value_items_without
      refine (mapM_without (List.map (Value.without d)) read _).bind fun items _ same => ?_
      refine (Operation.Alike.refl Operation.freshStorage).bind fun id _ fresh => ?_
      rw [same, ← fresh, ← List.map_flatten, ← without_ofItems]
      exact named_leaves (combinedNames arguments.absorbed) (.ofItems id items.flatten)

theorem makeList_leaves :
    Operation.Alike (Value.Leaves d) (makeList arguments) (makeList (arguments.without d)) := by
  refine (Operation.Alike.refl Operation.freshStorage).bind fun id _ fresh => .pure ?_
  rw [arguments.absorbed_without, ← fresh, Value.Leaves, Value.without_ofParts]

theorem length_leaves :
    Operation.Alike (Value.Leaves d) (length arguments) (length (arguments.without d)) := by
  refine (Operation.Alike.lift (arguments.required_leaves 0)).bind fun x _ left => .pure ?_
  rw [left, x.size_without]
  rfl

theorem isAbsent_ignores (s : Scalar) : (isAbsent s).Ignores (isAbsent (s.without d)) := by
  cases s with
  | atom a => exact .pure rfl
  | item v =>
    change Attempt.Ignores (isAbsent (.item v)) (isAbsent (.item (v.without d)))
    rw [isAbsent, isAbsent, v.isVector_without, v.kind_without, v.size_without]
    split
    · refine (Attempt.Alike.ofExcept (v.get_leaves 0)).bind fun reading reading' left => ?_
      refine Attempt.Alike.bind (Q := fun s s' : Scalar => s' = s.without d) (.ofMetered left)
        fun element _ same => ?_
      rw [same]
      cases element <;> exact .pure rfl
    · exact .pure rfl

theorem isMissing_leaves :
    Operation.Alike (Value.Leaves d) (isMissing arguments) (isMissing (arguments.without d)) := by
  refine (Operation.Alike.lift (arguments.required_leaves 0)).bind fun x _ left => ?_
  rw [left, x.isFunction_without, x.names_without]
  split
  · exact .pure rfl
  · refine Operation.Alike.bind (Q := fun elements elements' =>
      elements' = elements.map (Scalar.without d)) (.liftMetered x.value_elements_without)
      fun elements _ same => ?_
    rw [same]
    -- Whether an element is absent does not depend on what is left out of it.
    have reads : Operation.Alike (fun flags flags' => flags' = flags.map id)
        (elements.mapM fun s => monadLift (isAbsent s))
        ((elements.map (Scalar.without d)).mapM fun s => monadLift (isAbsent s)) := by
      refine .mapM (fun s => ?_) elements
      exact .lift ((isAbsent_ignores s).mono fun _ _ same => same.symm)
    refine reads.bind fun flags _ same' => ?_
    rw [same', List.map_id]
    exact named_leaves x.names (.ofAtoms .logical (flags.map Logical.ofBool))

theorem wholeStep_ignores (v : Value) : (wholeStep v).Ignores (wholeStep (v.without d)) := by
  rw [wholeStep, wholeStep, v.kind_without]
  split
  · refine (scalarDouble_ignores "by" v).bind fun step _ same => ?_
    subst same
    split
    · exact Attempt.Alike.bind (Q := Eq) (.fault _) fun _ _ _ => scalarInteger_ignores "by" v
    · exact scalarInteger_ignores "by" v
  · exact scalarInteger_ignores "by" v

theorem integerOrOne_ignores (arg : Symbol) (given : Option Value) :
    (integerOrOne arg given).Ignores (integerOrOne arg (given.map (Value.without d))) := by
  cases given with
  | none => exact .pure rfl
  | some v => exact scalarInteger_ignores arg v

theorem lengthOrZero_ignores (given : Option Value) :
    (lengthOrZero given).Ignores (lengthOrZero (given.map (Value.without d))) := by
  cases given with
  | none => exact .pure rfl
  | some v =>
    refine (scalarInteger_ignores "length" v).bind fun length _ same => ?_
    subst same
    exact .refl (fun _ => rfl) _

theorem sequence_plain (start stop step : Int32) : Likewise (Value.Leaves d)
    (Value.sequence start stop step) (Value.sequence start stop step) := by
  unfold Value.sequence
  cases Progression.of start stop step with
  | ok p => exact .ok rfl
  | error defect => exact .error defect

theorem sequence_leaves :
    Operation.Alike (Value.Leaves d) (sequence arguments) (sequence (arguments.without d)) := by
  rw [sequence, sequence]
  refine (Operation.Alike.lift (arguments.arg_leaves 0)).bind fun from' _ left => ?_
  subst left
  refine (Operation.Alike.lift (integerOrOne_ignores "from" from')).bind fun start _ same => ?_
  subst same
  refine (Operation.Alike.lift (arguments.arg_leaves 1)).bind fun to' _ left => ?_
  subst left
  refine (Operation.Alike.lift (integerOrOne_ignores "to" to')).bind fun stop _ same => ?_
  subst same
  refine (Operation.Alike.lift (arguments.arg_leaves 2)).bind fun by' _ left => ?_
  subst left
  -- With the step known, nothing else of the arguments is looked at.
  cases by'
  case' none => refine (Operation.Alike.refl (pure _)).bind ?_
  case' some v => refine (Operation.Alike.lift (wholeStep_ignores v)).bind ?_
  all_goals
    rintro step _ rfl
    dsimp only
    split
    · exact .fault _
    · split
      · exact .fault _
      · exact .lift (.ofExcept (sequence_plain start stop step))

theorem zeros_leaves :
    Operation.Alike (Value.Leaves d) (zeros arguments) (zeros (arguments.without d)) := by
  -- The mode may be the default or chosen; what comes after it is the same.
  have finish (mode : Nat) : Operation.Alike (Value.Leaves d)
      (do
        let length ← lengthOrZero (← arguments.arg 1)
        let kind ← kindOfMode mode
        let id ← Operation.freshStorage
        pure (Value.zeroed id kind length))
      (do
        let length ← lengthOrZero (← (arguments.without d).arg 1)
        let kind ← kindOfMode mode
        let id ← Operation.freshStorage
        pure (Value.zeroed id kind length)) := by
    refine (Operation.Alike.lift (arguments.arg_leaves 1)).bind fun given _ left => ?_
    subst left
    refine (Operation.Alike.lift (lengthOrZero_ignores given)).bind fun length _ same => ?_
    subst same
    refine (Operation.Alike.refl _).bind fun kind _ same => ?_
    subst same
    refine (Operation.Alike.refl _).bind fun id _ same => .pure ?_
    subst same
    exact (Value.without_zeroed id kind length).symm
  rw [zeros, zeros]
  refine (Operation.Alike.lift (arguments.arg_leaves 0)).bind fun given _ left => ?_
  subst left
  cases given with
  | none => exact (Operation.Alike.refl _).bind fun mode _ same => same ▸ finish mode
  | some v =>
    refine (Operation.Alike.lift (modeChoice.parse_ignores v)).bind fun mode _ same => ?_
    exact same ▸ finish mode

end Builtin

/-- The standard builtins look neither at counters nor at editions. -/
theorem Registry.standard_disregards (d : Disregard) : Registry.standard.Disregards d := by
  intro builtin member arguments
  simp only [standard, variadic, unary, List.mem_cons, List.not_mem_nil, or_false] at member
  rcases member with rfl | rfl | rfl | rfl | rfl | rfl
  · exact Builtin.combine_leaves arguments
  · exact Builtin.makeList_leaves arguments
  · exact Builtin.length_leaves arguments
  · exact Builtin.isMissing_leaves arguments
  · exact Builtin.sequence_leaves arguments
  · exact Builtin.zeros_leaves arguments

end Vectorial
