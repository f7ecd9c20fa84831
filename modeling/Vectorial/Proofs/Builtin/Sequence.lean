import Vectorial.Proofs.Operator.Colon

/-!
# Which progressions are asked for

Both bounds are single numbers, of which the fraction is cut off, or one if they are absent. The
step is one towards the second bound, or a single number that is whole; of a complex step only the
real part counts, and its fraction is cut off. If the step leads from the first bound to the
second, the answer is the view of all the integers in between that it reaches, and in every other
case an evaluation error.

## Main definitions

* `Attempt.Decides`: an attempt delivers what has a property, and is refused if nothing has;
* `Value.TruncatesTo`: a single number without its fraction;
* `Value.IsStep`: a single number as a step;
* `Arguments.Progresses`: a call asks for the progression with these bounds and this step.

## Main results

* `scalarInteger_decides`, `Builtin.wholeStep_decides`: how the actuals are read;
* `Builtin.sequence_accepts`: which calls are answered, and with which integers.
-/

namespace Vectorial

variable {α β : Type}

/-! ### Delivering what has a property -/

namespace Attempt

/-- The attempt delivers the value that has the property. If there is none, the attempt ends in an
evaluation error. -/
structure Decides (attempt : Attempt α) (P : α → Prop) : Prop where
  ok_iff : ∀ a, attempt.outcome = .ok a ↔ P a
  refuses : (∀ a, ¬ P a) → ∃ cause, attempt.outcome = .error (.error { cause })

namespace Decides

variable {attempt : Attempt α} {next : α → Attempt β} {P : α → Prop} {Q : β → Prop} {a : α}

/-- At most one value has a property that decides. -/
theorem unique (decides : attempt.Decides P) {b : α} (has : P a) (has' : P b) : b = a := by
  have same := (decides.ok_iff a).mpr has
  rw [(decides.ok_iff b).mpr has'] at same
  exact Except.ok.inj same

theorem congr {P' : α → Prop} (decides : attempt.Decides P) (same : ∀ a, P a ↔ P' a) :
    attempt.Decides P' where
  ok_iff a := (decides.ok_iff a).trans (same a)
  refuses none := decides.refuses fun a has => none a ((same a).mp has)

theorem pure (only : ∀ b, P b ↔ b = a) : Decides (Pure.pure a) P where
  ok_iff b := by
    rw [only, outcome_pure, Except.ok.injEq]
    exact eq_comm
  refuses none := absurd ((only a).mpr rfl) (none a)

theorem refuse (cause : Cause) (none : ∀ a, ¬ P a) : Decides (Attempt.refuse cause) P where
  ok_iff a := ⟨nofun, fun has => absurd has (none a)⟩
  refuses _ := ⟨cause, rfl⟩

/-- What follows decides further, if nothing that comes out has the property without the first
part delivering. -/
theorem bind (first : attempt.Decides P) (second : ∀ a, P a → (next a).Decides Q)
    (needed : ∀ b, Q b → ∃ a, P a) : (attempt >>= next).Decides Q := by
  -- Either there is something to go on with, or the refusal of the first part is that of all.
  by_cases delivers : ∃ a, P a
  · obtain ⟨a, has⟩ := delivers
    have same := outcome_bind_of_ok next ((first.ok_iff a).mpr has)
    exact ⟨fun b => same ▸ (second a has).ok_iff b, fun none => same ▸ (second a has).refuses none⟩
  · obtain ⟨cause, refused⟩ := first.refuses (not_exists.mp delivers)
    have stopped : (attempt >>= next).outcome = .error (.error { cause }) := by
      obtain ⟨value, ticks⟩ := attempt
      cases value with
      | ok a => cases refused
      | error fault =>
        cases fault with
        | error found =>
          cases refused
          rfl
        | defect violated => cases refused
    refine ⟨fun b => ?_, fun _ => ⟨cause, stopped⟩⟩
    rw [stopped]
    exact ⟨nofun, fun has => absurd (needed b has) delivers⟩

/-- A reading delivers what is read. -/
theorem lift (reading : Metered α) : Decides (monadLift reading) (reading.value = ·) where
  ok_iff a := by
    have read : Attempt.outcome (monadLift reading) = .ok reading.value := rfl
    rw [read, Except.ok.injEq]
  refuses none := absurd rfl (none reading.value)

theorem lift_bind {reading : Metered α} (second : (next reading.value).Decides Q) :
    Decides (monadLift reading >>= next) Q :=
  ⟨second.ok_iff, second.refuses⟩

end Decides

end Attempt

/-- The operation delivers the value that has the property, without making a list, and ends in an
evaluation error if there is none. -/
def Operation.Decides (operation : Operation α) (P : α → Prop) : Prop :=
  ∀ next, Attempt.Decides (operation next) fun result => P result.1 ∧ result.2 = next

namespace Operation.Decides

variable {operation : Operation α} {next : α → Operation β} {P : α → Prop} {Q : β → Prop}

theorem congr {P' : α → Prop} (decides : operation.Decides P) (same : ∀ a, P a ↔ P' a) :
    operation.Decides P' :=
  fun free => (decides free).congr fun result => and_congr_left' (same result.1)

theorem lift {attempt : Attempt α} (decides : attempt.Decides P) :
    Decides (monadLift attempt) P := by
  refine fun free => Attempt.Decides.bind decides (fun a has => .pure fun result => ?_)
    fun result has => ⟨result.1, has.1⟩
  constructor
  · rintro ⟨also, kept⟩
    exact Prod.ext (decides.unique has also) kept
  · rintro rfl
    exact ⟨has, rfl⟩

theorem pure {a : α} (only : ∀ b, P b ↔ b = a) : Decides (Pure.pure a) P := by
  refine fun free => Attempt.Decides.pure fun result => ?_
  rw [only, Prod.ext_iff]

theorem bind (first : Decides operation P) (second : ∀ a, P a → Decides (next a) Q)
    (needed : ∀ b, Q b → ∃ a, P a) : Decides (operation >>= next) Q := by
  refine fun free => Attempt.Decides.bind (first free) (fun result has => ?_) fun result has => ?_
  · obtain ⟨holds, kept⟩ := has
    exact kept ▸ second result.1 holds result.2
  · obtain ⟨a, holds⟩ := needed result.1 has.1
    exact ⟨(a, free), holds, rfl⟩

end Operation.Decides

/-! ### Single numbers -/

namespace Value

variable {v : Value} {i : Int32}

/-- The value is a single number that is not missing. -/
structure IsNumber (v : Value) : Prop where
  single : v.size = 1
  numeric : v.kind.isNumeric
  present : (v.element 0).value.isMissing = false

/-- The value is a single number, and the integer is what is left of it when its fraction is cut
off. -/
structure TruncatesTo (v : Value) (i : Int32) : Prop extends v.IsNumber where
  reads : v.elementAs .integer 0 = i
  inRange : i ≠ missingInteger

end Value

section Number

variable (arg : Symbol) (v : Value)

theorem checkScalar_decides : (checkScalar arg v).Decides fun _ => v.IsNumber := by
  rw [checkScalar]
  split
  · next unfit =>
    refine .refuse _ fun _ number => ?_
    simp [number.single, number.numeric] at unfit
  · next fit =>
    have fit : v.size = 1 ∧ v.kind.isNumeric := by simpa [not_or] using fit
    rw [Value.get_eq (size_pos_of_single fit.1)]
    refine .lift_bind ?_
    split
    · next absent =>
      refine .refuse _ fun _ number => ?_
      rw [number.present] at absent
      cases absent
    · next present =>
      exact .pure fun _ => ⟨fun _ => rfl, fun _ => ⟨fit.1, fit.2, Bool.eq_false_iff.mpr present⟩⟩

/-- What a single number is read as. -/
theorem atomWithin_decides {v : Value} (single : v.size = 1) (kind : ElementKind) :
    (v.atomWithin 0 kind).Decides (v.elementAs kind 0 = ·) := by
  have inside : 0 < v.size := size_pos_of_single single
  rw [Value.atomWithin, if_pos inside, ← Value.value_atomAt inside]
  exact .lift _

theorem scalarInteger_decides : (scalarInteger arg v).Decides v.TruncatesTo := by
  refine (checkScalar_decides arg v).bind (fun _ number => ?_) fun i has => ⟨(), has.toIsNumber⟩
  refine (atomWithin_decides number.single .integer).bind (fun i reads => ?_)
    fun i has => ⟨i, has.reads⟩
  dsimp only
  split
  · next absent =>
    refine (Attempt.Decides.refuse .missingValue fun _ => id).bind (fun _ never => never.elim)
      fun j has => absurd ?_ has.inRange
    rw [← has.reads, reads, absent]
  · next present =>
    refine .pure fun j => ⟨fun has => has.reads.symm.trans reads, ?_⟩
    rintro rfl
    exact ⟨number, reads, present⟩

theorem scalarDouble_decides :
    (scalarDouble arg v).Decides fun x => v.IsNumber ∧ v.elementAs .double 0 = x :=
  (checkScalar_decides arg v).bind
    (fun _ number => (atomWithin_decides number.single .double).congr fun _ =>
      ⟨fun reads => ⟨number, reads⟩, And.right⟩)
    fun _ has => ⟨(), has.1⟩

end Number

/-! ### Steps -/

namespace Binary64

variable {x : Binary64} {i : Int32}

/-- A double is a whole number exactly if it has no fractional part. -/
theorem isInteger_iff {n : Int} : x.IsInteger n ↔ x.isFinite ∧ x.isWhole ∧ x.truncated = n := by
  refine ⟨fun whole => ⟨whole.finite, whole.isWhole, whole.truncated_eq⟩, ?_⟩
  rintro ⟨finite, whole, rfl⟩
  have divides : (unit : Int) ∣ x.grains := by
    rw [isWhole, beq_iff_eq] at whole
    rw [← Int.natAbs_dvd_natAbs, natAbs_grains, Int.natAbs_natCast]
    exact Nat.dvd_of_mod_eq_zero whole
  refine ⟨finite, ?_⟩
  rw [truncated, Int.tdiv_mul_cancel divides]

/-- The integer part of a double, if it is an integer that is not missing. -/
theorem toInteger_eq_iff (present : i ≠ missingInteger) :
    x.toInteger = i ↔ x.isNaN = false ∧ x.truncated = i.toInt := by
  have least := i.le_toInt
  have most := i.toInt_lt
  have above : i.toInt ≠ -2147483648 := fun same => present (Int32.toInt_inj.mp same)
  rw [toInteger, toInteger?]
  split
  · next other => simp [other, Ne.symm present]
  · next number =>
    dsimp only
    split
    · next outside =>
      -- Out of range the integer is the missing one, which `i` is not.
      refine ⟨fun same => absurd same.symm present, fun same => ?_⟩
      omega
    · next inside =>
      have range : (Int32.ofInt x.truncated).toInt = x.truncated :=
        Int32.toInt_ofInt_of_le (by omega) (by omega)
      rw [Option.getD_some, ← Int32.toInt_inj, range]
      simp [number]

end Binary64

namespace Atom

variable {a : Atom} {s : Int32}

/-- The element as a step: a truth value, a byte, an integer or a double must be whole, and of a
complex number the real part without its fraction counts. -/
def IsStep (s : Int32) : Atom → Prop
  | ⟨.complex, c⟩ => c.isMissing = false ∧ c.re.isNaN = false ∧ c.re.truncated = s.toInt
  | a => a.IsWholeNumber s.toInt

theorem IsStep.isNumeric (step : a.IsStep s) : a.kind.isNumeric := by
  obtain ⟨kind, x⟩ := a
  cases kind with
  | character => exact step.elim
  | _ => rfl

/-- A step that is not complex is a whole number. -/
theorem IsStep.isWholeNumber (step : a.IsStep s) (real : a.kind ≠ .complex) :
    a.IsWholeNumber s.toInt := by
  obtain ⟨kind, x⟩ := a
  cases kind with
  | complex => exact absurd rfl real
  | _ => exact step

theorem IsStep.isMissing (step : a.IsStep s) : a.isMissing = false := by
  obtain ⟨kind, x⟩ := a
  cases kind with
  | logical => rcases step with ⟨rfl, -⟩ | ⟨rfl, -⟩ <;> rfl
  | raw => rfl
  | integer => exact beq_eq_false_iff_ne.mpr step.1
  | double =>
    have whole : Binary64.IsInteger x s.toInt := step
    refine Bool.eq_false_iff.mpr fun absent => ?_
    have number := Binary64.isNaN_of_isMissing absent
    rw [(Binary64.ordinary_of_isFinite whole.finite).1] at number
    cases number
  | complex => exact step.1
  | character => exact step.elim

/-- A truth value, a byte or an integer that is not missing is a whole number. -/
theorem isWholeNumber_iff (narrow : a.kind.join .integer = .integer) (present : a.isMissing = false)
    {n : Int} : a.IsWholeNumber n ↔ a.toInteger.toInt = n := by
  obtain ⟨kind, x⟩ := a
  cases kind with
  | logical =>
    cases x with
    | no => simp [IsWholeNumber, toInteger, eq_comm]
    | yes => simp [IsWholeNumber, toInteger, eq_comm]
    | missing => cases present
  | raw => exact eq_comm.trans (Eq.congr_left (toInt_ofByte x).symm)
  | integer =>
    have here : x ≠ missingInteger := beq_eq_false_iff_ne.mp present
    exact (and_iff_right here).trans eq_comm
  | double => cases narrow
  | complex => cases narrow
  | character => cases narrow

/-- A number that is not missing is the step that is left of it without its fraction, unless it is
a double that has one. -/
theorem isStep_iff (numeric : a.kind.isNumeric) (present : a.isMissing = false)
    (inRange : s ≠ missingInteger) (whole : ∀ d, a = ⟨.double, d⟩ → d.isFinite ∧ d.isWhole) :
    a.IsStep s ↔ a.toInteger = s := by
  obtain ⟨kind, x⟩ := a
  -- Only doubles and complex numbers have a fraction; all other numbers are whole as they are.
  cases kind with
  | double =>
    obtain ⟨finite, whole⟩ := whole x rfl
    have number : Binary64.isNaN x = false := (Binary64.ordinary_of_isFinite finite).1
    refine Binary64.isInteger_iff.trans (Iff.trans ?_ (Binary64.toInteger_eq_iff inRange).symm)
    rw [and_iff_right finite, and_iff_right whole, and_iff_right number]
  | complex =>
    have here : Complex.isMissing x = false := present
    rw [toInteger, if_neg (by simp [here]), Binary64.toInteger_eq_iff inRange]
    exact and_iff_right here
  | character => cases numeric
  | logical => exact (isWholeNumber_iff rfl present).trans Int32.toInt_inj
  | raw => exact (isWholeNumber_iff rfl present).trans Int32.toInt_inj
  | integer => exact (isWholeNumber_iff rfl present).trans Int32.toInt_inj

end Atom

namespace Value

variable {v : Value} {s : Int32}

/-- The value is a single number that is not missing, and this is its step. -/
def IsStep (v : Value) (s : Int32) : Prop :=
  v.size = 1 ∧ s ≠ missingInteger ∧
    ∃ a : Atom, v.kind = .atomic a.kind ∧ (v.get 0).map Metered.value = .ok (.atom a) ∧ a.IsStep s

/-- A single number that is not missing is an atom of its kind. -/
theorem IsNumber.exists_atom (number : v.IsNumber) : ∃ a : Atom, v.kind = .atomic a.kind ∧
    (v.element 0).value = .atom a ∧ a.kind.isNumeric ∧ a.isMissing = false := by
  have numeric := number.numeric
  cases same : v.kind with
  | atomic kind =>
    have vector : v.isVector := by cases v <;> first | rfl | cases same
    have ordinary : v.IsOrdinary := fun _ => same ▸ Kind.hasVectors_atomic kind
    have element := kind_element ordinary vector (size_pos_of_single number.single)
    cases here : (v.element 0).value with
    | item w => rw [here, same] at element; cases element
    | atom a =>
      rw [here, same] at element
      have present := number.present
      rw [here] at present
      rw [same, ← element] at numeric
      exact ⟨a, element.symm, rfl, numeric, present⟩
  | null => rw [same] at numeric; cases numeric
  | list => rw [same] at numeric; cases numeric
  | closure => rw [same] at numeric; cases numeric

theorem IsNumber.element_double (number : v.IsNumber) (double : v.kind = .atomic .double) :
    (v.element 0).value = .atom ⟨.double, v.elementAs .double 0⟩ := by
  obtain ⟨⟨kind, x⟩, same, here, -⟩ := number.exists_atom
  obtain rfl : .double = kind := Kind.atomic.inj (double.symm.trans same)
  rw [elementAs, here]
  rfl

theorem IsStep.isNumber (step : v.IsStep s) : v.IsNumber := by
  obtain ⟨single, -, a, kind, shown, step⟩ := step
  rw [get_eq (size_pos_of_single single)] at shown
  have here : (v.element 0).value = .atom a := Except.ok.inj shown
  exact ⟨single, kind ▸ step.isNumeric, here ▸ step.isMissing⟩

/-- A single number is its step without its fraction, unless it is a double that has one. -/
theorem truncatesTo_iff (whole : v.kind = .atomic .double →
      (v.elementAs .double 0).isFinite ∧ (v.elementAs .double 0).isWhole) :
    v.TruncatesTo s ↔ v.IsStep s := by
  have reads {a : Atom} (kind : v.kind = .atomic a.kind) (here : (v.element 0).value = .atom a)
      (numeric : a.kind.isNumeric) (present : a.isMissing = false) (inRange : s ≠ missingInteger) :
      a.IsStep s ↔ v.elementAs .integer 0 = s := by
    have step := Atom.isStep_iff numeric present inRange fun d same => by
      subst same
      have double := whole kind
      rwa [elementAs, here] at double
    rw [step, elementAs, here]
    rfl
  constructor
  · intro truncates
    obtain ⟨a, kind, here, numeric, present⟩ := truncates.toIsNumber.exists_atom
    refine ⟨truncates.single, truncates.inRange, a, kind, ?_,
      (reads kind here numeric present truncates.inRange).mpr truncates.reads⟩
    rw [get_eq (size_pos_of_single truncates.single)]
    exact congrArg Except.ok here
  · intro step
    have number := step.isNumber
    obtain ⟨single, inRange, a, kind, shown, step⟩ := step
    rw [get_eq (size_pos_of_single single)] at shown
    have here : (v.element 0).value = .atom a := Except.ok.inj shown
    exact ⟨number, (reads kind here step.isNumeric step.isMissing inRange).mp step, inRange⟩

/-- A double that is a step is finite and has no fraction. -/
theorem IsStep.whole (step : v.IsStep s) (double : v.kind = .atomic .double) :
    (v.elementAs .double 0).isFinite ∧ (v.elementAs .double 0).isWhole := by
  have element := step.isNumber.element_double double
  obtain ⟨single, -, a, kind, shown, step⟩ := step
  rw [get_eq (size_pos_of_single single)] at shown
  have here : Scalar.atom ⟨.double, v.elementAs .double 0⟩ = .atom a :=
    element.symm.trans (Except.ok.inj shown)
  cases here
  have whole : (v.elementAs .double 0).IsInteger s.toInt := step
  exact ⟨whole.finite, whole.isWhole⟩

end Value

namespace Builtin

variable {v : Value} {s : Int32}

theorem wholeStep_decides (v : Value) : (wholeStep v).Decides v.IsStep := by
  -- The step is cut to an integer last, which loses nothing where there is no fraction.
  have cut (whole : v.kind = .atomic .double →
      (v.elementAs .double 0).isFinite ∧ (v.elementAs .double 0).isWhole) :
      (scalarInteger "by" v).Decides v.IsStep :=
    (scalarInteger_decides "by" v).congr fun _ => Value.truncatesTo_iff whole
  rw [wholeStep]
  split
  · next double =>
    refine (scalarDouble_decides "by" v).bind (fun x has => ?_)
      fun s step => ⟨_, step.isNumber, rfl⟩
    obtain ⟨number, rfl⟩ := has
    split
    · next fraction =>
      refine (Attempt.Decides.refuse _ fun _ => id).bind (fun _ never => never.elim)
        fun s step => ?_
      obtain ⟨finite, whole⟩ := step.whole double
      simp [finite, whole] at fraction
    · next none_left =>
      refine cut fun _ => ?_
      simpa using none_left
  · next other => exact cut fun double => absurd double other

/-! ### Calls -/

/-- The integer that an optional bound gives: one if it is absent. -/
def GivesBound (i : Int32) : Option Value → Prop
  | some v => v.TruncatesTo i
  | none => i = 1

/-- The step that an optional actual gives: one towards the second bound if it is absent. -/
def GivesStep (start stop step : Int32) : Option Value → Prop
  | some v => v.IsStep step
  | none => step = if start.toInt ≤ stop.toInt then 1 else -1

/-- The bound is not missing. -/
theorem GivesBound.lt_toInt {i : Int32} {given : Option Value} (gives : GivesBound i given) :
    -2147483648 < i.toInt := by
  have present : i ≠ missingInteger := by
    cases given with
    | some v => exact gives.inRange
    | none =>
      obtain rfl : i = 1 := gives
      decide
  have least := i.le_toInt
  have other : i.toInt ≠ -2147483648 := fun same => present (Int32.toInt_inj.mp same)
  omega

theorem integerOrOne_decides (arg : Symbol) (given : Option Value) :
    (integerOrOne arg given).Decides (GivesBound · given) := by
  cases given with
  | some v => exact scalarInteger_decides arg v
  | none => exact .pure fun _ => Iff.rfl

end Builtin

namespace Arguments

variable (arguments : Arguments)

/-- The actual that the parameter at a position received, if it received one. -/
def given (index : Nat) : Option Value :=
  (arguments.binding.actualFor index).bind fun actual => (arguments.actuals[actual]?).map Prod.snd

theorem arg_decides {index : Nat} (inside : index < arguments.formals.length) :
    (arguments.arg index).Decides (arguments.given index = ·) := by
  rw [arg, if_pos inside]
  exact .pure fun _ => eq_comm

/-- The call asks for the progression with these bounds and this step, which leads from one to the
other. -/
structure Progresses (start stop step : Int32) : Prop where
  begins : Builtin.GivesBound start (arguments.given 0)
  ends : Builtin.GivesBound stop (arguments.given 1)
  steps : Builtin.GivesStep start stop step (arguments.given 2)
  leads : Progression.Leads start.toInt stop.toInt step.toInt

/-- The value is the view of the progression that the call asks for. -/
def AskedView (v : Value) : Prop :=
  ∃ start stop step, arguments.Progresses start stop step ∧ Value.sequence start stop step = .ok v

end Arguments

namespace Builtin

variable {arguments : Arguments}

/-- The checks of a step are that it leads from one bound to the other. -/
theorem leads_iff_checks {start stop step : Int32} :
    Progression.Leads start.toInt stop.toInt step.toInt ↔ step ≠ 0 ∧
      ¬ (start ≠ stop ∧ decide (start.toInt < stop.toInt) ≠ decide (0 < step.toInt)) := by
  have zero : step.toInt = 0 ↔ step = 0 := by rw [← Int32.toInt_inj]; rfl
  rw [Progression.Leads, Int32.toInt_inj, ne_eq, zero, not_and_or, not_not, not_not,
    decide_eq_decide, Iff.comm (a := 0 < step.toInt)]

/-- A step that leads is answered with a view. -/
theorem sequence_eq_ok {start stop step : Int32}
    (leads : Progression.Leads start.toInt stop.toInt step.toInt) :
    Value.sequence start stop step = .ok (.vector
      (.view (.sequence ⟨start, stop, step, Progression.leads_iff.mp leads⟩)) none) :=
  congrArg (Except.map _) ((Progression.of_eq start stop step).trans (dif_pos leads))

theorem checkedSequence_decides (start stop step : Int32) : Operation.Decides
    (if step = 0 then monadLift (Attempt.refuse (.typeMismatch "a non-zero step" "0"))
      else if start ≠ stop ∧ decide (start.toInt < stop.toInt) ≠ decide (0 < step.toInt) then
        monadLift (Attempt.refuse
          (.typeMismatch s!"a step towards {stop.toInt}" (toString step.toInt)))
      else monadLift (Attempt.ofDefect (Value.sequence start stop step)))
    fun v => Progression.Leads start.toInt stop.toInt step.toInt ∧
      Value.sequence start stop step = .ok v := by
  split
  · next still =>
    exact .lift (.refuse _ fun v has => (leads_iff_checks.mp has.1).1 still)
  · next moves =>
    split
    · next away => exact .lift (.refuse _ fun v has => (leads_iff_checks.mp has.1).2 away)
    · next towards =>
      have leads := leads_iff_checks.mpr ⟨moves, towards⟩
      rw [sequence_eq_ok leads]
      exact .lift (.pure fun v => ⟨fun has => (Except.ok.inj has.2).symm, fun same =>
        ⟨leads, congrArg Except.ok same.symm⟩⟩)

theorem givesStep_unique {start stop step step' : Int32} {given : Option Value}
    (steps : GivesStep start stop step given) (steps' : GivesStep start stop step' given) :
    step' = step := by
  cases given with
  | some v => exact (wholeStep_decides v).unique steps steps'
  | none => exact steps'.trans steps.symm

/-- The call is answered with the view of the progression that it asks for. -/
theorem sequence_decides (params : 2 < arguments.formals.length) :
    (sequence arguments).Decides arguments.AskedView := by
  have at_position {index : Nat} (inside : index < 3) :=
    Operation.Decides.lift (arguments.arg_decides (Nat.lt_of_lt_of_le inside params))
  have at_bound (arg : Symbol) (given : Option Value) :=
    Operation.Decides.lift (integerOrOne_decides arg given)
  rw [sequence]
  have bounds (v : Value) (asks : arguments.AskedView v) :
      (∃ start, GivesBound start (arguments.given 0)) ∧
        ∃ stop, GivesBound stop (arguments.given 1) := by
    obtain ⟨start, stop, step, asked, -⟩ := asks
    exact ⟨⟨start, asked.begins⟩, stop, asked.ends⟩
  refine (at_position (by decide)).bind (fun first has => ?_) fun _ _ => ⟨_, rfl⟩
  subst has
  refine (at_bound "from" _).bind (fun start begins => ?_) fun v asks => (bounds v asks).1
  refine (at_position (by decide)).bind (fun second has => ?_) fun _ _ => ⟨_, rfl⟩
  subst has
  refine (at_bound "to" _).bind (fun stop ends => ?_) fun v asks => (bounds v asks).2
  refine (at_position (by decide)).bind (fun third has => ?_) fun _ _ => ⟨_, rfl⟩
  -- Each actual gives one number at most, so that these are the numbers that are asked for.
  have finish (step : Int32) (steps : GivesStep start stop step third) :=
    (checkedSequence_decides start stop step).congr fun v => show _ ↔ arguments.AskedView v by
      constructor
      · rintro ⟨leads, made⟩
        exact ⟨start, stop, step, ⟨begins, ends, has ▸ steps, leads⟩, made⟩
      · rintro ⟨start', stop', step', asked, made⟩
        obtain rfl := (integerOrOne_decides "from" _).unique begins asked.begins
        obtain rfl := (integerOrOne_decides "to" _).unique ends asked.ends
        obtain rfl := givesStep_unique steps (has ▸ asked.steps)
        exact ⟨asked.leads, made⟩
  have needed : ∀ v, arguments.AskedView v → ∃ step, GivesStep start stop step third := by
    rintro v ⟨start', stop', step', asked, made⟩
    obtain rfl := (integerOrOne_decides "from" _).unique begins asked.begins
    obtain rfl := (integerOrOne_decides "to" _).unique ends asked.ends
    exact ⟨step', has ▸ asked.steps⟩
  cases third with
  | none => exact (Operation.Decides.pure fun _ => Iff.rfl).bind finish needed
  | some v => exact (Operation.Decides.lift (wholeStep_decides v)).bind finish needed

/-- For every binding of the three parameters, each of which may have received an actual or not: the
call is answered exactly if both bounds are single numbers in the range of integers, or absent,
and the step is absent or a step, and leads from one to the other. The answer is a view of the
integers from the first bound on in these steps, none of which passes the second bound or is
missing. Every other call ends in an evaluation error; in particular a step that is not a whole
number is refused unless it is complex. -/
theorem sequence_accepts (params : 2 < arguments.formals.length) (next : StorageId) :
    (∀ start stop step, arguments.Progresses start stop step →
      ∃ view terms, (sequence arguments next).outcome = .ok (.vector (.view view) none, next) ∧
        view.Shows terms ∧
        Progression.Enumerates start.toInt stop.toInt step.toInt terms ∧
        missingInteger ∉ terms) ∧
    ((¬ ∃ start stop step, arguments.Progresses start stop step) →
      ∃ cause, (sequence arguments next).outcome = .error (.error { cause })) ∧
    ∀ v, arguments.given 2 = some v → v.kind ≠ .atomic .complex → (¬ ∃ n, v.IsWholeNumber n) →
      ∃ cause, (sequence arguments next).outcome = .error (.error { cause }) := by
  have decides := sequence_decides params next
  have refused (none_asked : ¬ ∃ start stop step, arguments.Progresses start stop step) :
      ∃ cause, (sequence arguments next).outcome = .error (.error { cause }) := by
    refine decides.refuses ?_
    rintro result ⟨⟨start, stop, step, asked, -⟩, -⟩
    exact none_asked ⟨start, stop, step, asked⟩
  refine ⟨fun start stop step asked => ?_, refused, fun v given real fraction => refused ?_⟩
  · let p : Progression := ⟨start, stop, step, Progression.leads_iff.mp asked.leads⟩
    have enumerates : Progression.Enumerates start.toInt stop.toInt step.toInt p.running :=
      p.enumerates_running
    refine ⟨.sequence p, p.running, (decides.ok_iff _).mpr ⟨⟨start, stop, step, asked,
      sequence_eq_ok asked.leads⟩, rfl⟩, View.shows_sequence p, enumerates, fun absent => ?_⟩
    -- The missing integer is below all others, and each term is between two of them.
    have within := enumerates.within _ absent
    have first := asked.begins.lt_toInt
    have last := asked.ends.lt_toInt
    rw [toInt_missingInteger] at within
    omega
  · rintro ⟨start, stop, step, asked⟩
    have steps := asked.steps
    rw [given] at steps
    obtain ⟨single, -, a, kind, shown, whole⟩ := steps
    have real : a.kind ≠ .complex := fun same => real (kind.trans (congrArg Kind.atomic same))
    exact fraction ⟨step.toInt, single, a, shown, whole.isWholeNumber real⟩

/-- With a bound that is cut off, a byte as the step and no first bound; and with a double that
has a fraction as the step. -/
theorem sequence_accepts_byteStep :
    let formals : Formals :=
      ⟨"seq", [⟨"from", false⟩, ⟨"to", false⟩, ⟨"by", false⟩], by simp, by simp⟩
    let last := Value.ofAtom ⟨.double, ⟨0x4023800000000000⟩⟩
    let half := Value.ofAtom ⟨.double, ⟨0x3FE0000000000000⟩⟩
    let called (step : Value) : Arguments :=
      ⟨formals, ⟨[none, some 1, some 0], [], []⟩, [(none, step), (none, last)]⟩
    (∃ view terms, (sequence (called (.ofAtom ⟨.raw, 4⟩)) 7).outcome =
        .ok (.vector (.view view) none, 7) ∧ view.Shows terms ∧
      Progression.Enumerates 1 9 4 terms ∧ missingInteger ∉ terms) ∧
    ∃ cause, (sequence (called half) 7).outcome = .error (.error { cause }) := by
  intro formals last half called
  have params (step : Value) : 2 < (called step).formals.length := Nat.lt_add_one 2
  constructor
  · have asked : (called (.ofAtom ⟨.raw, 4⟩)).Progresses 1 9 4 :=
      { begins := rfl
        ends := ⟨⟨rfl, rfl, rfl⟩, by decide +kernel, by decide⟩
        steps := ⟨rfl, by decide, ⟨.raw, 4⟩, rfl, rfl, rfl⟩
        leads := by decide }
    exact (sequence_accepts (params _) 7).1 1 9 4 asked
  · refine (sequence_accepts (params half) 7).2.2 half rfl (by decide) ?_
    rintro ⟨n, -, a, shown, whole⟩
    have here : Scalar.atom ⟨.double, (⟨0x3FE0000000000000⟩ : Binary64)⟩ = .atom a :=
      Except.ok.inj shown
    cases here
    have none_left : Binary64.isWhole ⟨0x3FE0000000000000⟩ := Binary64.IsInteger.isWhole whole
    revert none_left
    decide +kernel

/-- A complex step of two and a half is cut off to two, though it is no whole number. -/
theorem sequence_cuts_complex_step :
    let formals : Formals :=
      ⟨"seq", [⟨"from", false⟩, ⟨"to", false⟩, ⟨"by", false⟩], by simp, by simp⟩
    let step : Complex := ⟨⟨0x4004000000000000⟩, .zero false⟩
    let arguments : Arguments := ⟨formals, ⟨[some 0, some 1, some 2], [], []⟩,
      [(none, .ofInteger 1), (none, .ofInteger 9), (none, .ofAtom ⟨.complex, step⟩)]⟩
    step.im.isZero ∧ step.re.isWhole = false ∧
    ∃ view terms, (sequence arguments 0).outcome = .ok (.vector (.view view) none, 0) ∧
      view.Shows terms ∧ terms = [1, 3, 5, 7, 9] := by
  intro formals step arguments
  have asked : arguments.Progresses 1 9 2 :=
    { begins := ⟨⟨rfl, rfl, rfl⟩, rfl, by decide⟩
      ends := ⟨⟨rfl, rfl, rfl⟩, rfl, by decide⟩
      steps := ⟨rfl, by decide, ⟨.complex, step⟩, rfl, rfl, by decide, by decide, by decide +kernel⟩
      leads := by decide }
  refine ⟨by decide, by decide +kernel, _, _, ?_, View.shows_sequence ⟨1, 9, 2, by decide⟩, ?_⟩
  · have params : 2 < arguments.formals.length := Nat.lt_add_one 2
    exact ((sequence_decides params 0).ok_iff _).mpr
      ⟨⟨1, 9, 2, asked, sequence_eq_ok asked.leads⟩, rfl⟩
  · decide

end Builtin

end Vectorial
