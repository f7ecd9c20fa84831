import Vectorial.Defect

/-!
# Arithmetic progressions

Whole numbers in equal steps from a start towards an end. The numbers are computed when
they are asked for, so a progression of any length takes no room.

## Main definitions

* `Progression`: a start, an end and a step that leads from one to the other;
* `Progression.size`, `Progression.term`: how many terms there are, and each of them;
* `Progression.termAt`: the term at an index of any size, which may be past the end;
* `Progression.running`: all terms, by repeated addition;
* `UpTo`: the progression from one in steps of one.

## Main statements

* `Progression.termAt_of_lt_size`, `UpTo.termAt_of_lt_size`: up to the end, looking a term
  up cannot fail.
-/

namespace Vectorial

/-- A number that a signed word of 64 bits can hold. -/
def IsWord (n : Int) : Prop :=
  -9223372036854775808 ≤ n ∧ n < 9223372036854775808

instance (n : Int) : Decidable (IsWord n) :=
  inferInstanceAs (Decidable (_ ∧ _))

/-- Start, end and step of a progression. The step is not zero and leads from the start
towards the end; when the two are equal any step does. -/
structure Progression where
  start : Int32
  stop : Int32
  step : Int32
  leads : (0 < step.toInt ∧ start.toInt ≤ stop.toInt) ∨
    (step.toInt < 0 ∧ stop.toInt ≤ start.toInt)
  deriving DecidableEq

namespace Progression

/-- The progression with these data, refused if the step is zero or leads away. -/
def of (start stop step : Int32) : Except Defect Progression :=
  if leads : (0 < step.toInt ∧ start.toInt ≤ stop.toInt) ∨
      (step.toInt < 0 ∧ stop.toInt ≤ start.toInt) then
    .ok { start, stop, step, leads }
  else if step.toInt = 0 then .error .zeroStep
  else .error (.stepAway start.toInt stop.toInt step.toInt)

variable (p : Progression)

/-- The number of terms that do not pass the end. -/
def size : Nat :=
  (p.stop.toInt - p.start.toInt).natAbs / p.step.toInt.natAbs + 1

/-- The term at an index, as a product. -/
def term (index : Nat) : Int32 :=
  Int32.ofInt (p.start.toInt + index * p.step.toInt)

/-- The term at an index of any size. The index is taken as a signed word of 64 bits, and
neither the product nor the sum may leave those words. -/
def termAt (index : Nat) : Except Defect Int32 :=
  let offset := (Int64.ofNat index).toInt * p.step.toInt
  if IsWord offset ∧ IsWord (p.start.toInt + offset) then .ok (p.term index)
  else .error (.termOverflow index)

variable {index : Nat}

/-- The distance of a term from the start is at most that of the end. -/
theorem natAbs_offset_le (h : index < p.size) :
    (index * p.step.toInt).natAbs ≤ (p.stop.toInt - p.start.toInt).natAbs := by
  rw [Int.natAbs_mul, Int.natAbs_natCast]
  exact Nat.le_trans (Nat.mul_le_mul_right _ (Nat.le_of_lt_succ h)) (Nat.div_mul_le_self _ _)

theorem natAbs_step_pos : 0 < p.step.toInt.natAbs := by
  have := p.leads
  omega

/-- Up to the end every step of the computation stays within the words. -/
theorem termAt_of_lt_size (h : index < p.size) : p.termAt index = .ok (p.term index) := by
  have offset := p.natAbs_offset_le h
  have index_le : index ≤ (index * p.step.toInt).natAbs := by
    rw [Int.natAbs_mul, Int.natAbs_natCast]
    exact Nat.le_mul_of_pos_right _ p.natAbs_step_pos
  have start_le := p.start.le_toInt
  have start_lt := p.start.toInt_lt
  have stop_le := p.stop.le_toInt
  have stop_lt := p.stop.toInt_lt
  have index_eq : (Int64.ofNat index).toInt = index := Int64.toInt_ofNat_of_lt (by omega)
  have words : IsWord (index * p.step.toInt) ∧
      IsWord (p.start.toInt + index * p.step.toInt) := by
    unfold IsWord
    omega
  simp only [termAt, index_eq, if_pos words]

/-- The given number of terms from `current` on, by repeated addition. -/
def runningFrom (step : Int) : Nat → Int → List Int32
  | 0, _ => []
  | more + 1, current => Int32.ofInt current :: runningFrom step more (current + step)

/-- All terms, by repeated addition. -/
def running : List Int32 :=
  runningFrom p.step.toInt p.size p.start.toInt

end Progression

/-- The progression from one to `stop` in steps of one. -/
structure UpTo where
  stop : Int32
  positive : 1 ≤ stop.toInt
  deriving DecidableEq

namespace UpTo

/-- The progression to `stop`, refused if that is below one. -/
def of (stop : Int32) : Except Defect UpTo :=
  if positive : 1 ≤ stop.toInt then .ok { stop, positive } else .error (.rangeEnd stop.toInt)

/-- The number of terms. -/
def size (r : UpTo) : Nat :=
  r.stop.toInt.toNat

/-- The term at an index. -/
def term (index : Nat) : Int32 :=
  Int32.ofInt (index + 1)

/-- The term at an index of any size, which is one more than the index. The index is taken
as a signed word of 32 bits, and the last of those has no successor. -/
def termAt (index : Nat) : Except Defect Int32 :=
  if Int32.ofNat index = Int32.maxValue then .error (.termOverflow index)
  else .ok (term index)

/-- Up to the end every index has a successor. -/
theorem termAt_of_lt_size (r : UpTo) {index : Nat} (h : index < r.size) :
    termAt index = .ok (term index) := by
  have stop_lt := r.stop.toInt_lt
  unfold size at h
  have index_eq : (Int32.ofNat index).toInt = index := Int32.toInt_ofNat_of_lt (by omega)
  have below : Int32.ofNat index ≠ Int32.maxValue := by
    intro last
    have := congrArg Int32.toInt last
    rw [index_eq, Int32.toInt_maxValue] at this
    omega
  simp only [termAt, if_neg below]

/-- All terms. -/
def terms (r : UpTo) : List Int32 :=
  (List.range r.size).map term

end UpTo

end Vectorial
