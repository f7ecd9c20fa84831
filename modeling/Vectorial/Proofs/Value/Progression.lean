import Mathlib.Data.List.Basic
import Vectorial.Proofs.Value.Production

/-!
# Progressions are exact

A progression whose start, end and step are integers of 32 bits may span more than these
integers do, and so may an index multiplied by the step. Its terms lie between the start and the
end all the same, and the sums and products that lead to them fit in words of 64 bits, so that
narrowing a term loses nothing.

## Main definitions

* `Progression.Leads`: a step other than zero points from the start to the end;
* `Progression.Enumerates`: the whole numbers of a progression, in order and as integers;
* `View.Shows`: a view has these elements, one by one and all at once.

## Main results

* `Progression.of_eq`: there is a progression exactly if the step leads;
* `Progression.enumerates_running`: its terms;
* `View.progression_exact`: the views of progressions.
-/

namespace Vectorial

namespace Progression

/-! ### Which progressions there are -/

/-- Whether the step is not zero and points from the start to the end. Where they are the same,
any step does. -/
def Leads (start stop step : Int) : Prop :=
  step ≠ 0 ∧ (start = stop ∨ (0 < step ↔ start < stop))

instance (start stop step : Int) : Decidable (Leads start stop step) :=
  inferInstanceAs (Decidable (_ ∧ _))

theorem leads_iff {start stop step : Int} : Leads start stop step ↔
    (0 < step ∧ start ≤ stop) ∨ (step < 0 ∧ stop ≤ start) := by
  unfold Leads
  omega

/-- There is a progression exactly if the step leads. -/
theorem of_eq (start stop step : Int32) : Progression.of start stop step =
    if leads : Leads start.toInt stop.toInt step.toInt then
      .ok { start, stop, step, leads := leads_iff.mp leads }
    else if step.toInt = 0 then .error .zeroStep
    else .error (.stepAway start.toInt stop.toInt step.toInt) := by
  by_cases leads : Leads start.toInt stop.toInt step.toInt
  · rw [dif_pos leads, Progression.of, dif_pos (leads_iff.mp leads)]
  · rw [dif_neg leads, Progression.of, dif_neg (mt leads_iff.mpr leads)]

/-! ### Its terms -/

variable (p : Progression) {index : Nat}

/-- The first number that is no term is further from the start than the end. -/
theorem lt_natAbs_offset :
    (p.stop.toInt - p.start.toInt).natAbs < (p.size * p.step.toInt).natAbs := by
  rw [Int.natAbs_mul, Int.natAbs_natCast]
  exact (Nat.div_lt_iff_lt_mul p.natAbs_step_pos).mp (Nat.lt_succ_self _)

/-- It is further by at most one step. -/
theorem natAbs_offset_le_add (reached : index ≤ p.size) : (index * p.step.toInt).natAbs ≤
    (p.stop.toInt - p.start.toInt).natAbs + p.step.toInt.natAbs := by
  rw [Int.natAbs_mul, Int.natAbs_natCast]
  calc
    index * p.step.toInt.natAbs ≤ p.size * p.step.toInt.natAbs := Nat.mul_le_mul_right _ reached
    _ = _ / p.step.toInt.natAbs * p.step.toInt.natAbs + p.step.toInt.natAbs := Nat.succ_mul _ _
    _ ≤ _ := Nat.add_le_add_right (Nat.div_mul_le_self _ _) _

/-- Every term has the direction of the step, seen from the start. -/
theorem offset_sign (index : Nat) :
    (0 < p.step.toInt → 0 ≤ index * p.step.toInt) ∧
      (p.step.toInt < 0 → index * p.step.toInt ≤ 0) :=
  ⟨fun up => Int.mul_nonneg (Int.natCast_nonneg index) (Int.le_of_lt up),
    fun down => Int.mul_nonpos_of_nonneg_of_nonpos (Int.natCast_nonneg index) (Int.le_of_lt down)⟩

theorem within (inside : index < p.size) :
    min p.start.toInt p.stop.toInt ≤ p.start.toInt + index * p.step.toInt ∧
      p.start.toInt + index * p.step.toInt ≤ max p.start.toInt p.stop.toInt := by
  have near := p.natAbs_offset_le inside
  have sign := p.offset_sign index
  have leads := p.leads
  generalize index * p.step.toInt = offset at near sign
  omega

/-- A term is the product and sum that it is computed by. -/
theorem toInt_term (inside : index < p.size) :
    (p.term index).toInt = p.start.toInt + index * p.step.toInt := by
  have within := p.within inside
  have start_le := p.start.le_toInt
  have start_lt := p.start.toInt_lt
  have stop_le := p.stop.le_toInt
  have stop_lt := p.stop.toInt_lt
  exact Int32.toInt_ofInt_of_le (by omega) (by omega)

/-- The integers of a progression: as many as there is room for, each exactly what the step
makes it, from the start in one direction and not past the end, which the next one would pass.
All of these numbers, that next one included, fit in words. -/
structure Enumerates (start stop step : Int) (terms : List Int32) : Prop where
  length_eq : terms.length = (stop - start).natAbs / step.natAbs + 1
  exact : ∀ index (inside : index < terms.length), terms[index].toInt = start + index * step
  within : ∀ term ∈ terms, min start stop ≤ term.toInt ∧ term.toInt ≤ max start stop
  strict : (0 < step → terms.Pairwise fun earlier later => earlier.toInt < later.toInt) ∧
    (step < 0 → terms.Pairwise fun earlier later => later.toInt < earlier.toInt)
  passes : (0 < step → stop < start + terms.length * step) ∧
    (step < 0 → start + terms.length * step < stop)
  words : ∀ index ≤ terms.length, IsWord (index * step) ∧ IsWord (start + index * step)

theorem length_running : p.running.length = p.size := by
  rw [running_eq, List.length_map, List.length_range]

theorem getElem_running (inside : index < p.running.length) :
    p.running[index] = p.term index := by
  simp only [running_eq, List.getElem_map, List.getElem_range]

/-- The terms that repeated addition gives are those of the progression. -/
theorem enumerates_running :
    Enumerates p.start.toInt p.stop.toInt p.step.toInt p.running := by
  have length_eq := p.length_running
  have exact (index : Nat) (inside : index < p.running.length) :
      p.running[index].toInt = p.start.toInt + index * p.step.toInt := by
    rw [p.getElem_running inside, p.toInt_term (length_eq ▸ inside)]
  refine ⟨length_eq, exact, fun term member => ?within, ⟨fun up => ?up, fun down => ?down⟩,
    ?passes, ?words⟩
  case within =>
    obtain ⟨index, inside, rfl⟩ := List.getElem_of_mem member
    rw [exact index inside]
    exact p.within (length_eq ▸ inside)
  case up =>
    refine List.pairwise_iff_getElem.mpr fun i j before inside order => ?_
    rw [exact i before, exact j inside]
    exact Int.add_lt_add_left (Int.mul_lt_mul_of_pos_right (Int.ofNat_lt.mpr order) up) _
  case down =>
    refine List.pairwise_iff_getElem.mpr fun i j before inside order => ?_
    rw [exact i before, exact j inside]
    exact Int.add_lt_add_left (Int.mul_lt_mul_of_neg_right (Int.ofNat_lt.mpr order) down) _
  case passes =>
    -- The first number that is no term lies beyond the end, seen from the start.
    have far := p.lt_natAbs_offset
    have sign := p.offset_sign p.size
    have leads := p.leads
    rw [length_eq]
    generalize p.size * p.step.toInt = offset at far sign
    omega
  case words =>
    -- The span and one step more are sums of a few integers of 32 bits.
    intro index reached
    have near := p.natAbs_offset_le_add (length_eq ▸ reached)
    have start_le := p.start.le_toInt
    have start_lt := p.start.toInt_lt
    have stop_le := p.stop.le_toInt
    have stop_lt := p.stop.toInt_lt
    have step_le := p.step.le_toInt
    have step_lt := p.step.toInt_lt
    generalize index * p.step.toInt = offset at near
    unfold IsWord
    omega

end Progression

/-! ### Their views -/

namespace UpTo

/-- Counting from one is the progression from one in steps of one. -/
theorem terms_eq_running (r : UpTo) {p : Progression} (start : p.start = 1)
    (stop : p.stop = r.stop) (step : p.step = 1) : r.terms = p.running := by
  have positive := r.positive
  have one : (1 : Int32).toInt = 1 := rfl
  have sizes : r.size = p.size := by
    rw [UpTo.size, Progression.size, start, stop, step, one, Int.natAbs_one, Nat.div_one]
    omega
  rw [terms, p.running_eq, sizes]
  refine List.map_congr_left fun index _ => ?_
  rw [term, Progression.term, start, step, one, Int.mul_one, Int.add_comm]

end UpTo

namespace View

/-- Whether the elements of a view are these integers: read one by one, and produced at once in
any kind. -/
structure Shows (view : View) (terms : List Int32) : Prop where
  kind_eq : view.kind = .atomic .integer
  size_eq : view.size = terms.length
  read : ∀ index (inside : index < terms.length),
    view.peek index = .ok (pure (.atom ⟨.integer, terms[index]⟩))
  filled : ∀ kind,
    view.fillAtoms kind = pure (terms.map fun i => Atom.asKind ⟨.integer, i⟩ kind)
  items : view.fillItems = pure (terms.map Value.ofInteger)

theorem shows_sequence (p : Progression) : (View.sequence p).Shows p.running where
  kind_eq := rfl
  size_eq := p.length_running.symm
  read index inside := by
    rw [View.peek, p.termAt_of_lt_size (p.length_running ▸ inside), p.getElem_running inside]
    rfl
  filled _ := rfl
  items := rfl

theorem shows_range (r : UpTo) : (View.range r).Shows r.terms where
  kind_eq := rfl
  size_eq := by rw [UpTo.terms, List.length_map, List.length_range]; rfl
  read index inside := by
    have before : index < r.size := by
      rwa [UpTo.terms, List.length_map, List.length_range] at inside
    have term : r.terms[index] = UpTo.term index := by
      simp only [UpTo.terms, List.getElem_map, List.getElem_range]
    rw [View.peek, r.termAt_of_lt_size before, term]
    rfl
  filled _ := rfl
  items := rfl

/-- For all integers of 32 bits: there is a progression exactly if the step leads from the start
to the end, and its view shows exactly the whole numbers that it amounts to, whether they are
computed one by one as products or all at once by repeated addition. The view of the numbers from
one on shows the same as that of the progression from one in steps of one. -/
theorem progression_exact (start stop step : Int32) :
    (if Progression.Leads start.toInt stop.toInt step.toInt then
      ∃ p terms, Progression.of start stop step = .ok p ∧ (View.sequence p).Shows terms ∧
        Progression.Enumerates start.toInt stop.toInt step.toInt terms
    else Progression.of start stop step =
      .error (if step.toInt = 0 then .zeroStep
        else .stepAway start.toInt stop.toInt step.toInt)) ∧
    (1 ≤ stop.toInt → ∃ r p terms, UpTo.of stop = .ok r ∧ Progression.of 1 stop 1 = .ok p ∧
      (View.range r).Shows terms ∧ (View.sequence p).Shows terms) := by
  refine ⟨?_, fun positive => ?_⟩
  · rw [Progression.of_eq]
    split
    · next leads =>
      exact ⟨_, _, rfl, shows_sequence _,
        Progression.enumerates_running ⟨start, stop, step, Progression.leads_iff.mp leads⟩⟩
    · next away =>
      -- A step of zero, and one that leads away.
      split <;> rfl
  · have leads : Progression.Leads (1 : Int32).toInt stop.toInt (1 : Int32).toInt :=
      Progression.leads_iff.mpr (.inl ⟨by decide, positive⟩)
    let r : UpTo := ⟨stop, positive⟩
    let p : Progression := ⟨1, stop, 1, Progression.leads_iff.mp leads⟩
    have made : Progression.of 1 stop 1 = .ok p :=
      (Progression.of_eq 1 stop 1).trans (dif_pos leads)
    have same : r.terms = p.running := r.terms_eq_running rfl rfl rfl
    exact ⟨r, p, r.terms, dif_pos positive, made, shows_range r, same ▸ shows_sequence p⟩

/-- From the greatest integer to the least one in the greatest of steps, whose size is no integer
of 32 bits any more; a step that leads away; and the longest count from one on. -/
theorem progression_exact_extremes :
    (∃ p, Progression.of 2147483647 (-2147483648) (-2147483648) = .ok p ∧
      (View.sequence p).Shows [2147483647, -1]) ∧
    Progression.of 1 5 (-1) = .error (.stepAway 1 5 (-1)) ∧
    ∃ r p terms, UpTo.of 2147483647 = .ok r ∧ Progression.of 1 2147483647 1 = .ok p ∧
      (View.range r).Shows terms ∧ (View.sequence p).Shows terms := by
  refine ⟨?_, ?_, (progression_exact 1 2147483647 1).2 (by decide)⟩
  · have holds := (progression_exact 2147483647 (-2147483648) (-2147483648)).1
    rw [if_pos (by decide)] at holds
    obtain ⟨p, terms, made, shows, enumerates⟩ := holds
    have two : terms.length = 2 := enumerates.length_eq
    obtain ⟨first, second, rfl⟩ := List.length_eq_two.mp two
    have at_first : first.toInt = (2147483647 : Int32).toInt := enumerates.exact 0 Nat.two_pos
    have at_second : second.toInt = (-1 : Int32).toInt := enumerates.exact 1 Nat.one_lt_two
    rw [Int32.toInt_inj.mp at_first, Int32.toInt_inj.mp at_second] at shows
    exact ⟨p, made, shows⟩
  · have holds := (progression_exact 1 5 (-1)).1
    rwa [if_neg (by decide)] at holds

end View

end Vectorial
