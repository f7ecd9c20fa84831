import Mathlib.Data.List.Forall2
import Vectorial.Proofs.Call.Matching

/-!
# Arity

A call is matched exactly when it can be bound, every required parameter receives something
and no actual is unused. Too few actuals are never what is reported: when all required
parameters are bound their actuals are distinct, so there are enough of them. Too many are
reported only without a varargs marker, and then there are more actuals than parameters,
since an actual is unused only after every parameter is taken.

## Main definitions

* `Binding.Supplies`: every required parameter received something;
* `Binding.FirstMissing`: the first required parameter that received nothing.

## Main results

* `Matching.matchCall_eq_ok_iff`: which calls are matched;
* `Matching.matchCall_of_params`: the name of the function makes no difference to them;
* `Matching.minArity_le`, `Matching.le_maxArity`: how many actuals a matched call has;
* `Matching.matchCall_validates`: what the outcome of matching says about the arity.
-/

namespace Vectorial

variable {formals : Formals} {labels : List (Option Symbol)} {binding : Binding} {cause : Cause}

namespace Binding

/-- Every required parameter received something. -/
def Supplies (binding : Binding) (formals : Formals) : Prop :=
  ∀ formal, formals.isRequired formal → binding.isBound formals formal

/-- The parameter is required and received nothing, and no parameter declared before it is
both. -/
structure FirstMissing (binding : Binding) (formals : Formals) (formal : Nat) : Prop where
  required : formals.isRequired formal
  unbound : binding.isBound formals formal = false
  first : ∀ earlier < formal, formals.isRequired earlier → binding.isBound formals earlier

end Binding

namespace Formals

theorem exists_of_isRequired {formal : Nat} (required : formals.isRequired formal) :
    ∃ p, formals.params[formal]? = some p ∧ p.required := by
  cases here : formals.params[formal]? with
  | none => simp [isRequired, here] at required
  | some p => exact ⟨p, rfl, by simpa [isRequired, here] using required⟩

theorem lt_of_isRequired {formal : Nat} (required : formals.isRequired formal) :
    formal < formals.length := by
  obtain ⟨p, here, -⟩ := exists_of_isRequired required
  exact (List.getElem?_eq_some_iff.mp here).1

/-- The varargs marker is not required. -/
theorem dotsIndex_ne_of_isRequired {formal : Nat} (required : formals.isRequired formal) :
    formals.dotsIndex ≠ some formal := by
  intro marker
  obtain ⟨p, here, needed⟩ := exists_of_isRequired required
  have named : p.name = Symbol.dots := by
    simpa [names, here] using getElem?_names_dotsIndex marker
  exact formals.dots_optional p (List.mem_of_getElem? here) needed named

theorem minArity_le_countP (formals : Formals) :
    formals.minArity ≤ formals.params.countP Formal.required := by
  rw [List.countP_eq_length_filter]
  exact ((List.takeWhile_sublist _).filter _).length_le

end Formals

namespace Matching

theorem countP_le_of_forall₂ {α β : Type} {p : α → Bool} {q : β → Bool} {l : List α} {l' : List β}
    (h : List.Forall₂ (fun a b => p a → q b) l l') : l.countP p ≤ l'.countP q := by
  induction h with
  | nil => rfl
  | @cons a b l l' imp _ ih =>
    rw [List.countP_cons, List.countP_cons]
    split
    · next holds =>
      rw [if_pos (imp holds)]
      omega
    · omega

/-- When the required parameters are bound, at least as many parameters have actuals. -/
theorem minArity_le_reduceOption (bound : Matching.bind formals labels = .ok binding)
    (supplies : binding.Supplies formals) :
    formals.minArity ≤ binding.actuals.reduceOption.length := by
  have length_eq := length_actuals_of_bind bound
  refine formals.minArity_le_countP.trans ?_
  rw [List.reduceOption_length_eq, ← List.countP_eq_length_filter]
  refine countP_le_of_forall₂ (List.forall₂_iff_get.mpr ⟨length_eq.symm, ?_⟩)
  intro formal lt lt' needed
  have required : formals.isRequired formal := by
    simpa [Formals.isRequired, List.getElem?_eq_getElem lt] using needed
  have received := supplies formal required
  rw [Binding.isBound, if_neg (Formals.dotsIndex_ne_of_isRequired required)] at received
  simpa [Binding.actualFor, List.getElem?_eq_getElem lt'] using received

theorem minArity_le_length (bound : Matching.bind formals labels = .ok binding)
    (supplies : binding.Supplies formals) : formals.minArity ≤ labels.length := by
  have total := (distributes_of_bind bound).length_eq
  have enough := minArity_le_reduceOption bound supplies
  simp only [List.length_append, List.length_range] at total
  omega

/-- Actuals are left over only when there are more of them than parameters. -/
theorem lt_length_of_unused (bound : Matching.bind formals labels = .ok binding)
    (left_over : binding.unused ≠ []) :
    formals.dotsIndex = none ∧ formals.length < labels.length := by
  obtain ⟨unmarked, taken⟩ := bound_of_unused bound left_over
  refine ⟨unmarked, ?_⟩
  have all := List.reduceOption_length_eq_iff.mpr taken
  have total := (distributes_of_bind bound).length_eq
  have some_unused := List.length_pos_iff.mpr left_over
  have length_eq := length_actuals_of_bind bound
  simp only [List.length_append, List.length_range] at total
  omega

/-- Without a marker and unused actuals, every actual is some parameter's. -/
theorem length_le_of_unused_eq_nil (bound : Matching.bind formals labels = .ok binding)
    (unmarked : formals.dotsIndex = none) (all_used : binding.unused = []) :
    labels.length ≤ formals.length := by
  have absorbed := eq_nil_of_bind bound
  rw [unmarked, Option.isSome_none, if_neg Bool.false_ne_true] at absorbed
  have total := (distributes_of_bind bound).length_eq
  have atMost := binding.actuals.reduceOption_length_le
  have length_eq := length_actuals_of_bind bound
  simp only [absorbed, all_used, List.append_nil, List.length_range] at total
  omega

/-! ### The check -/

theorem supplies_of_find? (absent : (List.range formals.length).find? (fun formal =>
    formals.isRequired formal && !binding.isBound formals formal) = none) :
    binding.Supplies formals := by
  intro formal required
  have inside := List.mem_range.mpr (Formals.lt_of_isRequired required)
  simpa [required] using List.find?_eq_none.mp absent formal inside

theorem firstMissing_of_find? {formal : Nat} (found : (List.range formals.length).find?
    (fun formal => formals.isRequired formal && !binding.isBound formals formal) = some formal) :
    binding.FirstMissing formals formal := by
  rw [List.find?_range_eq_some] at found
  obtain ⟨missing, -, first⟩ := found
  simp only [Bool.and_eq_true, Bool.not_eq_true'] at missing
  refine ⟨missing.1, missing.2, ?_⟩
  intro earlier before required
  simpa [required] using first earlier before

/-- The check passes, or names the first required parameter that is missing, or refuses the
count. -/
theorem check_cases (formals : Formals) (binding : Binding) (count : Nat) :
    (∃ formal, binding.FirstMissing formals formal ∧
      check formals binding count =
        .error (.missingArgument formals.function (formals.names.getD formal ""))) ∨
    binding.Supplies formals ∧
      check formals binding count =
        if count < formals.minArity then
          .error (.tooFew formals.function formals.minArity formals.maxArity count)
        else if !binding.unused.isEmpty then
          .error (.tooMany formals.function formals.minArity formals.maxArity count)
        else .ok () := by
  unfold check
  dsimp only
  split
  · next formal found => exact .inl ⟨formal, firstMissing_of_find? found, rfl⟩
  · next absent => exact .inr ⟨supplies_of_find? absent, rfl⟩

theorem not_supplies_of_firstMissing {formal : Nat}
    (missing : binding.FirstMissing formals formal) : ¬ binding.Supplies formals := by
  intro supplies
  have bound := supplies formal missing.required
  rw [missing.unbound] at bound
  cases bound

/-! ### The outcome -/

/-- A call is matched exactly when it can be bound, what is required is supplied and nothing
is left over. -/
theorem matchCall_eq_ok_iff : matchCall formals labels = .ok binding ↔
    Matching.bind formals labels = .ok binding ∧ binding.Supplies formals ∧
      binding.unused = [] := by
  constructor
  · intro matched
    obtain ⟨_, bound, matched⟩ := andThen_eq_ok.mp matched
    obtain ⟨⟨⟩, checked, ⟨⟩⟩ := andThen_eq_ok.mp matched
    rcases check_cases formals binding labels.length with ⟨_, -, failed⟩ | ⟨supplies, outcome⟩
    · cases failed.symm.trans checked
    · refine ⟨bound, supplies, ?_⟩
      -- The check for too few never fires here, so that it is the one for too many that does.
      by_contra left_over
      rw [outcome, if_neg (Nat.not_lt.mpr (minArity_le_length bound supplies)),
        if_pos (by simpa using left_over)] at checked
      cases checked
  · rintro ⟨bound, supplies, all_used⟩
    have checked : check formals binding labels.length = .ok () := by
      rcases check_cases formals binding labels.length with ⟨_, missing, -⟩ | ⟨-, outcome⟩
      · exact absurd supplies (not_supplies_of_firstMissing missing)
      · rw [outcome, if_neg (Nat.not_lt.mpr (minArity_le_length bound supplies)), all_used]
        rfl
    exact andThen_eq_ok.mpr ⟨binding, bound, andThen_eq_ok.mpr ⟨(), checked, rfl⟩⟩

/-- The name of a function shows in errors only, not in what is matched. -/
theorem matchCall_of_params {other : Formals} (same : other.params = formals.params)
    (matched : matchCall formals labels = .ok binding) : matchCall other labels = .ok binding := by
  obtain ⟨function, params, nodup, optional⟩ := formals
  cases same
  obtain ⟨bound, supplies, all_used⟩ := matchCall_eq_ok_iff.mp matched
  obtain ⟨taken, abbreviations, filled⟩ := andThen_eq_ok.mp bound
  refine matchCall_eq_ok_iff.mpr ⟨andThen_eq_ok.mpr ⟨taken, abbreviations, ?_⟩, supplies, all_used⟩
  -- A named actual that is left over is the only one reported with the function.
  rw [positional_eq] at filled ⊢
  split at filled
  · cases filled
  · next unnamed =>
    have unnamed : ((remaining labels taken).take (openPositions other taken).length).findSome?
        (label labels) = none := unnamed
    rw [unnamed]
    exact filled

theorem minArity_le (matched : matchCall formals labels = .ok binding) :
    formals.minArity ≤ labels.length := by
  obtain ⟨bound, supplies, -⟩ := matchCall_eq_ok_iff.mp matched
  exact minArity_le_length bound supplies

theorem le_maxArity {most : Nat} (matched : matchCall formals labels = .ok binding)
    (bounded : formals.maxArity = some most) : labels.length ≤ most := by
  obtain ⟨bound, -, all_used⟩ := matchCall_eq_ok_iff.mp matched
  simp only [Formals.maxArity, Option.ite_none_left_eq_some, Option.some.injEq] at bounded
  obtain ⟨unmarked, rfl⟩ := bounded
  exact length_le_of_unused_eq_nil bound (by simpa using unmarked) all_used

theorem error_of_positional {actuals opened : List Nat}
    (failed : positional formals labels actuals opened binding = .error cause) :
    ∃ name, cause = .unmatchedName formals.function name := by
  rw [positional_eq] at failed
  split at failed
  · cases failed
    exact ⟨_, rfl⟩
  · cases failed

theorem error_of_bind (failed : Matching.bind formals labels = .error cause) :
    (∃ name shorts, cause = .ambiguousMatch name shorts) ∨
      ∃ name, cause = .unmatchedName formals.function name := by
  rcases andThen_eq_error.mp failed with failed | ⟨taken, -, failed⟩
  · exact .inl (error_of_abbreviated failed)
  · exact .inr (error_of_positional failed)

/-- A call is refused because it cannot be bound, because of the first required parameter
that is missing, or because there are more actuals than parameters and no marker. -/
theorem matchCall_error_cases (failed : matchCall formals labels = .error cause) :
    Matching.bind formals labels = .error cause ∨
    ∃ binding, Matching.bind formals labels = .ok binding ∧
      ((∃ formal, binding.FirstMissing formals formal ∧
          cause = .missingArgument formals.function (formals.names.getD formal "")) ∨
        formals.dotsIndex = none ∧ formals.length < labels.length ∧
          cause = .tooMany formals.function formals.minArity formals.maxArity labels.length) := by
  rcases andThen_eq_error.mp failed with failed | ⟨binding, bound, failed⟩
  · exact .inl failed
  refine .inr ⟨binding, bound, ?_⟩
  rcases andThen_eq_error.mp failed with failed | ⟨⟨⟩, -, ⟨⟩⟩
  rcases check_cases formals binding labels.length with
    ⟨formal, missing, outcome⟩ | ⟨supplies, outcome⟩
  · rw [outcome] at failed
    cases failed
    exact .inl ⟨formal, missing, rfl⟩
  · rw [outcome, if_neg (Nat.not_lt.mpr (minArity_le_length bound supplies))] at failed
    split at failed
    · next left_over =>
      cases failed
      obtain ⟨unmarked, more⟩ := lt_length_of_unused bound (by simpa using left_over)
      exact .inr ⟨unmarked, more, rfl⟩
    · cases failed

@[simp]
theorem length_labels (names : List (Option Symbol)) (count : Nat) :
    (Matching.labels names count).length = count := by
  simp [Matching.labels]

/-- For all parameters, names and number of actuals: a call is matched exactly when it can be
bound, every required parameter received something and no actual is unused, and then the
number of actuals is between the arities. A call is never refused for too few actuals; if it
is refused for too many, then there is no varargs marker and more than the greatest number
were given; if it is for a missing argument, then this is the first parameter in declaration
order that is required and received nothing. -/
theorem matchCall_validates (formals : Formals) (names : List (Option Symbol)) (count : Nat) :
    (∀ binding, matchCall formals (Matching.labels names count) = .ok binding ↔
      Matching.bind formals (Matching.labels names count) = .ok binding ∧
        binding.Supplies formals ∧ binding.unused = []) ∧
    (∀ binding, matchCall formals (Matching.labels names count) = .ok binding →
      formals.minArity ≤ count ∧ ∀ most, formals.maxArity = some most → count ≤ most) ∧
    (∀ function least most got,
      matchCall formals (Matching.labels names count) ≠ .error (.tooFew function least most got)) ∧
    (∀ function least most got,
      matchCall formals (Matching.labels names count) = .error (.tooMany function least most got) →
        formals.dotsIndex = none ∧ got = count ∧ ∃ bound, most = some bound ∧ bound < got) ∧
    ∀ function name,
      matchCall formals (Matching.labels names count) = .error (.missingArgument function name) →
        ∃ binding formal, Matching.bind formals (Matching.labels names count) = .ok binding ∧
          binding.FirstMissing formals formal ∧ formals.names[formal]? = some name := by
  refine ⟨fun binding => matchCall_eq_ok_iff, ?_, ?_, ?_, ?_⟩
  · intro binding matched
    have least := minArity_le matched
    rw [length_labels] at least
    refine ⟨least, ?_⟩
    intro most bounded
    have greatest := le_maxArity matched bounded
    rwa [length_labels] at greatest
  -- No error of the binding is about a number of actuals, and the check reports only too many.
  · intro function least most got failed
    rcases matchCall_error_cases failed with
      failed | ⟨binding, -, ⟨formal, -, ⟨⟩⟩ | ⟨-, -, ⟨⟩⟩⟩
    rcases error_of_bind failed with ⟨_, _, ⟨⟩⟩ | ⟨_, ⟨⟩⟩
  · intro function least most got failed
    rcases matchCall_error_cases failed with
      failed | ⟨binding, -, ⟨formal, -, ⟨⟩⟩ | ⟨unmarked, more, reported⟩⟩
    · rcases error_of_bind failed with ⟨_, _, ⟨⟩⟩ | ⟨_, ⟨⟩⟩
    · cases reported
      refine ⟨unmarked, length_labels names count, formals.length, ?_, more⟩
      simp [Formals.maxArity, unmarked]
  -- Only a missing parameter is left as the reason.
  · intro function name failed
    rcases matchCall_error_cases failed with
      failed | ⟨binding, bound, ⟨formal, missing, reported⟩ | ⟨-, -, ⟨⟩⟩⟩
    · rcases error_of_bind failed with ⟨_, _, ⟨⟩⟩ | ⟨_, ⟨⟩⟩
    · cases reported
      refine ⟨binding, formal, bound, missing, ?_⟩
      obtain ⟨p, here, -⟩ := Formals.exists_of_isRequired missing.required
      simp [Formals.names, here]

/-- A function of two parameters, the first of them required. -/
def pairFormals : Formals where
  function := "pair"
  params := [⟨"first", true⟩, ⟨"second", false⟩]
  nodup := by decide
  dots_optional := by decide

theorem matchCall_validates_pair :
    (pairFormals.minArity ≤ 1 ∧ ∀ most, pairFormals.maxArity = some most → 1 ≤ most) ∧
    (pairFormals.dotsIndex = none ∧ 3 = 3 ∧ ∃ bound, some 2 = some bound ∧ bound < 3) ∧
    ∃ binding formal,
      Matching.bind pairFormals (Matching.labels [some "sec"] 1) = .ok binding ∧
        binding.FirstMissing pairFormals formal ∧ pairFormals.names[formal]? = some "first" := by
  refine ⟨?_, ?_, ?_⟩
  · exact (matchCall_validates pairFormals [none] 1).2.1 ⟨[some 0, none], [], []⟩ rfl
  · exact (matchCall_validates pairFormals [] 3).2.2.2.1 "pair" 1 (some 2) 3 rfl
  · exact (matchCall_validates pairFormals [some "sec"] 1).2.2.2.2 "pair" "first" rfl

end Matching

end Vectorial
