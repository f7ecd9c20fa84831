import Vectorial.Proofs.Call.Arity

/-!
# Names decide without an order

The two naming passes go through the parameters one by one and look at what has been taken so
far. What they compute does not depend on that: it is read off the names alone. An actual of a
call is first named by the parameter of its exact name, when no earlier actual has the name.
Among the parameters and the named actuals that this leaves, an actual may mean a parameter
whose name it begins. Matching by name fails exactly when something here has two choices, and
otherwise gives every parameter its only one.

## Main definitions

* `Matching.FirstNamed`: the actual is the first with the exact name of the parameter;
* `Matching.MayMean`: the actual is left over, and begins the name of a parameter left over;
* `Matching.ByName`: an actual and the parameter that has it by name;
* `Matching.Contested`: something about the parameter has two choices;
* `Matching.Claimants`: what is reported about a contested parameter;
* `Matching.Partway`: where the second pass stands after some of the parameters.

## Main results

* `Matching.getElem?_exact_iff`: the first pass finds the first actual of each name;
* `Matching.abbreviate_step`: one parameter of the second pass;
* `Matching.abbreviated_outcome`: the whole of it;
* `Matching.bind_resolves_names`: when names are ambiguous, and who is bound otherwise.
-/

namespace Vectorial

namespace Matching

variable {formals : Formals} {labels : List (Option Symbol)} {taken after : Taken}
  {formal actual other : Nat} {cause : Cause} {name short : Symbol}

/-! ### What the names say -/

/-- The parameter is ordinary, and the actual is the first of exactly its name. -/
def FirstNamed (formals : Formals) (labels : List (Option Symbol)) (formal actual : Nat) : Prop :=
  ∃ name, formals.names[formal]? = some name ∧ name ≠ Symbol.dots ∧
    labels[actual]? = some (some name) ∧ ∀ earlier < actual, labels[earlier]? ≠ some (some name)

/-- The parameter is ordinary and no actual is first named by it, the actual is named and no
parameter first names it, and its name begins that of the parameter. -/
structure MayMean (formals : Formals) (labels : List (Option Symbol)) (formal actual : Nat) :
    Prop where
  begins : ∃ name short, formals.names[formal]? = some name ∧ name ≠ Symbol.dots ∧
    labels[actual]? = some (some short) ∧ short.toList <+: name.toList
  unnamed : ∀ other, ¬ FirstNamed formals labels formal other
  unused : ∀ other, ¬ FirstNamed formals labels other actual

/-- The actual is bound to the parameter by its name. -/
def ByName (formals : Formals) (labels : List (Option Symbol)) (formal actual : Nat) : Prop :=
  FirstNamed formals labels formal actual ∨ MayMean formals labels formal actual

/-- Several actuals may mean the parameter. -/
def SeveralMean (formals : Formals) (labels : List (Option Symbol)) (formal : Nat) : Prop :=
  ∃ actual other, actual ≠ other ∧ MayMean formals labels formal actual ∧
    MayMean formals labels formal other

/-- The actual may mean several parameters. -/
def MeansSeveral (formals : Formals) (labels : List (Option Symbol)) (actual : Nat) : Prop :=
  ∃ formal other, formal ≠ other ∧ MayMean formals labels formal actual ∧
    MayMean formals labels other actual

/-- Several actuals may mean the parameter, or only one may, and that one may mean several. -/
def Contested (formals : Formals) (labels : List (Option Symbol)) (formal : Nat) : Prop :=
  SeveralMean formals labels formal ∨
    ∃ actual, MayMean formals labels formal actual ∧
      (∀ other, MayMean formals labels formal other → other = actual) ∧
      MeansSeveral formals labels actual

/-- The positions with a property, in increasing order. -/
structure Enumerates (positions : List Nat) (property : Nat → Prop) : Prop where
  increasing : positions.Pairwise (· < ·)
  mem_iff : ∀ position, position ∈ positions ↔ property position

/-- The names of all actuals that may mean the parameter, in call order. -/
def Claimants (formals : Formals) (labels : List (Option Symbol)) (formal : Nat)
    (shorts : List Symbol) : Prop :=
  ∃ actuals, Enumerates actuals (MayMean formals labels formal) ∧
    actuals.map (label labels) = shorts.map some

theorem MayMean.lt (means : MayMean formals labels formal actual) : formal < formals.length := by
  obtain ⟨name, short, here, -, -, -⟩ := means.begins
  exact Formals.lt_of_getElem?_names here

theorem MayMean.lt_actual (means : MayMean formals labels formal actual) :
    actual < labels.length := by
  obtain ⟨name, short, -, -, named, -⟩ := means.begins
  exact (List.getElem?_eq_some_iff.mp named).1

/-- Whoever may be meant by an actual with several meanings is contested. -/
theorem MayMean.contested (means : MayMean formals labels formal actual)
    (several : MeansSeveral formals labels actual) : Contested formals labels formal := by
  by_cases alone : ∀ other, MayMean formals labels formal other → other = actual
  · exact .inr ⟨actual, means, alone, several⟩
  · push Not at alone
    obtain ⟨other, means', apart⟩ := alone
    exact .inl ⟨other, actual, apart, means', means⟩

theorem exists_contested_iff :
    (∃ formal, Contested formals labels formal) ↔
      (∃ formal, SeveralMean formals labels formal) ∨
        ∃ actual, MeansSeveral formals labels actual := by
  constructor
  · rintro ⟨formal, several | ⟨actual, -, -, several⟩⟩
    · exact .inl ⟨formal, several⟩
    · exact .inr ⟨actual, several⟩
  · rintro (⟨formal, several⟩ | ⟨actual, several⟩)
    · exact ⟨formal, .inl several⟩
    · obtain ⟨formal, other, apart, means, means'⟩ := several
      exact ⟨formal, means.contested ⟨formal, other, apart, means, means'⟩⟩

/-! ### The first pass -/

theorem names_ne_dots_iff (here : formals.names[formal]? = some name) :
    name ≠ Symbol.dots ↔ formals.dotsIndex ≠ some formal := by
  refine not_congr ⟨?_, ?_⟩
  · rintro rfl
    obtain ⟨lt, same⟩ := List.getElem?_eq_some_iff.mp here
    rw [Formals.dotsIndex, Formals.position, List.idxOf?_eq_some_iff]
    refine ⟨lt, by simp [same], fun earlier before => ?_⟩
    -- No name occurs twice, so the marker does not stand before its position.
    intro marked
    have marked : formals.names[earlier] = Symbol.dots := by simpa using marked
    have twice : earlier = formal := formals.nodup.getElem_inj_iff.mp (marked.trans same.symm)
    omega
  · intro marker
    simpa [here] using Formals.getElem?_names_dotsIndex marker

theorem idxOf?_eq_some_iff_first : labels.idxOf? (some name) = some actual ↔
    labels[actual]? = some (some name) ∧
      ∀ earlier < actual, labels[earlier]? ≠ some (some name) := by
  rw [List.idxOf?_eq_some_iff]
  constructor
  · rintro ⟨lt, here, first⟩
    refine ⟨by simpa [List.getElem?_eq_getElem lt] using here, fun earlier before => ?_⟩
    simpa [List.getElem?_eq_getElem (before.trans lt)] using first earlier before
  · rintro ⟨here, first⟩
    obtain ⟨lt, same⟩ := List.getElem?_eq_some_iff.mp here
    refine ⟨lt, by simp [same], fun earlier before => ?_⟩
    simpa [List.getElem?_eq_getElem (before.trans lt)] using first earlier before

/-- Each ordinary parameter takes the first actual of its name. -/
theorem getElem?_exact_iff : (exact formals labels)[formal]? = some (some actual) ↔
    FirstNamed formals labels formal actual := by
  have names_eq : formals.names[formal]? = formals.params[formal]?.map Formal.name := by
    simp [Formals.names]
  rw [exact, List.getElem?_map, FirstNamed, names_eq]
  cases formals.params[formal]? with
  | none => simp
  | some p =>
    have ordinary : p.name.isDots = false ↔ p.name ≠ Symbol.dots := by
      simp [Symbol.isDots]
    simp [← idxOf?_eq_some_iff_first, ← ordinary]

/-! ### The second pass -/

/-- Where the second pass stands after the first `count` parameters: they have taken what may
mean them, and none of them is contested. -/
structure Partway (formals : Formals) (labels : List (Option Symbol)) (count : Nat)
    (taken : Taken) : Prop where
  matching : IsMatching formals labels.length taken
  taken_iff : ∀ formal actual, taken[formal]? = some (some actual) ↔
    FirstNamed formals labels formal actual ∨
      formal < count ∧ MayMean formals labels formal actual
  calm : ∀ formal < count, ¬ Contested formals labels formal

theorem partway_exact (formals : Formals) (labels : List (Option Symbol)) :
    Partway formals labels 0 (exact formals labels) where
  matching := isMatching_exact formals labels
  taken_iff formal actual := by simp [getElem?_exact_iff]
  calm formal before := absurd before (Nat.not_lt_zero _)

section Step

variable {count : Nat}

theorem isOpen_iff (here : formals.names[formal]? = some name)
    (length_eq : taken.length = formals.length) : isOpen formals taken formal ↔
      name ≠ Symbol.dots ∧ ∀ actual, taken[formal]? ≠ some (some actual) := by
  have lt : formal < taken.length := by
    rw [length_eq]
    exact Formals.lt_of_getElem?_names here
  rw [names_ne_dots_iff here]
  cases entry : taken[formal] <;> simp [isOpen, lt, entry]

/-- What an open parameter's turn has not reached yet, nothing but its exact name has taken. -/
theorem Partway.isOpen_iff (partway : Partway formals labels count taken)
    (here : formals.names[formal]? = some name) (later : count ≤ formal) :
    isOpen formals taken formal ↔
      name ≠ Symbol.dots ∧ ∀ actual, ¬ FirstNamed formals labels formal actual := by
  have later : ¬ formal < count := Nat.not_lt.mpr later
  simp [Matching.isOpen_iff here partway.matching.length_eq, partway.taken_iff, later]

/-- No actual that may mean a parameter to come could mean one that has had its turn. -/
theorem Partway.le_of_mayMean (partway : Partway formals labels count taken)
    (means : MayMean formals labels count actual)
    (means' : MayMean formals labels other actual) : count ≤ other := by
  by_contra before
  rw [Nat.not_le] at before
  have several : MeansSeveral formals labels actual :=
    ⟨other, count, Nat.ne_of_lt before, means', means⟩
  exact partway.calm other before (means'.contested several)

theorem label_eq_some_iff : label labels actual = some short ↔
    labels[actual]? = some (some short) := by
  simp [label, Option.join_eq_some_iff]

/-- The candidates of an open parameter in its turn are the actuals that may mean it. -/
theorem Partway.mem_candidates_iff (partway : Partway formals labels count taken)
    (here : formals.names[count]? = some name) (opened : isOpen formals taken count) :
    actual ∈ candidates labels taken name ↔ MayMean formals labels count actual := by
  obtain ⟨ordinary, unnamed⟩ := (partway.isOpen_iff here (Nat.le_refl _)).mp opened
  simp only [candidates, List.mem_filter, mem_remaining, Option.any_eq_true, Symbol.abbreviates,
    List.isPrefixOf_iff_prefix, label_eq_some_iff]
  constructor
  · rintro ⟨⟨lt, free⟩, short, named, begins⟩
    refine ⟨⟨name, short, here, ordinary, named, begins⟩, unnamed, fun other first => free ?_⟩
    exact List.mem_of_getElem? ((partway.taken_iff other actual).mpr (.inl first))
  · intro means
    obtain ⟨_, short, here', -, named, begins⟩ := means.begins
    cases here.symm.trans here'
    refine ⟨⟨means.lt_actual, fun used => ?_⟩, short, named, begins⟩
    obtain ⟨other, at_other⟩ := List.mem_iff_getElem?.mp used
    -- What an earlier parameter took by abbreviation cannot mean this one too.
    rcases (partway.taken_iff other actual).mp at_other with first | ⟨before, means'⟩
    · exact means.unused other first
    · exact absurd before (Nat.not_lt.mpr (partway.le_of_mayMean means means'))

theorem Partway.meansAnother_iff (partway : Partway formals labels count taken)
    (means : MayMean formals labels count actual) (named : labels[actual]? = some (some short)) :
    meansAnother formals taken count short ↔ MeansSeveral formals labels actual := by
  simp only [meansAnother, List.any_eq_true, List.mem_range, Bool.and_eq_true, bne_iff_ne,
    Option.any_eq_true, Symbol.abbreviates, List.isPrefixOf_iff_prefix]
  constructor
  · rintro ⟨other, lt, ⟨apart, opened⟩, name, here, begins⟩
    obtain ⟨ordinary, free⟩ :=
      (Matching.isOpen_iff here partway.matching.length_eq).mp opened
    have unnamed : ∀ actual, ¬ FirstNamed formals labels other actual := by
      intro actual first
      exact free actual ((partway.taken_iff other actual).mpr (.inl first))
    exact ⟨other, count, apart, ⟨⟨name, short, here, ordinary, named, begins⟩, unnamed,
      means.unused⟩, means⟩
  · rintro ⟨first, second, apart, means₁, means₂⟩
    -- One of the two parameters is not the one in its turn.
    obtain ⟨other, apart, means'⟩ :
        ∃ other, other ≠ count ∧ MayMean formals labels other actual := by
      by_cases same : first = count
      · exact ⟨second, fun same' => apart (same.trans same'.symm), means₂⟩
      · exact ⟨first, same, means₁⟩
    obtain ⟨name, short', here, ordinary, named', begins⟩ := means'.begins
    obtain rfl : short = short' := by simpa using named.symm.trans named'
    have opened := (partway.isOpen_iff here (partway.le_of_mayMean means means')).mpr
      ⟨ordinary, means'.unnamed⟩
    exact ⟨other, means'.lt, ⟨apart, opened⟩, name, here, begins⟩

theorem pairwise_candidates (name : Symbol) : (candidates labels taken name).Pairwise (· < ·) :=
  (List.pairwise_lt_range.filter _).filter _

/-- What is reported about a parameter in its turn are all actuals that may mean it. -/
theorem Partway.claimants (partway : Partway formals labels count taken)
    (here : formals.names[count]? = some name) (opened : isOpen formals taken count) :
    Claimants formals labels count ((candidates labels taken name).filterMap (label labels)) := by
  refine ⟨candidates labels taken name,
    ⟨pairwise_candidates name, fun actual => partway.mem_candidates_iff here opened⟩, ?_⟩
  rw [← List.filterMap_eq_map, List.map_filterMap]
  refine List.filterMap_congr fun actual member => ?_
  obtain ⟨_, short, -, -, named, -⟩ :=
    ((partway.mem_candidates_iff here opened).mp member).begins
  simp [label_eq_some_iff.mpr named]

/-- A parameter that is not contested and takes what may mean it keeps the pass on its way. -/
theorem Partway.succ (partway : Partway formals labels count taken)
    (matching : IsMatching formals labels.length after) (calm : ¬ Contested formals labels count)
    (others : ∀ formal ≠ count, after[formal]? = taken[formal]?)
    (own : ∀ actual, after[count]? = some (some actual) ↔
      FirstNamed formals labels count actual ∨ MayMean formals labels count actual) :
    Partway formals labels (count + 1) after where
  matching := matching
  taken_iff formal actual := by
    by_cases here : formal = count
    · subst here
      simp [own]
    · have between : formal < count + 1 ↔ formal < count := by omega
      rw [others formal here, partway.taken_iff, between]
  calm formal before := by
    rcases Nat.lt_succ_iff_lt_or_eq.mp before with earlier | rfl
    · exact partway.calm formal earlier
    · exact calm

/-- A parameter in its turn either goes by uncontested, having taken what may mean it, or is
contested, and then it is reported with everything that may mean it. -/
theorem abbreviate_step (partway : Partway formals labels count taken)
    (here : formals.names[count]? = some name) :
    (∃ after, abbreviate formals labels taken count = .ok after ∧
      Partway formals labels (count + 1) after) ∨
    Contested formals labels count ∧ ∃ shorts,
      abbreviate formals labels taken count = .error (.ambiguousMatch name shorts) ∧
        Claimants formals labels count shorts := by
  have lt := Formals.lt_of_getElem?_names here
  have named : formals.names.getD count "" = name := by simp [here]
  by_cases opened : isOpen formals taken count
  case neg =>
    -- The marker and a parameter first named by an actual are passed over.
    have closed := mt (partway.isOpen_iff here (Nat.le_refl _)).mpr opened
    have none_means (actual : Nat) : ¬ MayMean formals labels count actual := by
      intro means
      obtain ⟨_, _, here', ordinary, -, -⟩ := means.begins
      cases here.symm.trans here'
      exact closed ⟨ordinary, means.unnamed⟩
    refine .inl ⟨taken, by simp [abbreviate, opened], partway.succ partway.matching ?_
      (fun _ _ => rfl) fun actual => ?_⟩
    · rintro (⟨actual, -, -, means, -⟩ | ⟨actual, means, -, -⟩) <;> exact none_means actual means
    · simp [partway.taken_iff, none_means]
  case pos =>
    have member (actual : Nat) : actual ∈ candidates labels taken name ↔
        MayMean formals labels count actual := partway.mem_candidates_iff here opened
    have claimants := partway.claimants here opened
    have increasing : (candidates labels taken name).Pairwise (· < ·) := pairwise_candidates name
    obtain ⟨-, unnamed⟩ := (partway.isOpen_iff here (Nat.le_refl _)).mp opened
    obtain ⟨ordinary, free⟩ := getElem?_of_isOpen partway.matching.length_eq lt opened
    simp only [abbreviate, opened, Bool.not_true, if_neg Bool.false_ne_true, named]
    match only : candidates labels taken name with
    | [] =>
      simp only [only, List.not_mem_nil, false_iff] at member
      refine .inl ⟨taken, rfl, partway.succ partway.matching ?_ (fun _ _ => rfl) fun actual => ?_⟩
      · rintro (⟨actual, -, -, means, -⟩ | ⟨actual, means, -, -⟩) <;> exact member actual means
      · simp [partway.taken_iff, member]
    | [actual] =>
      simp only [only, List.mem_singleton] at member
      have means := (member actual).mp rfl
      obtain ⟨_, short, -, -, at_actual, -⟩ := means.begins
      have label_eq := label_eq_some_iff.mpr at_actual
      simp only [label_eq, Option.getD_some]
      have another := partway.meansAnother_iff means at_actual
      by_cases several : MeansSeveral formals labels actual
      · refine .inr ⟨means.contested several, [short], by simp [another.mpr several], ?_⟩
        simpa [only, label_eq] using claimants
      · have single : meansAnother formals taken count short = false := by
          simpa using mt another.mp several
        have left : actual ∈ remaining labels taken :=
          List.mem_of_mem_filter (only ▸ List.mem_singleton_self actual :
            actual ∈ candidates labels taken name)
        refine .inl ⟨taken.set count (some actual), by simp [single],
          partway.succ (partway.matching.set free ordinary left) ?_ ?_ ?_⟩
        · rintro (⟨one, two, apart, means₁, means₂⟩ | ⟨one, means₁, -, several₁⟩)
          · exact apart (((member one).mpr means₁).trans ((member two).mpr means₂).symm)
          · exact several ((member one).mpr means₁ ▸ several₁)
        · exact fun formal apart => List.getElem?_set_ne (Ne.symm apart)
        · intro one
          rw [List.getElem?_set_self (partway.matching.length_eq ▸ lt), ← member one]
          simp [unnamed, eq_comm]
    | one :: two :: rest =>
      simp only [only] at member claimants increasing
      have apart : one ≠ two := Nat.ne_of_lt (List.rel_of_pairwise_cons increasing (.head _))
      refine .inr ⟨.inl ⟨one, two, apart, (member one).mp (.head _),
        (member two).mp (.tail _ (.head _))⟩, _, rfl, claimants⟩

end Step

/-- The parameter is contested and no parameter declared before it is. -/
def FirstContested (formals : Formals) (labels : List (Option Symbol)) (formal : Nat) : Prop :=
  Contested formals labels formal ∧ ∀ earlier < formal, ¬ Contested formals labels earlier

/-- The second pass ends with every parameter uncontested, or it reports the first parameter
that is contested. -/
theorem abbreviated_outcome (formals : Formals) (labels : List (Option Symbol)) :
    (∃ taken, abbreviated formals labels (exact formals labels) = .ok taken ∧
      Partway formals labels formals.length taken) ∨
    ∃ formal name shorts, FirstContested formals labels formal ∧
      formals.names[formal]? = some name ∧ Claimants formals labels formal shorts ∧
      abbreviated formals labels (exact formals labels) = .error (.ambiguousMatch name shorts) := by
  -- Induction on how many parameters have had their turn.
  have pass (count : Nat) (le : count ≤ formals.length) :
      (∃ taken, (List.range count).foldlM (abbreviate formals labels) (exact formals labels) =
          .ok taken ∧ Partway formals labels count taken) ∨
      ∃ formal name shorts, FirstContested formals labels formal ∧
        formals.names[formal]? = some name ∧ Claimants formals labels formal shorts ∧
        (List.range count).foldlM (abbreviate formals labels) (exact formals labels) =
          .error (.ambiguousMatch name shorts) := by
    induction count with
    | zero => exact .inl ⟨_, rfl, partway_exact formals labels⟩
    | succ count ih =>
      rw [List.range_succ, List.foldlM_append]
      rcases ih (Nat.le_of_succ_le le) with
        ⟨taken, first, partway⟩ | ⟨formal, name, shorts, contested, here, claimants, failed⟩
      · have lt : count < formals.names.length := by
          rw [formals.length_names]
          exact le
        have here := List.getElem?_eq_getElem lt
        rcases abbreviate_step partway here with
          ⟨after, step, partway'⟩ | ⟨contested, shorts, step, claimants⟩
        · exact .inl ⟨after, andThen_eq_ok.mpr ⟨taken, first, andThen_eq_ok.mpr ⟨after, step, rfl⟩⟩,
            partway'⟩
        · exact .inr ⟨count, _, shorts, ⟨contested, partway.calm⟩, here, claimants,
            andThen_eq_error.mpr (.inr ⟨taken, first, andThen_eq_error.mpr (.inl step)⟩)⟩
      · exact .inr ⟨formal, name, shorts, contested, here, claimants,
          andThen_eq_error.mpr (.inl failed)⟩
  exact pass formals.length (Nat.le_refl _)

/-- After the naming passes exactly those parameters have an actual which have one by name. -/
theorem Partway.byName_iff (partway : Partway formals labels formals.length taken) :
    taken[formal]? = some (some actual) ↔ ByName formals labels formal actual := by
  rw [partway.taken_iff, and_iff_right_of_imp MayMean.lt, ByName]

/-! ### The binding -/

/-- After the naming passes a call is bound, or the first named actual to reach an open
parameter is refused. -/
theorem bind_of_abbreviated
    (named : abbreviated formals labels (exact formals labels) = .ok taken) :
    let left := remaining labels taken
    let opened := openPositions formals taken
    Matching.bind formals labels =
      match (left.take opened.length).findSome? (label labels) with
      | some name => .error (.unmatchedName formals.function name)
      | none =>
        .ok
          { actuals := place taken (opened.zip left)
            dots := if formals.dotsIndex.isSome then left.drop opened.length else []
            unused := if formals.dotsIndex.isSome then [] else left.drop opened.length } := by
  intro left opened
  have positional_eq := positional_eq formals labels left opened ⟨taken, [], []⟩
  simp only [List.nil_append] at positional_eq
  rw [Matching.bind, named]
  exact positional_eq

/-- A parameter that is not open after the naming passes keeps what it has taken. -/
theorem getElem?_place_of_notMem_openPositions (left : List Nat)
    (closed : formal ∉ openPositions formals taken) :
    (place taken ((openPositions formals taken).zip left))[formal]? = taken[formal]? := by
  refine getElem?_place_of_notMem fun member => closed ?_
  rw [map_fst_zip] at member
  exact List.mem_of_mem_take member

/-- The open parameters take the actuals left, one after the other. -/
theorem getElem?_place_openPositions (length_eq : taken.length = formals.length) (left : List Nat)
    {k : Nat} (at_k : (openPositions formals taken)[k]? = some formal) :
    (place taken ((openPositions formals taken).zip left))[formal]? = some left[k]? := by
  have lt := (mem_openPositions (List.mem_of_getElem? at_k)).1
  cases at_left : left[k]? with
  | some actual =>
    have member : (formal, actual) ∈ (openPositions formals taken).zip left := by
      refine List.mem_of_getElem? (i := k) ?_
      simp [List.getElem?_zip_eq_some, at_k, at_left]
    refine getElem?_place_of_mem ?_ member (length_eq ▸ lt)
    rw [map_fst_zip]
    exact nodup_openPositions.sublist (List.take_sublist _ _)
  | none =>
    have spent : left.length ≤ k := List.getElem?_eq_none_iff.mp at_left
    -- No position stands twice in the list, so this one is not among the first.
    have absent : formal ∉ ((openPositions formals taken).zip left).map Prod.fst := by
      rw [map_fst_zip, List.mem_iff_getElem?]
      rintro ⟨j, at_j⟩
      rw [List.getElem?_take, Option.ite_none_right_eq_some] at at_j
      have lt_k := (List.getElem?_eq_some_iff.mp at_k).1
      have same := (List.getElem?_inj lt_k nodup_openPositions).mp (at_k.trans at_j.2.symm)
      omega
    rw [getElem?_place_of_notMem absent]
    exact (getElem?_of_isOpen length_eq lt
      (mem_openPositions (List.mem_of_getElem? at_k)).2).2

/-- The actuals that come up for an open parameter are not named. -/
theorem label_eq_none_of_take {left : List Nat} {count k : Nat}
    (unnamed : (left.take count).findSome? (label labels) = none) (lt : k < count)
    (at_k : left[k]? = some actual) : label labels actual = none := by
  refine List.findSome?_eq_none_iff.mp unnamed actual (List.mem_of_getElem? (i := k) ?_)
  rw [List.getElem?_take, if_pos lt, at_k]

/-- What the naming passes have found stays in the binding, and they find every named actual
that is bound. -/
theorem getElem?_actuals_of_bind {binding : Binding}
    (named : abbreviated formals labels (exact formals labels) = .ok taken)
    (partway : Partway formals labels formals.length taken)
    (bound : Matching.bind formals labels = .ok binding) :
    (∀ formal actual : Nat, taken[formal]? = some (some actual) →
      binding.actuals[formal]? = some (some actual)) ∧
    ∀ (formal actual : Nat) (short : Symbol), binding.actuals[formal]? = some (some actual) →
      labels[actual]? = some (some short) → taken[formal]? = some (some actual) := by
  have length_eq := partway.matching.length_eq
  rw [bind_of_abbreviated named] at bound
  split at bound
  · cases bound
  next unnamed =>
  cases bound
  refine ⟨?_, ?_⟩
  -- The last pass fills only open parameters, and one with an actual is not open.
  · intro formal actual found
    have closed : formal ∉ openPositions formals taken := by
      intro member
      obtain ⟨lt, opened⟩ := mem_openPositions member
      simpa [found] using (getElem?_of_isOpen length_eq lt opened).2
    exact (getElem?_place_of_notMem_openPositions _ closed).trans found
  -- What the last pass gives to an open parameter has no name.
  · intro formal actual short here at_actual
    by_cases opened : formal ∈ openPositions formals taken
    · obtain ⟨k, at_k⟩ := List.mem_iff_getElem?.mp opened
      have at_left := (getElem?_place_openPositions length_eq _ at_k).symm.trans here
      have absent := label_eq_none_of_take unnamed (List.getElem?_eq_some_iff.mp at_k).1
        (Option.some.inj at_left)
      simp [label_eq_some_iff.mpr at_actual] at absent
    · exact (getElem?_place_of_notMem_openPositions _ opened).symm.trans here

/-- For all parameters, names and number of actuals: matching fails on ambiguous abbreviations
exactly when several actuals may mean one parameter or one actual may mean several, and then
the first contested parameter in declaration order is reported with the names of all actuals
that may mean it, in call order. If a binding is made, then an actual that is the first of a
parameter's exact name or that may mean it is bound to it, and no other named actual is bound
to any parameter. -/
theorem bind_resolves_names (formals : Formals) (names : List (Option Symbol)) (count : Nat) :
    let labels := Matching.labels names count
    ((∃ name shorts, Matching.bind formals labels = .error (.ambiguousMatch name shorts)) ↔
      (∃ formal, SeveralMean formals labels formal) ∨
        ∃ actual, MeansSeveral formals labels actual) ∧
    (∀ name shorts, Matching.bind formals labels = .error (.ambiguousMatch name shorts) →
      ∃ formal, FirstContested formals labels formal ∧ formals.names[formal]? = some name ∧
        Claimants formals labels formal shorts) ∧
    ∀ binding, Matching.bind formals labels = .ok binding →
      (∀ formal actual, ByName formals labels formal actual →
        binding.actuals[formal]? = some (some actual)) ∧
      ∀ formal actual short, binding.actuals[formal]? = some (some actual) →
        labels[actual]? = some (some short) → ByName formals labels formal actual := by
  intro labels
  rw [← exists_contested_iff]
  rcases abbreviated_outcome formals labels with
    ⟨taken, named, partway⟩ | ⟨formal, name, shorts, contested, here, claimants, failed⟩
  -- The naming passes went through to the end: no parameter is contested.
  · have unambiguous (name : Symbol) (shorts : List Symbol) :
        Matching.bind formals labels ≠ .error (.ambiguousMatch name shorts) := by
      rw [bind_of_abbreviated named]
      split <;> simp
    refine ⟨⟨?_, ?_⟩, fun name shorts failed => absurd failed (unambiguous name shorts), ?_⟩
    · rintro ⟨name, shorts, failed⟩
      exact absurd failed (unambiguous name shorts)
    · rintro ⟨formal, contested⟩
      have lt : formal < formals.length := by
        rcases contested with ⟨_, _, -, means, -⟩ | ⟨_, means, -, -⟩ <;> exact means.lt
      exact absurd contested (partway.calm formal lt)
    · intro binding bound
      obtain ⟨kept, only⟩ := getElem?_actuals_of_bind named partway bound
      exact ⟨fun formal actual found => kept formal actual (partway.byName_iff.mpr found),
        fun formal actual short here at_actual =>
          partway.byName_iff.mp (only formal actual short here at_actual)⟩
  -- They stopped at the first contested parameter, with the names that claim it.
  · have outcome : Matching.bind formals labels = .error (.ambiguousMatch name shorts) :=
      andThen_eq_error.mpr (.inl failed)
    refine ⟨⟨fun _ => ⟨formal, contested.1⟩, fun _ => ⟨name, shorts, outcome⟩⟩, ?_, ?_⟩
    · intro name shorts failed'
      cases outcome.symm.trans failed'
      exact ⟨formal, contested, here, claimants⟩
    · intro binding bound
      cases outcome.symm.trans bound

/-- A function of two parameters whose names begin alike, before and after the marker. -/
def alikeFormals : Formals where
  function := "alike"
  params := [⟨"value", true⟩, ⟨"...", false⟩, ⟨"valid", false⟩]
  nodup := by decide
  dots_optional := by decide

theorem bind_resolves_names_alike :
    let torn := Matching.labels [some "val"] 1
    let settled := Matching.labels [some "val", some "value"] 2
    (∃ formal, FirstContested alikeFormals torn formal ∧
      alikeFormals.names[formal]? = some "value" ∧ Claimants alikeFormals torn formal ["val"]) ∧
    [some 1, none, some 0][0]? = some (some 1) ∧
    ByName alikeFormals settled 2 0 := by
  have bound : Matching.bind alikeFormals (Matching.labels [some "val", some "value"] 2) =
      .ok ⟨[some 1, none, some 0], [], []⟩ := rfl
  refine ⟨?_, ?_, ?_⟩
  · exact (bind_resolves_names alikeFormals [some "val"] 1).2.1 "value" ["val"] rfl
  · refine ((bind_resolves_names alikeFormals [some "val", some "value"] 2).2.2 _ bound).1 0 1 ?_
    exact .inl ⟨"value", rfl, by decide, rfl, by decide⟩
  · exact ((bind_resolves_names alikeFormals [some "val", some "value"] 2).2.2 _ bound).2 2 0 "val"
      rfl rfl

end Matching

end Vectorial
