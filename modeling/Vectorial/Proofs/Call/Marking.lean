import Vectorial.Proofs.Call.Naming

/-!
# Matching with marks

Matching may also be done with a mark for every actual that is taken. The first pass goes through
the actuals and looks for the parameter of each name, the second one looks among the actuals
without a mark, and the last one goes through the actuals again, beside a position in the
parameters that only moves on. The marks say nothing that the parameters do not: an actual has its
mark when some parameter has the actual. So the outcome is the same, in every call.

## Main definitions

* `Matching.Marked`: the actuals of the parameters, and the marks of the actuals;
* `Matching.Marked.giveByName`, `Matching.Marked.giveByAbbreviation`, `Matching.giveInOrder`: a
  step of each naming pass, and the last pass;
* `Matching.byMarking`: all three;
* `Matching.Marked.of`: the marks that belong to what the parameters have.

## Main results

* `Matching.exact_snoc`: what one more actual changes in the first pass;
* `Matching.Marked.giveByName_of`, `Matching.Marked.giveByAbbreviation_of`: a step of each naming
  pass, and `Matching.foldl_giveByName`, `Matching.foldlM_giveByAbbreviation` the whole of it;
* `Matching.giveInOrder_eq`: the last pass;
* `Matching.byMarking_eq`: matching with marks is matching.
-/

namespace Vectorial.Matching

/-! ### Giving actuals to parameters -/

/-- The actuals of the parameters so far, and for each actual whether a parameter has it. -/
structure Marked where
  taken : Taken
  used : List Bool

/-- Whether there is an actual and it has no mark. -/
def isFree (used : List Bool) (actual : Nat) : Bool :=
  used[actual]? == some false

namespace Marked

variable (formals : Formals) (labels : List (Option Symbol)) (marked : Marked)

/-- No parameter has an actual, and no actual has a mark. -/
def start : Marked :=
  ⟨List.replicate formals.length none, List.replicate labels.length false⟩

/-- A parameter gets an actual, which gets a mark. -/
def give (formal actual : Nat) : Marked :=
  ⟨marked.taken.set formal (some actual), marked.used.set actual true⟩

/-- The parameter of its exact name gets the actual if it is open. -/
def giveByName (actual : Nat) : Marked :=
  match (label labels actual).bind formals.position with
  | none => marked
  | some formal => if isOpen formals marked.taken formal then marked.give formal actual else marked

/-- An open parameter gets the only free actual that abbreviates its name. -/
def giveByAbbreviation (formal : Nat) : Except Cause Marked :=
  if !isOpen formals marked.taken formal then .ok marked
  else
    let name := formals.names.getD formal ""
    let choices := (List.range labels.length).filter fun actual =>
      isFree marked.used actual && (label labels actual).any fun short => short.abbreviates name
    match choices with
    | [] => .ok marked
    | [actual] =>
      let short := (label labels actual).getD ""
      if meansAnother formals marked.taken formal short then .error (.ambiguousMatch name [short])
      else .ok (marked.give formal actual)
    | several => .error (.ambiguousMatch name (several.filterMap (label labels)))

end Marked

/-- The first parameter from a position on that is the marker or has no actual. -/
def nextOpen (formals : Formals) (taken : Taken) (formal : Nat) : Nat :=
  if formal < formals.length ∧ formals.dotsIndex ≠ some formal ∧ (taken[formal]?.join).isSome then
    nextOpen formals taken (formal + 1)
  else formal
termination_by formals.length - formal

/-- The free ones of some actuals go to the parameters from a position on, one after the other.
From the marker on they are absorbed, and past the last parameter they are unused. -/
def giveInOrder (formals : Formals) (labels : List (Option Symbol)) (used : List Bool) :
    List Nat → Nat → Binding → Except Cause Binding
  | [], _, binding => .ok binding
  | actual :: rest, next, binding =>
    if !isFree used actual then giveInOrder formals labels used rest next binding
    else
      let formal := nextOpen formals binding.actuals next
      if formals.length ≤ formal then
        giveInOrder formals labels used rest formal
          { binding with unused := binding.unused ++ [actual] }
      else if formals.dotsIndex = some formal then
        giveInOrder formals labels used rest formal
          { binding with dots := binding.dots ++ [actual] }
      else
        match label labels actual with
        | some name => .error (.unmatchedName formals.function name)
        | none =>
          giveInOrder formals labels used rest (formal + 1)
            { binding with actuals := binding.actuals.set formal (some actual) }

/-- Matching with a mark for every actual that is taken. -/
def byMarking (formals : Formals) (labels : List (Option Symbol)) : Except Cause Binding := do
  let named := (List.range labels.length).foldl (Marked.giveByName formals labels)
    (.start formals labels)
  let marked ← (List.range formals.length).foldlM (Marked.giveByAbbreviation formals labels) named
  giveInOrder formals labels marked.used (List.range labels.length) 0 ⟨marked.taken, [], []⟩

variable {formals : Formals} {labels : List (Option Symbol)} {taken : Taken}
  {formal actual next : Nat}

/-! ### The marks -/

/-- The actuals that parameters have, with the marks that belong to them. -/
def Marked.of (labels : List (Option Symbol)) (taken : Taken) : Marked :=
  ⟨taken, (List.range labels.length).map fun actual => taken.contains (some actual)⟩

theorem isFree_of (given : actual < labels.length) :
    isFree (Marked.of labels taken).used actual = !taken.contains (some actual) := by
  rw [isFree, Marked.of, List.getElem?_map, List.getElem?_range given, Option.map_some]
  cases taken.contains (some actual) <;> rfl

/-- Looking for marks finds the actuals that remain. -/
theorem filter_isFree_of (labels : List (Option Symbol)) (taken : Taken) (choice : Nat → Bool) :
    (List.range labels.length).filter
        (fun actual => isFree (Marked.of labels taken).used actual && choice actual) =
      (remaining labels taken).filter choice := by
  rw [remaining, List.filter_filter]
  refine List.filter_congr fun actual listed => ?_
  rw [isFree_of (List.mem_range.mp listed), Bool.and_comm]

/-- A parameter that gets an actual adds its mark to the marks. -/
theorem Marked.give_of (free : taken[formal]? = some none) :
    (Marked.of labels taken).give formal actual =
      .of labels (taken.set formal (some actual)) := by
  have contains_set (other : Nat) : (taken.set formal (some actual)).contains (some other) =
      (other == actual || taken.contains (some other)) := by
    rw [Bool.eq_iff_iff, List.contains_iff_mem, Bool.or_eq_true, List.contains_iff_mem, beq_iff_eq,
      ← List.reduceOption_mem_iff, ← List.reduceOption_mem_iff, (reduceOption_set free).mem_iff,
      List.mem_cons]
  refine congrArg (Marked.mk _) (List.ext_getElem? fun other => ?_)
  simp only [Marked.of, List.getElem?_set, List.length_map, List.length_range, List.getElem?_map,
    contains_set]
  by_cases given : other < labels.length
  · rw [List.getElem?_range given]
    by_cases same : actual = other
    · simp [same, given]
    · simp [same, Ne.symm same]
  · by_cases same : actual = other <;> simp [same, given]

/-! ### The first pass -/

theorem getElem?_exact (formals : Formals) (labels : List (Option Symbol)) (formal : Nat) :
    (exact formals labels)[formal]? = formals.names[formal]?.map fun name =>
      if name.isDots then none else labels.idxOf? (some name) := by
  rw [exact, List.getElem?_map, Formals.names, List.getElem?_map, Option.map_map]
  rfl

/-- A name is found among one more actuals where it was found before, or in the last one. -/
theorem idxOf?_snoc (front : List (Option Symbol)) (last : Option Symbol) (name : Symbol) :
    (front ++ [last]).idxOf? (some name) =
      (front.idxOf? (some name)).or (if last = some name then some front.length else none) := by
  have found : (front ++ [last]).findIdx? (· == some name) = _ := List.findIdx?_append
  simp [List.idxOf?, found]

/-- After the first pass a parameter is open if it is ordinary and no actual has its name. -/
theorem isOpen_exact {name : Symbol} (here : formals.names[formal]? = some name) :
    isOpen formals (exact formals labels) formal =
      (!name.isDots && (labels.idxOf? (some name)).isNone) := by
  have ordinary : (formals.dotsIndex != some formal) = !name.isDots := by
    rw [Bool.eq_iff_iff, bne_iff_ne, ← names_ne_dots_iff here]
    simp [Symbol.isDots]
  rw [isOpen, ordinary, getElem?_exact, here, Option.map_some, Option.join_some]
  cases name.isDots <;> rfl

/-- One more actual is taken by the parameter of its name, if there is one and it is open. -/
theorem exact_snoc (formals : Formals) (front : List (Option Symbol)) (last : Option Symbol) :
    exact formals (front ++ [last]) =
      match last.bind formals.position with
      | none => exact formals front
      | some formal =>
        if isOpen formals (exact formals front) formal then
          (exact formals front).set formal (some front.length)
        else exact formals front := by
  -- A parameter of another name finds what it found before.
  have unchanged (formal : Nat) (apart : ∀ name, formals.names[formal]? = some name →
      last ≠ some name) : (exact formals (front ++ [last]))[formal]? =
        (exact formals front)[formal]? := by
    rw [getElem?_exact, getElem?_exact]
    cases here : formals.names[formal]? with
    | none => rfl
    | some name => simp [idxOf?_snoc, apart name here]
  refine List.ext_getElem? fun formal => ?_
  cases place : last.bind formals.position with
  | none =>
    refine unchanged formal fun name here => ?_
    rintro rfl
    exact List.idxOf?_eq_none_iff.mp place (List.mem_of_getElem? here)
  | some other =>
    obtain ⟨name, rfl, at_other⟩ := Option.bind_eq_some_iff.mp place
    obtain ⟨inside, named, -⟩ := List.idxOf?_eq_some_iff.mp at_other
    have here : formals.names[other]? = some name := List.getElem?_eq_some_iff.mpr ⟨inside, named⟩
    by_cases same : other = formal
    · subst same
      have entry := getElem?_exact formals front other
      have later := getElem?_exact formals (front ++ [some name]) other
      rw [here, Option.map_some] at entry later
      have room := (List.getElem?_eq_some_iff.mp entry).1
      rw [later, idxOf?_snoc, if_pos rfl]
      dsimp only
      rw [isOpen_exact here]
      -- The marker takes nothing, and what is found earlier stays.
      cases marked : name.isDots with
      | true => simp [entry, marked]
      | false =>
        cases found : front.idxOf? (some name) with
        | some earlier => simp [entry, marked, found]
        | none => simp [room]
    · rw [unchanged formal fun other_name there => ?apart]
      · dsimp only
        split
        · rw [List.getElem?_set_ne same]
        · rfl
      case apart =>
        rintro ⟨⟩
        obtain ⟨inside', named'⟩ := List.getElem?_eq_some_iff.mp there
        exact same (formals.nodup.getElem_inj_iff.mp (named.trans named'.symm))

theorem Marked.giveByName_of (given : actual < labels.length) :
    Marked.giveByName formals labels (.of labels (exact formals (labels.take actual))) actual =
      .of labels (exact formals (labels.take (actual + 1))) := by
  have label_eq : label labels actual = labels[actual] := by
    rw [label, List.getElem?_eq_getElem given, Option.join_some]
  have length_eq : (labels.take actual).length = actual :=
    List.length_take_of_le (Nat.le_of_lt given)
  rw [List.take_succ_eq_append_getElem given, exact_snoc, Marked.giveByName, label_eq, length_eq]
  cases place : labels[actual].bind formals.position with
  | none => rfl
  | some formal =>
    dsimp only
    by_cases opened : isOpen formals (exact formals (labels.take actual)) formal
    · obtain ⟨name, -, at_name⟩ := Option.bind_eq_some_iff.mp place
      have inside : formal < formals.names.length := (List.idxOf?_eq_some_iff.mp at_name).1
      rw [formals.length_names] at inside
      have free := (getElem?_of_isOpen (isMatching_exact formals _).length_eq inside opened).2
      rw [if_pos opened, ← Marked.give_of free]
      exact if_pos opened
    · rw [if_neg opened]
      exact if_neg opened

/-- After the first pass the parameters have what they find on their own. -/
theorem foldl_giveByName (formals : Formals) (count : Nat) (inside : count ≤ labels.length) :
    (List.range count).foldl (Marked.giveByName formals labels) (.start formals labels) =
      .of labels (exact formals (labels.take count)) := by
  induction count with
  | zero =>
    have nothing : exact formals [] = List.replicate formals.length none := by
      simp [exact, Formals.length]
    rw [List.take_zero, nothing]
    simp [Marked.start, Marked.of]
  | succ count ih =>
    rw [List.range_succ, List.foldl_append, ih (Nat.le_of_succ_le inside)]
    exact Marked.giveByName_of inside

/-! ### The second pass -/

theorem Marked.giveByAbbreviation_of (matching : IsMatching formals labels.length taken)
    (lt : formal < formals.length) :
    Marked.giveByAbbreviation formals labels (.of labels taken) formal =
      (abbreviate formals labels taken formal).map (.of labels) := by
  have same_taken : (Marked.of labels taken).taken = taken := rfl
  rw [Marked.giveByAbbreviation, abbreviate, same_taken]
  by_cases opened : isOpen formals taken formal
  · obtain ⟨-, free⟩ := getElem?_of_isOpen matching.length_eq lt opened
    have choices := filter_isFree_of labels taken fun actual =>
      (label labels actual).any fun short => short.abbreviates (formals.names.getD formal "")
    rw [← candidates] at choices
    simp only [opened, Bool.not_true, Bool.false_eq_true, if_false, choices]
    rcases candidates labels taken (formals.names.getD formal "") with _ | ⟨actual, _ | _⟩
    · rfl
    · dsimp only
      split
      · rfl
      · rw [Marked.give_of free]
        rfl
    · rfl
  · rw [Bool.not_eq_true] at opened
    rw [opened]
    rfl

theorem foldlM_giveByAbbreviation (matching : IsMatching formals labels.length taken)
    {positions : List Nat} (within : ∀ formal ∈ positions, formal < formals.length) :
    positions.foldlM (Marked.giveByAbbreviation formals labels) (.of labels taken) =
      (positions.foldlM (abbreviate formals labels) taken).map (.of labels) := by
  induction positions generalizing taken with
  | nil => rfl
  | cons formal rest ih =>
    rw [List.foldlM_cons, List.foldlM_cons, Marked.giveByAbbreviation_of matching
      (within formal List.mem_cons_self)]
    cases done : abbreviate formals labels taken formal with
    | error cause => rfl
    | ok after =>
      exact ih (matching.abbreviate (within formal List.mem_cons_self) done)
        fun other listed => within other (List.mem_cons_of_mem _ listed)

/-! ### The last pass -/

/-- The open parameters from a position on that stand before the marker. -/
def openFrom (formals : Formals) (taken : Taken) (formal : Nat) : List Nat :=
  (List.range' formal (formals.leading - formal)).filter (isOpen formals taken)

theorem openFrom_of_lt (before : formal < formals.leading) : openFrom formals taken formal =
    if isOpen formals taken formal then formal :: openFrom formals taken (formal + 1)
    else openFrom formals taken (formal + 1) := by
  have more : formals.leading - formal = formals.leading - (formal + 1) + 1 := by omega
  rw [openFrom, more, List.range'_succ, List.filter_cons, openFrom]

theorem openFrom_leading : openFrom formals taken formals.leading = [] := by
  rw [openFrom, Nat.sub_self]
  rfl

theorem dotsIndex_ne_of_lt (before : formal < formals.leading) :
    formals.dotsIndex ≠ some formal := by
  intro at_marker
  rw [Formals.leading, at_marker] at before
  exact Nat.lt_irrefl formal before

/-- The next parameter is the first open one, or else all before the marker have actuals. -/
theorem nextOpen_spec (taken : Taken) (within : next ≤ formals.leading) :
    nextOpen formals taken next ≤ formals.leading ∧
      openFrom formals taken next =
        if nextOpen formals taken next < formals.leading then
          nextOpen formals taken next :: openFrom formals taken (nextOpen formals taken next + 1)
        else [] := by
  induction next using nextOpen.induct formals taken with
  | case1 formal passed ih =>
    obtain ⟨inside, ordinary, has⟩ := passed
    have before : formal < formals.leading := by
      refine Nat.lt_of_le_of_ne within fun same => ?_
      rw [Formals.leading] at same
      cases at_marker : formals.dotsIndex with
      | none => rw [at_marker] at same; exact Nat.ne_of_lt inside same
      | some marker => rw [at_marker] at same ordinary; exact ordinary (congrArg some same.symm)
    have closed : ¬ isOpen formals taken formal := by
      simp [isOpen, Option.isSome_iff_ne_none.mp has]
    rw [nextOpen, if_pos ⟨inside, ordinary, has⟩, openFrom_of_lt before, if_neg closed]
    exact ih before
  | case2 formal stops =>
    rw [nextOpen, if_neg stops]
    refine ⟨within, ?_⟩
    by_cases before : formal < formals.leading
    · have ordinary := dotsIndex_ne_of_lt before
      have opened : isOpen formals taken formal := by
        have inside := Nat.lt_of_lt_of_le before formals.leading_le
        have none_yet := fun has => stops ⟨inside, ordinary, has⟩
        simpa [isOpen, ordinary] using none_yet
      rw [if_pos before, openFrom_of_lt before, if_pos opened]
    · rw [if_neg before, Nat.le_antisymm within (Nat.le_of_not_lt before), openFrom_leading]

/-- Going through the actuals deals out those without a mark. -/
theorem giveInOrder_eq (taken : Taken) (actuals : List Nat)
    (given : ∀ actual ∈ actuals, actual < labels.length) (within : next ≤ formals.leading)
    (binding : Binding) :
    giveInOrder formals labels (Marked.of labels taken).used actuals next binding =
      positional formals labels (actuals.filter fun actual => !taken.contains (some actual))
        (openFrom formals binding.actuals next) binding := by
  induction actuals generalizing next binding with
  | nil => rw [giveInOrder, List.filter_nil, positional]
  | cons actual rest ih =>
    have given_rest := fun other listed => given other (List.mem_cons_of_mem _ listed)
    rw [giveInOrder, isFree_of (given actual List.mem_cons_self), List.filter_cons]
    cases has : taken.contains (some actual) with
    | true => exact ih given_rest within binding
    | false =>
      obtain ⟨reached, spec⟩ := nextOpen_spec binding.actuals within
      simp only [Bool.not_false, Bool.not_true, Bool.false_eq_true, if_false, if_true]
      rw [spec]
      generalize nextOpen formals binding.actuals next = formal at reached
      by_cases before : formal < formals.leading
      · -- The actual comes up for an open parameter.
        have inside := Nat.lt_of_lt_of_le before formals.leading_le
        have ordinary := dotsIndex_ne_of_lt before
        rw [if_pos before, if_neg (Nat.not_le_of_lt inside), if_neg ordinary, positional]
        cases label labels actual with
        | some name => rfl
        | none =>
          have later : openFrom formals (binding.actuals.set formal (some actual)) (formal + 1) =
              openFrom formals binding.actuals (formal + 1) := by
            refine List.filter_congr fun other listed => ?_
            have apart : formal ≠ other := Nat.ne_of_lt (List.mem_range'_1.mp listed).1
            rw [isOpen, isOpen, List.getElem?_set_ne apart]
          rw [← later]
          exact ih given_rest before _
      · -- No parameter before the marker is open any more.
        obtain rfl : formal = formals.leading := Nat.le_antisymm reached (Nat.le_of_not_lt before)
        have others (binding : Binding) := ih given_rest (Nat.le_refl formals.leading) binding
        simp only [openFrom_leading] at others
        rw [if_neg before, positional, others, others]
        cases at_marker : formals.dotsIndex with
        | none =>
          have past : formals.length ≤ formals.leading := by
            rw [Formals.leading, at_marker, Option.getD_none]
          rw [if_pos past]
          rfl
        | some marker =>
          have leading_eq : formals.leading = marker := by
            rw [Formals.leading, at_marker, Option.getD_some]
          have inside := Formals.lt_of_getElem?_names (Formals.getElem?_names_dotsIndex at_marker)
          rw [leading_eq, if_neg (Nat.not_le_of_lt inside), if_pos rfl]
          rfl

/-- Matching with marks is matching. -/
theorem byMarking_eq (formals : Formals) (labels : List (Option Symbol)) :
    byMarking formals labels = bind formals labels := by
  have named := foldl_giveByName formals labels.length (Nat.le_refl _)
  rw [List.take_length] at named
  have abbreviations := foldlM_giveByAbbreviation (isMatching_exact formals labels)
    fun formal (listed : formal ∈ List.range formals.length) => List.mem_range.mp listed
  rw [byMarking, bind, named, abbreviated, abbreviations]
  cases (List.range formals.length).foldlM (abbreviate formals labels) (exact formals labels) with
  | error cause => rfl
  | ok taken =>
    have dealt := giveInOrder_eq taken (List.range labels.length) (fun actual => List.mem_range.mp)
      (Nat.zero_le formals.leading) ⟨taken, [], []⟩
    have opened : openPositions formals taken = openFrom formals taken 0 := by
      rw [openPositions_eq, openFrom, Nat.sub_zero, List.range_eq_range']
    change giveInOrder formals labels _ _ _ _ = positional formals labels _ _ _
    rw [opened]
    exact dealt

end Vectorial.Matching
