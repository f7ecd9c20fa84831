import Mathlib.Data.List.Nodup
import Vectorial.Argument
import Vectorial.Proofs.Value.Elements

/-!
# Choosing an option by a beginning of it

An option may be named in full or by a beginning that no other option has. A text that is an
option names that one, also where it begins others: it is looked for before any beginning is.

An abbreviation that is accepted may be spelled out. A longer beginning of the option that it
names is the beginning of no option but this one, unless it is an option itself; and then it
begins with the abbreviation, which says that it is this one again.

## Main definitions

* `Value.IsText`: a value that is a single text, stored or computed;
* `Choice.Unsettled`: texts that are no option and begin none, or more than one.

## Main results

* `Choice.find_of_option`: an option is found where it stands;
* `Choice.find_extend`: an abbreviation that is spelled out;
* `Choice.find_eq_none_iff`: the texts that name no option;
* `Choice.parse_stable`: the same for the value of an argument.
-/

namespace Vectorial

/-- The value is the single text `text`. -/
structure Value.IsText (v : Value) (text : String) : Prop where
  kind : v.kind = .atomic .character
  size : v.size = 1
  element : v.elementAs .character 0 = some text

theorem Value.isText_ofText (text : String) : (Value.ofText text).IsText text :=
  ⟨rfl, rfl, rfl⟩

namespace Choice

variable {choice : Choice} {text longer option : String} {index : Nat}

/-! ### Beginnings -/

theorem mem_completions : index ∈ choice.completions text ↔
    ∃ option, choice.options[index]? = some option ∧ text.toList <+: option.toList := by
  rw [completions, List.mem_filter, List.mem_range]
  constructor
  · rintro ⟨-, begun⟩
    obtain ⟨option, listed, begins⟩ := (Option.any_eq_true _ _).mp begun
    exact ⟨option, listed, List.isPrefixOf_iff_prefix.mp begins⟩
  · rintro ⟨option, listed, begins⟩
    refine ⟨(List.getElem?_eq_some_iff.mp listed).1, (Option.any_eq_true _ _).mpr ?_⟩
    exact ⟨option, listed, List.isPrefixOf_iff_prefix.mpr begins⟩

theorem nodup_completions (choice : Choice) (text : String) : (choice.completions text).Nodup :=
  List.nodup_range.filter _

/-- A longer text begins fewer options. -/
theorem completions_anti (extending : text.toList <+: longer.toList) :
    choice.completions longer ⊆ choice.completions text := by
  intro index begun
  obtain ⟨option, listed, begins⟩ := mem_completions.mp begun
  exact mem_completions.mpr ⟨option, listed, extending.trans begins⟩

/-- The only option that a text begins. -/
theorem completions_eq_singleton_iff : choice.completions text = [index] ↔
    ∀ other, other ∈ choice.completions text ↔ other = index := by
  constructor
  · intro only other
    rw [only, List.mem_singleton]
  · intro only
    exact List.perm_singleton.mp ((List.perm_ext_iff_of_nodup (nodup_completions choice text)
      (List.nodup_singleton index)).mpr fun other => (only other).trans List.mem_singleton.symm)

/-! ### Finding -/

/-- The text is no option, and it begins no option or several. -/
def Unsettled (choice : Choice) (text : String) : Prop :=
  text ∉ choice.options ∧
    ((∀ option ∈ choice.options, ¬ text.toList <+: option.toList) ∨
      ∃ first ∈ choice.options, ∃ second ∈ choice.options, first ≠ second ∧
        text.toList <+: first.toList ∧ text.toList <+: second.toList)

/-- Where a text is that is an option. -/
theorem listed_of_idxOf? (exactly : choice.options.idxOf? text = some index) :
    choice.options[index]? = some text := by
  obtain ⟨inside, here, -⟩ := List.idxOf?_eq_some_iff.mp exactly
  exact List.getElem?_eq_some_iff.mpr ⟨inside, here⟩

theorem find_eq_some_iff : choice.find text = some index ↔
    choice.options.idxOf? text = some index ∨
      text ∉ choice.options ∧ choice.completions text = [index] := by
  rw [find]
  cases exactly : choice.options.idxOf? text with
  | some exact =>
    have listed : text ∈ choice.options := List.mem_of_getElem? (listed_of_idxOf? exactly)
    exact ⟨.inl, fun either => either.resolve_right fun other => other.1 listed⟩
  | none =>
    have unlisted : text ∉ choice.options := List.idxOf?_eq_none_iff.mp exactly
    constructor
    · intro found
      dsimp only at found
      split at found
      · next only completes =>
        cases found
        exact .inr ⟨unlisted, completes⟩
      · cases found
    · rintro (never | ⟨-, completes⟩)
      · cases never
      · dsimp only
        rw [completes]

/-- An option is found where it stands. -/
theorem find_of_option (distinct : choice.options.Nodup)
    (listed : choice.options[index]? = some option) : choice.find option = some index := by
  obtain ⟨inside, here⟩ := List.getElem?_eq_some_iff.mp listed
  refine find_eq_some_iff.mpr (.inl (List.idxOf?_eq_some_iff.mpr ⟨inside, here, ?_⟩))
  intro earlier before same
  exact Nat.ne_of_lt before (distinct.getElem_inj_iff.mp (same.trans here.symm))

/-- The option that was found begins with the text. -/
theorem mem_completions_of_find (found : choice.find text = some index) :
    index ∈ choice.completions text := by
  obtain exactly | ⟨-, only⟩ := find_eq_some_iff.mp found
  · exact mem_completions.mpr ⟨text, listed_of_idxOf? exactly, List.prefix_rfl⟩
  · exact only ▸ List.mem_singleton_self index

/-- Spelling an abbreviation out does not change the option that is found. -/
theorem find_extend (found : choice.find text = some index)
    (listed : choice.options[index]? = some option) (extending : text.toList <+: longer.toList)
    (begins : longer.toList <+: option.toList) : choice.find longer = some index := by
  have begun : index ∈ choice.completions longer := mem_completions.mpr ⟨option, listed, begins⟩
  obtain exactly | ⟨-, only⟩ := find_eq_some_iff.mp found
  · -- The text is the option itself and cannot be spelled out any further.
    obtain rfl : text = option :=
      Option.some.inj ((listed_of_idxOf? exactly).symm.trans listed)
    obtain rfl : text = longer :=
      String.toList_inj.mp (extending.eq_of_length_le begins.length_le)
    exact found
  · have alone {other : Nat} (also : other ∈ choice.completions longer) : other = index :=
      List.mem_singleton.mp (only ▸ completions_anti extending also)
    cases exactly : choice.options.idxOf? longer with
    | some exact =>
      have found : choice.find longer = some exact := find_eq_some_iff.mpr (.inl exactly)
      rw [found, alone (mem_completions_of_find found)]
    | none =>
      refine find_eq_some_iff.mpr (.inr ⟨List.idxOf?_eq_none_iff.mp exactly, ?_⟩)
      exact completions_eq_singleton_iff.mpr fun other => ⟨alone, fun same => same ▸ begun⟩

/-- The texts that name no option. -/
theorem find_eq_none_iff (distinct : choice.options.Nodup) :
    choice.find text = none ↔ choice.Unsettled text := by
  constructor
  · intro none_found
    have unlisted : text ∉ choice.options := by
      intro listed
      obtain ⟨index, listed⟩ := List.mem_iff_getElem?.mp listed
      rw [find_of_option distinct listed] at none_found
      cases none_found
    refine ⟨unlisted, ?_⟩
    -- A single option that the text begins would have been found.
    match completes : choice.completions text with
    | [] =>
      refine .inl fun option member begins => ?_
      obtain ⟨index, listed⟩ := List.mem_iff_getElem?.mp member
      have begun := mem_completions.mpr ⟨option, listed, begins⟩
      rw [completes] at begun
      cases begun
    | [only] =>
      rw [find_eq_some_iff.mpr (.inr ⟨unlisted, completes⟩)] at none_found
      cases none_found
    | one :: another :: others =>
      have differ : one ≠ another :=
        List.ne_of_not_mem_cons (completes ▸ choice.nodup_completions text).notMem
      obtain ⟨first, listed, begins⟩ := mem_completions.mp
        (completes ▸ List.mem_cons_self : one ∈ choice.completions text)
      obtain ⟨second, listed', begins'⟩ := mem_completions.mp
        (completes ▸ List.mem_cons_of_mem _ List.mem_cons_self :
          another ∈ choice.completions text)
      refine .inr ⟨first, List.mem_of_getElem? listed, second, List.mem_of_getElem? listed', ?_,
        begins, begins'⟩
      rintro rfl
      have inside := (List.getElem?_eq_some_iff.mp listed).1
      exact differ ((List.getElem?_inj inside distinct).mp (listed.trans listed'.symm))
  · rintro ⟨unlisted, unclear⟩
    refine Option.eq_none_iff_forall_ne_some.mpr fun index found => ?_
    have only : choice.completions text = [index] := by
      obtain exactly | ⟨-, only⟩ := find_eq_some_iff.mp found
      · exact absurd (List.mem_of_getElem? (listed_of_idxOf? exactly)) unlisted
      · exact only
    -- So two different options that the text begins would stand in one place.
    have alone {option : String} (member : option ∈ choice.options)
        (begins : text.toList <+: option.toList) : choice.options[index]? = some option := by
      obtain ⟨position, listed⟩ := List.mem_iff_getElem?.mp member
      obtain rfl : position = index :=
        List.mem_singleton.mp (only ▸ mem_completions.mpr ⟨option, listed, begins⟩)
      exact listed
    obtain none_begun | ⟨first, member, second, member', differ, begins, begins'⟩ := unclear
    · obtain ⟨option, listed, begins⟩ := mem_completions.mp (mem_completions_of_find found)
      exact none_begun option (List.mem_of_getElem? listed) begins
    · exact differ (Option.some.inj ((alone member begins).symm.trans (alone member' begins')))

/-! ### Parsing -/

variable {v w : Value}

/-- The value of an argument names what its text names, and is refused where the text names
nothing. -/
theorem outcome_parse (single : v.IsText text) : (choice.parse v).outcome =
    match choice.find text with
    | some index => .ok index
    | none => .error (.error { cause := .notOneOf choice.arg choice.options }) := by
  have present : ¬ v.isNull := by
    intro isNull
    cases v with
    | null => cases single.size
    | _ => cases isNull
  have inside : 0 < v.size := single.size ▸ Nat.one_pos
  have read : (v.atomAt 0 .character).value = some text :=
    (Value.value_atomAt inside).trans single.element
  -- All three checks are passed, and what is left is the reading of the text.
  rw [parse, if_neg present, if_neg (not_not.mpr single.kind), if_neg (not_not.mpr single.size),
    Value.atomWithin, if_pos inside, Attempt.outcome_lift_bind, read]
  dsimp only [Option.bind_some]
  cases choice.find text with
  | some index => rfl
  | none => rfl

theorem outcome_parse_eq_ok_iff (single : v.IsText text) :
    (choice.parse v).outcome = .ok index ↔ choice.find text = some index := by
  rw [outcome_parse single]
  cases choice.find text with
  | some found => simp
  | none => simp

/-- Abbreviations of options are stable. Each option names itself, whatever else it begins. A
text that is accepted begins the option that it names, and every longer beginning of this
option names it too. A text is refused where it is no option and begins none of them, or
more than one, and is accepted everywhere else. -/
theorem parse_stable (distinct : choice.options.Nodup) :
    (∀ index option v, choice.options[index]? = some option → v.IsText option →
      (choice.parse v).outcome = .ok index) ∧
    (∀ text v index, v.IsText text → (choice.parse v).outcome = .ok index →
      ∃ option, choice.options[index]? = some option ∧ text.toList <+: option.toList ∧
        ∀ longer w, w.IsText longer → text.toList <+: longer.toList →
          longer.toList <+: option.toList → (choice.parse w).outcome = .ok index) ∧
    (∀ text v, v.IsText text →
      ((choice.parse v).outcome =
          .error (.error { cause := .notOneOf choice.arg choice.options }) ↔
        choice.Unsettled text) ∧
      ((∃ index, (choice.parse v).outcome = .ok index) ↔ ¬ choice.Unsettled text)) := by
  refine ⟨?options, ?abbreviations, ?refusals⟩
  case options =>
    intro index option v listed single
    exact (outcome_parse_eq_ok_iff single).mpr (find_of_option distinct listed)
  case abbreviations =>
    intro text v index single named
    have found := (outcome_parse_eq_ok_iff single).mp named
    obtain ⟨option, listed, begins⟩ := mem_completions.mp (mem_completions_of_find found)
    refine ⟨option, listed, begins, fun longer w single' extending begins' => ?_⟩
    exact (outcome_parse_eq_ok_iff single').mpr (find_extend found listed extending begins')
  case refusals =>
    intro text v single
    rw [← find_eq_none_iff distinct, outcome_parse single]
    cases choice.find text with
    | some index => simp
    | none => simp

/-- Three options that begin each other, and one that begins with a letter of its own: the
middle one names itself, its beginnings are those of all three, and `d` can be spelled out. -/
theorem parse_stable_nested :
    let choice : Choice := ⟨"mode", ["a", "ab", "abc", "double"]⟩
    choice.options.Nodup ∧
      (choice.parse (.ofText "ab")).outcome = .ok 1 ∧
      (choice.parse (.ofText "doub")).outcome = .ok 3 ∧
      (choice.parse (.ofText "")).outcome =
        .error (.error { cause := .notOneOf "mode" ["a", "ab", "abc", "double"] }) := by
  have distinct : (⟨"mode", ["a", "ab", "abc", "double"]⟩ : Choice).options.Nodup := by decide
  obtain ⟨options, abbreviations, refusals⟩ := parse_stable distinct
  refine ⟨distinct, ?_, ?_, ?_⟩
  · exact options 1 "ab" _ rfl (Value.isText_ofText "ab")
  · have short : (Choice.parse ⟨"mode", ["a", "ab", "abc", "double"]⟩ (.ofText "d")).outcome =
        .ok 3 := by decide
    obtain ⟨option, listed, -, extended⟩ := abbreviations "d" _ 3 (Value.isText_ofText "d") short
    cases listed
    exact extended "doub" _ (Value.isText_ofText "doub") (by decide) (by decide)
  · refine ((refusals "" _ (Value.isText_ofText "")).1).mpr ⟨by decide, .inr ?_⟩
    exact ⟨"a", by decide, "ab", by decide, by decide, by decide, by decide⟩

end Choice

end Vectorial
