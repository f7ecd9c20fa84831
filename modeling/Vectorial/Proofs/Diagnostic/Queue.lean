import Mathlib.Data.List.Induction
import Vectorial.Diagnostic.Queue

/-!
# What a queue has kept

A queue decides about every record when it comes, by what it has kept so far: an error is dropped
when as many errors are kept as the limit says, and where repetitions are dropped a record that is
kept already. Over a whole history this comes to the same as two passes over all records since the
last flush, of which the first drops repetitions and the second the errors after the first ones. For
if a record that comes again was dropped by the limit, then it is an error and the limit has been
reached since.

## Main definitions

* `Queue.Step`, `Queue.after`: emitting and flushing, and a queue after a history of them;
* `Queue.sinceFlush`: the records that were emitted since the last flush;
* `Queue.firstErrors`, `Queue.Settings.kept`: the two passes.

## Main results

* `Queue.Settings.kept_snoc`: what one more record adds to what is kept;
* `Queue.tallies_after`: what a queue holds after a history;
* `Queue.records_of_history`: the two passes, the answers and the flushes.
-/

namespace Vectorial

/-- A last element that is new is the last one of those that occur. -/
theorem eraseDups_snoc {α : Type} [DecidableEq α] (l : List α) (a : α) :
    (l ++ [a]).eraseDups = if a ∈ l then l.eraseDups else l.eraseDups ++ [a] := by
  rw [List.eraseDups_append, List.removeAll]
  split
  · next old => simp [old]
  · next new =>
    have left : [a].filter (fun b => !l.elem b) = [a] := by simp [new]
    rw [left]
    rfl

namespace Queue

variable {settings : Settings} {records emitted : List Diagnostic} {record : Diagnostic}
  {allowed : Nat}

/-! ### Histories -/

/-- What is done with a queue. -/
inductive Step where
  | emit (record : Diagnostic)
  | flush

/-- The queue after a step. -/
def step (queue : Queue) : Step → Queue
  | .emit record => (queue.emit record).2
  | .flush => queue.flush.2

/-- A queue with these settings after the steps of a history. -/
def after (settings : Settings) (history : List Step) : Queue :=
  history.foldl step (empty settings)

/-- The records that were emitted since the last flush. -/
def sinceFlush (history : List Step) : List Diagnostic :=
  history.foldl (fun emitted step =>
    match step with
    | .emit record => emitted ++ [record]
    | .flush => []) []

theorem after_snoc (settings : Settings) (history : List Step) (last : Step) :
    after settings (history ++ [last]) = (after settings history).step last := by
  rw [after, List.foldl_append]
  rfl

theorem sinceFlush_emit (history : List Step) (record : Diagnostic) :
    sinceFlush (history ++ [.emit record]) = sinceFlush history ++ [record] := by
  rw [sinceFlush, List.foldl_append]
  rfl

theorem sinceFlush_flush (history : List Step) : sinceFlush (history ++ [.flush]) = [] := by
  rw [sinceFlush, List.foldl_append]
  rfl

/-! ### The first errors -/

/-- The records without the errors that come after the first `allowed` ones. -/
def firstErrors : Nat → List Diagnostic → List Diagnostic
  | _, [] => []
  | allowed, record :: rest =>
    if record.isError then
      match allowed with
      | 0 => firstErrors 0 rest
      | allowed + 1 => record :: firstErrors allowed rest
    else record :: firstErrors allowed rest

theorem firstErrors_cons_of_not_isError (other : ¬record.isError) :
    firstErrors allowed (record :: records) = record :: firstErrors allowed records := by
  cases allowed <;> exact if_neg other

/-- As many errors are left as are allowed, and the first ones of all. -/
theorem filter_firstErrors (allowed : Nat) (records : List Diagnostic) :
    (firstErrors allowed records).filter Diagnostic.isError =
      (records.filter Diagnostic.isError).take allowed := by
  fun_induction firstErrors allowed records with
  | case1 => simp
  | case2 record rest error ih => simp [error, ih]
  | case3 record rest error allowed ih => simp [error, ih]
  | case4 allowed record rest other ih => simp [other, ih]

/-- Nothing else is left out, and the order is kept. -/
theorem filter_not_firstErrors (allowed : Nat) (records : List Diagnostic) :
    (firstErrors allowed records).filter (fun record => !record.isError) =
      records.filter fun record => !record.isError := by
  fun_induction firstErrors allowed records with
  | case1 => rfl
  | case2 record rest error ih => simp [error, ih]
  | case3 record rest error allowed ih => simp [error, ih]
  | case4 allowed record rest other ih => simp [other, ih]

theorem firstErrors_sublist (allowed : Nat) (records : List Diagnostic) :
    (firstErrors allowed records).Sublist records := by
  fun_induction firstErrors allowed records with
  | case1 => exact .slnil
  | case2 record rest error ih => exact ih.cons _
  | case3 record rest error allowed ih => exact ih.cons_cons _
  | case4 allowed record rest other ih => exact ih.cons_cons _

theorem firstErrors_snoc (allowed : Nat) (records : List Diagnostic) (last : Diagnostic) :
    firstErrors allowed (records ++ [last]) =
      if last.isError ∧ allowed ≤ (firstErrors allowed records).countP Diagnostic.isError then
        firstErrors allowed records
      else firstErrors allowed records ++ [last] := by
  fun_induction firstErrors allowed records with
  | case1 allowed => cases allowed <;> by_cases error : last.isError <;> simp [firstErrors, error]
  | case2 record rest error ih => simpa [firstErrors, error] using ih
  | case3 record rest error allowed ih =>
    rw [List.cons_append, firstErrors, if_pos error, ih, List.countP_cons_of_pos error]
    simp only [Nat.succ_le_succ_iff]
    split <;> rfl
  | case4 allowed record rest other ih =>
    rw [List.cons_append, firstErrors_cons_of_not_isError other, ih, List.countP_cons_of_neg other]
    split <;> rfl

/-- A record is dropped only if it is an error and as many errors as are allowed are kept. -/
theorem mem_firstErrors_or (member : record ∈ records) :
    record ∈ firstErrors allowed records ∨
      record.isError ∧ allowed ≤ (firstErrors allowed records).countP Diagnostic.isError := by
  by_cases error : record.isError
  · have errors := filter_firstErrors allowed records
    by_cases few : (records.filter Diagnostic.isError).length ≤ allowed
    · rw [List.take_of_length_le few] at errors
      exact .inl (List.mem_filter.mp (errors ▸ List.mem_filter.mpr ⟨member, error⟩)).1
    · refine .inr ⟨error, ?_⟩
      rw [List.countP_eq_length_filter, errors, List.length_take]
      omega
  · have others := filter_not_firstErrors allowed records
    have listed : record ∈ records.filter fun record => !record.isError :=
      List.mem_filter.mpr ⟨member, by simpa using error⟩
    exact .inl (List.mem_filter.mp (others ▸ listed)).1

/-! ### The two passes -/

/-- The records without those that are equal to an earlier one, if repetitions are dropped. -/
def Settings.distinct (settings : Settings) (records : List Diagnostic) : List Diagnostic :=
  if settings.deduplicate then records.eraseDups else records

/-- The records without the errors that come after the first ones, if there is a limit. -/
def Settings.limited (settings : Settings) (records : List Diagnostic) : List Diagnostic :=
  if settings.limit = 0 then records else firstErrors settings.limit records

/-- What is kept of the emitted records: first repetitions are dropped, and then the errors that
come after as many as the limit says. -/
def Settings.kept (settings : Settings) (emitted : List Diagnostic) : List Diagnostic :=
  settings.limited (settings.distinct emitted)

/-- As many errors as the limit says are among these records. -/
def Settings.Reached (settings : Settings) (records : List Diagnostic) : Prop :=
  0 < settings.limit ∧ settings.limit ≤ records.countP Diagnostic.isError

instance (settings : Settings) (records : List Diagnostic) :
    Decidable (settings.Reached records) :=
  inferInstanceAs (Decidable (_ ∧ _))

theorem Settings.limited_snoc (settings : Settings) (records : List Diagnostic)
    (last : Diagnostic) :
    settings.limited (records ++ [last]) =
      if last.isError ∧ settings.Reached (settings.limited records) then settings.limited records
      else settings.limited records ++ [last] := by
  unfold limited Reached
  split
  · next unlimited =>
    rw [if_neg]
    exact fun dropped => Nat.ne_of_gt dropped.2.1 unlimited
  · next limit =>
    rw [firstErrors_snoc]
    exact if_congr (and_congr_right' (and_iff_right (Nat.pos_of_ne_zero limit)).symm) rfl rfl

theorem Settings.mem_limited_or (member : record ∈ records) :
    record ∈ settings.limited records ∨
      record.isError ∧ settings.Reached (settings.limited records) := by
  unfold limited Reached
  split
  · exact .inl member
  · next limit =>
    exact (mem_firstErrors_or member).imp_right fun dropped =>
      ⟨dropped.1, Nat.pos_of_ne_zero limit, dropped.2⟩

theorem Settings.limited_subset : settings.limited records ⊆ records := by
  unfold limited
  split
  · exact List.Subset.refl _
  · exact (firstErrors_sublist _ _).subset

/-- No more errors are kept than the limit says. -/
theorem Settings.countP_limited_le (limit : 0 < settings.limit) :
    (settings.limited records).countP Diagnostic.isError ≤ settings.limit := by
  rw [limited, if_neg (Nat.ne_of_gt limit), List.countP_eq_length_filter, filter_firstErrors]
  exact List.length_take_le _ _

/-- One more record is kept unless it is an error past the limit or, where repetitions are dropped,
is kept already. -/
theorem Settings.kept_snoc (settings : Settings) (emitted : List Diagnostic)
    (last : Diagnostic) :
    settings.kept (emitted ++ [last]) =
      if last.isError ∧ settings.Reached (settings.kept emitted) ∨
          settings.deduplicate ∧ last ∈ settings.kept emitted then settings.kept emitted
      else settings.kept emitted ++ [last] := by
  by_cases deduplicate : settings.deduplicate
  · have passes (records : List Diagnostic) :
        settings.kept records = settings.limited records.eraseDups := by
      rw [kept, distinct, if_pos deduplicate]
    rw [passes, passes, eraseDups_snoc]
    by_cases old : last ∈ emitted
    · -- A repetition that is not kept was dropped by the limit, which is still reached.
      have dropped := settings.mem_limited_or (List.mem_eraseDups.mpr old)
      rw [if_pos old, if_pos (dropped.symm.imp_right fun kept => ⟨deduplicate, kept⟩)]
    · have new : last ∉ settings.limited emitted.eraseDups := fun member =>
        old (List.mem_eraseDups.mp (settings.limited_subset member))
      rw [if_neg old, limited_snoc]
      exact if_congr (or_iff_left fun repeated => new repeated.2).symm rfl rfl
  · have passes (records : List Diagnostic) :
        settings.kept records = settings.limited records := by
      rw [kept, distinct, if_neg deduplicate]
    rw [passes, passes, limited_snoc]
    exact if_congr (or_iff_left fun repeated => deduplicate repeated.1).symm rfl rfl

/-! ### What a queue holds -/

/-- The queue holds what is kept of the emitted records, and has counted the errors among them. -/
structure Tallies (queue : Queue) (settings : Settings) (emitted : List Diagnostic) : Prop where
  settings_eq : queue.settings = settings
  records_eq : queue.records = settings.kept emitted
  errors_eq : queue.errors = queue.records.countP Diagnostic.isError

variable {queue : Queue}

theorem Tallies.limitReached_iff (tallies : queue.Tallies settings emitted) :
    queue.limitReached ↔ settings.Reached (settings.kept emitted) := by
  rw [limitReached, Bool.and_eq_true, decide_eq_true_eq, decide_eq_true_eq, tallies.errors_eq,
    tallies.settings_eq, tallies.records_eq]
  rfl

/-- A record is taken exactly if it is kept. -/
theorem Tallies.emit_cases (tallies : queue.Tallies settings emitted) (record : Diagnostic) :
    queue.emit record = (false, queue) ∧
        settings.kept (emitted ++ [record]) = settings.kept emitted ∨
      queue.emit record = (true, { queue with
        records := queue.records ++ [record]
        errors := if record.isError then queue.errors + 1 else queue.errors }) ∧
        settings.kept (emitted ++ [record]) = settings.kept emitted ++ [record] := by
  -- What the queue looks up for itself, in terms of the records kept so far.
  have past_limit : (record.isError && queue.limitReached) = true ↔
      record.isError ∧ settings.Reached (settings.kept emitted) := by
    rw [Bool.and_eq_true, tallies.limitReached_iff]
  have repeated : (queue.settings.deduplicate && queue.records.contains record) = true ↔
      settings.deduplicate ∧ record ∈ settings.kept emitted := by
    rw [Bool.and_eq_true, List.contains_iff_mem, tallies.settings_eq, tallies.records_eq]
  rw [Queue.emit, settings.kept_snoc]
  split
  · next past => exact .inl ⟨rfl, if_pos (.inl (past_limit.mp past))⟩
  · next within =>
    split
    · next old => exact .inl ⟨rfl, if_pos (.inr (repeated.mp old))⟩
    · next new =>
      refine .inr ⟨rfl, if_neg ?_⟩
      rintro (past | old)
      · exact within (past_limit.mpr past)
      · exact new (repeated.mpr old)

theorem Tallies.emit (tallies : queue.Tallies settings emitted) (record : Diagnostic) :
    (queue.emit record).2.Tallies settings (emitted ++ [record]) := by
  rcases tallies.emit_cases record with ⟨refused, same⟩ | ⟨taken, more⟩
  · rw [refused]
    exact { tallies with records_eq := tallies.records_eq.trans same.symm }
  · rw [taken]
    refine ⟨tallies.settings_eq, ?_, ?_⟩
    · rw [more, ← tallies.records_eq]
    · rw [List.countP_append, List.countP_singleton, ← tallies.errors_eq]
      dsimp only
      split <;> rfl

theorem tallies_empty (settings : Settings) : (empty settings).Tallies settings [] := by
  have none_kept : settings.kept [] = [] := by
    simp [Settings.kept, Settings.distinct, Settings.limited, firstErrors]
  exact ⟨rfl, none_kept.symm, rfl⟩

theorem Tallies.flush_eq (tallies : queue.Tallies settings emitted) :
    queue.flush = (queue.records, empty settings) := by
  rw [← tallies.settings_eq]
  rfl

/-- After any history a queue holds what is kept of the records since the last flush. -/
theorem tallies_after (settings : Settings) (history : List Step) :
    (after settings history).Tallies settings (sinceFlush history) := by
  induction history using List.reverseRecOn with
  | nil => exact tallies_empty settings
  | append_singleton history last ih =>
    rw [after_snoc]
    cases last with
    | emit record =>
      rw [sinceFlush_emit]
      exact ih.emit record
    | flush =>
      rw [sinceFlush_flush, step, ih.flush_eq]
      exact tallies_empty settings

/-- After every history of emits and flushes, a queue holds the records since the last flush without
those that are equal to an earlier one, where repetitions are dropped, and without the errors that
come after as many of these as the limit says, where there is one. It has counted the errors that it
holds, which are never more than the limit. One more record is answered with yes exactly if it is
queued, behind all others, and with no exactly if nothing changes. A flush gives the records and
leaves the queue empty. -/
theorem records_of_history (settings : Settings) (history : List Step) :
    (after settings history).records = settings.kept (sinceFlush history) ∧
    (after settings history).errors =
      (after settings history).records.countP Diagnostic.isError ∧
    (0 < settings.limit → (after settings history).errors ≤ settings.limit) ∧
    (∀ record,
      (((after settings history).emit record).1 = true ↔
        (after settings (history ++ [.emit record])).records =
          (after settings history).records ++ [record]) ∧
      (((after settings history).emit record).1 = false ↔
        after settings (history ++ [.emit record]) = after settings history)) ∧
    (after settings history).flush = ((after settings history).records, empty settings) := by
  have tallies := tallies_after settings history
  refine ⟨tallies.records_eq, tallies.errors_eq, fun limit => ?_, fun record => ?_,
    tallies.flush_eq⟩
  · rw [tallies.errors_eq, tallies.records_eq]
    exact Settings.countP_limited_le limit
  -- A refused record leaves the queue as it was, and a taken one makes it longer: no history shows
  -- both.
  · have longer (records : List Diagnostic) : records ≠ records ++ [record] := by simp
    rw [after_snoc, step]
    rcases tallies.emit_cases record with ⟨refused, -⟩ | ⟨taken, -⟩
    · rw [refused]
      exact ⟨iff_of_false Bool.false_ne_true (longer _), iff_of_true rfl rfl⟩
    · rw [taken]
      refine ⟨iff_of_true rfl rfl, iff_of_false nofun fun same => ?_⟩
      exact longer _ (congrArg Queue.records same).symm

/-- A limit of one, with an error twice and another one, a warning before and after the flush. -/
theorem records_of_history_limitOne :
    let failure : Diagnostic := { code := .tooFew, severity := .error, message := "a" }
    let other : Diagnostic := { code := .tooMany, severity := .error, message := "b" }
    let warning : Diagnostic := { code := .other, severity := .warning, message := "c" }
    let history : List Step := [.emit other, .flush, .emit warning, .emit failure, .emit failure,
      .emit other, .emit other, .emit warning]
    (after ⟨1, true⟩ history).records = [warning, failure] ∧
      (after ⟨1, true⟩ history).errors ≤ 1 := by
  intro failure other warning history
  obtain ⟨records, -, bounded, -⟩ := records_of_history ⟨1, true⟩ history
  exact ⟨records.trans (by decide), bounded Nat.one_pos⟩

end Queue

end Vectorial
