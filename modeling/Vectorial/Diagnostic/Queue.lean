import Vectorial.Diagnostic.Basic

/-!
# The queue of diagnostics

Records are kept in the order in which they are emitted. A queue may drop a record that
is already there, and may stop taking errors after a number of them.

## Main definitions

* `Queue.Settings`: the limit on errors, and whether repetitions are dropped;
* `Queue`: the records taken since the last flush;
* `Queue.emit`: one more record, taken or dropped;
* `Queue.flush`: the records, and an empty queue.
-/

namespace Vectorial

namespace Queue

/-- Which records a queue takes. -/
structure Settings where
  /-- How many errors are taken; zero is no limit. -/
  limit : Nat := 10
  /-- Whether a record that is already queued is dropped. -/
  deduplicate : Bool := true
  deriving DecidableEq, Inhabited

/-- Everything is taken. -/
def Settings.unlimited : Settings :=
  ⟨0, false⟩

end Queue

/-- The records taken since the last flush, in order, and how many of them are errors. -/
structure Queue where
  settings : Queue.Settings := {}
  records : List Diagnostic := []
  errors : Nat := 0
  deriving DecidableEq, Inhabited

namespace Queue

variable (queue : Queue)

/-- An empty queue. -/
def empty (settings : Settings) : Queue :=
  { settings }

/-- Whether no further error is taken. -/
def limitReached : Bool :=
  0 < queue.settings.limit && queue.settings.limit ≤ queue.errors

/-- Offers one record. The answer says whether it was taken; an error past the limit and,
where repetitions are dropped, a record equal to a queued one are not. -/
def emit (record : Diagnostic) : Bool × Queue :=
  if record.isError && queue.limitReached then (false, queue)
  else if queue.settings.deduplicate && queue.records.contains record then (false, queue)
  else
    (true,
      { queue with
        records := queue.records ++ [record]
        errors := if record.isError then queue.errors + 1 else queue.errors })

/-- All records, and the queue without them. -/
def flush : List Diagnostic × Queue :=
  (queue.records, { queue with records := [], errors := 0 })

end Queue

end Vectorial
