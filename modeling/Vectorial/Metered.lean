/-!
# Reading with counters

Reading a vector has no effect on any value, but a counting view counts how often it is
read and how often it is read as a whole. A metered result is a value together with the
counter events that produced it, in order. What is read never depends on the counters.

## Main definitions

* `Tick`: one event of one counter;
* `Metered`: a value with the events that reading it caused;
* `Trace`: the two counters of a counting view.
-/

namespace Vectorial

/-- The name of a counting view's counters. -/
abbrev TraceId := Nat

/-- A counter event: one element read, or all elements produced at once. -/
inductive Tick where
  | read (id : TraceId)
  | fill (id : TraceId)
  deriving DecidableEq

/-- The counters that an event belongs to. -/
def Tick.id : Tick → TraceId
  | read id => id
  | fill id => id

/-- A value with the counter events that reading it caused, in order. -/
structure Metered (α : Type) where
  value : α
  ticks : List Tick := []

namespace Metered

/-- The event `tick` and nothing else. -/
def tick (tick : Tick) : Metered Unit :=
  ⟨(), [tick]⟩

instance : Monad Metered where
  pure a := ⟨a, []⟩
  bind m f :=
    let next := f m.value
    ⟨next.value, match m.ticks with | [] => next.ticks | ticks => ticks ++ next.ticks⟩

variable {α β : Type}

@[simp]
theorem value_pure (a : α) : (pure a : Metered α).value = a :=
  rfl

@[simp]
theorem ticks_pure (a : α) : (pure a : Metered α).ticks = [] :=
  rfl

@[simp]
theorem value_bind (m : Metered α) (f : α → Metered β) :
    (m >>= f).value = (f m.value).value :=
  rfl

@[simp]
theorem ticks_bind (m : Metered α) (f : α → Metered β) :
    (m >>= f).ticks = m.ticks ++ (f m.value).ticks := by
  show (match m.ticks with | [] => (f m.value).ticks | ticks => ticks ++ (f m.value).ticks) = _
  cases m.ticks <;> rfl

@[ext]
theorem ext_value_ticks {m n : Metered α} (hv : m.value = n.value) (ht : m.ticks = n.ticks) :
    m = n := by
  cases m; cases n; simp_all

instance : LawfulMonad Metered :=
  LawfulMonad.mk' Metered
    (fun m => by
      apply ext_value_ticks
      · rfl
      · show (m >>= fun a => pure (id a)).ticks = m.ticks
        simp)
    (fun a f => by apply ext_value_ticks <;> simp)
    (fun m f g => by apply ext_value_ticks <;> simp)

@[simp]
theorem value_map (f : α → β) (m : Metered α) : (f <$> m).value = f m.value :=
  rfl

/-- Readings made one after the other give what each of them gives. -/
theorem value_mapM (read : α → Metered β) (sources : List α) :
    (sources.mapM read).value = sources.map fun source => (read source).value := by
  induction sources with
  | nil => rfl
  | cons source rest ih =>
    rw [List.mapM_cons, List.map_cons, ← ih]
    rfl

end Metered

/-- How often a counting view was read, and how often it was produced as a whole. -/
structure Trace where
  reads : Nat := 0
  fills : Nat := 0
  deriving DecidableEq, Inhabited

/-- The counters after one more event. -/
def Trace.after (trace : Trace) : Tick → Trace
  | .read _ => ⟨trace.reads + 1, trace.fills⟩
  | .fill _ => ⟨trace.reads, trace.fills + 1⟩

end Vectorial
