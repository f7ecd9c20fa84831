import Vectorial.Builtin.Registry
import Vectorial.Operator.Binary
import Vectorial.Proofs.Value.Closures

/-!
# What operators and builtins hand out

An operator delivers no closures at all. A builtin may hand closures on, but the standard
ones never make one: whatever closure is in their result was in one of the actuals.

## Main definitions

* `Attempt.Delivers`, `Operation.Delivers`: a property of every result;
* `Builtin.HandsOn`, `Registry.HandsOn`: no closure in a result but those of the actuals.

## Main results

* `Value.closures_binary`: operators deliver no closures;
* `Registry.standard_handsOn`: the standard builtins only hand closures on.
-/

namespace Vectorial

variable {α β : Type}

/-! ### Results of attempts and operations -/

/-- Whatever the attempt delivers has the property. -/
def Attempt.Delivers (attempt : Attempt α) (P : α → Prop) : Prop :=
  ∀ a, Metered.value attempt = .ok a → P a

/-- Whatever the operation delivers has the property, whichever identities are free. -/
def Operation.Delivers (operation : Operation α) (P : α → Prop) : Prop :=
  ∀ next, Attempt.Delivers (operation next) fun result => P result.1

namespace Attempt

variable {P : α → Prop} {Q : β → Prop}

theorem Delivers.pure {a : α} (holds : P a) : Delivers (Pure.pure a) P := by
  rintro _ ⟨⟩
  exact holds

theorem Delivers.fault (fault : Fault) : Delivers (throw fault : Attempt α) P :=
  fun _ delivered => nomatch delivered

theorem Delivers.bind {attempt : Attempt α} {next : α → Attempt β}
    (first : Delivers attempt P) (second : ∀ a, P a → Delivers (next a) Q) :
    Delivers (attempt >>= next) Q := by
  intro b delivered
  change Metered.value (attempt >>= ExceptT.bindCont next : Metered (Except Fault β)) = _
    at delivered
  rw [Metered.value_bind] at delivered
  cases outcome : Metered.value attempt with
  | error fault => rw [outcome] at delivered; cases delivered
  | ok a =>
    rw [outcome] at delivered
    exact second a (first a outcome) b delivered

theorem Delivers.ofMetered {reading : Metered α} (holds : P reading.value) :
    Delivers (monadLift reading) P := by
  rintro _ ⟨⟩
  exact holds

theorem Delivers.ofExcept {ε : Type} {fault : ε → Fault} {result : Except ε α}
    (holds : ∀ a, result = .ok a → P a) : Delivers (Attempt.ofExcept fault result) P := by
  cases result with
  | ok a => exact .pure (holds a rfl)
  | error e => exact .fault _

theorem Delivers.trivial (attempt : Attempt α) : Delivers attempt fun _ => True :=
  fun _ _ => .intro

/-- Where every continuation delivers, it does not matter what is delivered first. -/
theorem Delivers.after {attempt : Attempt α} {next : α → Attempt β}
    (each : ∀ a, Delivers (next a) Q) : Delivers (attempt >>= next) Q :=
  (trivial attempt).bind fun a _ => each a

end Attempt

namespace Operation

variable {P : α → Prop} {Q : β → Prop}

theorem Delivers.pure {a : α} (holds : P a) : Delivers (Pure.pure a) P :=
  fun _ => .pure holds

theorem Delivers.bind {operation : Operation α} {next : α → Operation β}
    (first : Delivers operation P) (second : ∀ a, P a → Delivers (next a) Q) :
    Delivers (operation >>= next) Q :=
  fun free => (first free).bind fun result holds => second result.1 holds result.2

theorem Delivers.lift {attempt : Attempt α} (delivers : attempt.Delivers P) :
    Delivers (monadLift attempt) P :=
  fun _ => delivers.bind fun _ holds => .pure holds

theorem Delivers.liftMetered {reading : Metered α} (holds : P reading.value) :
    Delivers (monadLift reading) P :=
  .lift (.ofMetered holds)

/-- Where every continuation delivers, it does not matter what is delivered first. -/
theorem Delivers.after {operation : Operation α} {next : α → Operation β}
    (each : ∀ a, Delivers (next a) Q) : Delivers (operation >>= next) Q :=
  fun free => (Attempt.Delivers.trivial (operation free)).bind fun result _ =>
    each result.1 result.2

theorem Delivers.fault (fault : Fault) : Delivers (monadLift (throw fault : Attempt α)) P :=
  .lift (.fault fault)

/-- One operation for each source: every result comes from one of them. -/
theorem Delivers.mapM {operation : α → Operation β} {Q : α → β → Prop}
    (each : ∀ a, Delivers (operation a) (Q a)) (sources : List α) :
    Delivers (sources.mapM operation) fun results => ∀ b ∈ results, ∃ a ∈ sources, Q a b := by
  induction sources with
  | nil => exact .pure fun _ held => nomatch held
  | cons source rest ih =>
    rw [List.mapM_cons]
    refine (each source).bind fun first holds => ih.bind fun others hold => .pure ?_
    rintro b (_ | ⟨_, later⟩)
    · exact ⟨source, List.mem_cons_self, holds⟩
    · obtain ⟨a, member, related⟩ := hold b later
      exact ⟨a, List.mem_cons_of_mem _ member, related⟩

end Operation

/-! ### Operators -/

namespace Value

theorem closures_arithmetic (op : BinaryOp) (left right : Value) :
    (arithmetic op left right).Delivers fun v => v.closures = [] := by
  have combined (kind : ElementKind) (f : kind.Carrier → kind.Carrier → kind.Carrier) :
      Attempt.Delivers (monadLift (combine kind f left right)) fun v => v.closures = [] :=
    .ofMetered rfl
  rw [arithmetic]
  split
  · exact combined _ _
  · exact combined _ _
  · exact combined _ _
  · exact .fault _

theorem closures_between {start stop : Binary64} {v : Value}
    (made : between start stop = .ok v) : v.closures = [] := by
  simp only [between] at made
  generalize (if start.le stop then (1 : Int32) else -1) = step at made
  split at made
  · split at made
    · exact closures_upTo made
    · exact closures_sequence made
  · split at made
    · cases made
    · cases made
      rfl

theorem closures_colon (start stop : Value) :
    (start.colon stop).Delivers fun v => v.closures = [] :=
  .after fun _ => .after fun _ => .ofExcept fun _ made => closures_between made

theorem closures_member (needles haystack : Value) :
    (needles.member haystack).Delivers fun v => v.closures = [] := by
  rw [member]
  split
  · exact .pure rfl
  · exact .after fun _ => .pure rfl
  · exact .fault _

/-- The result of an operator holds no closures. -/
theorem closures_binary (op : BinaryOp) (left right : Value) :
    (Value.binary op left right).Delivers fun v => v.closures = [] := by
  unfold Value.binary
  split
  · exact closures_colon left right
  · exact closures_member left right
  · exact closures_arithmetic _ left right

end Value

/-! ### Builtins -/

/-- Every closure in a result of the builtin is in one of the actuals. -/
def Builtin.HandsOn (builtin : Builtin) : Prop :=
  ∀ arguments, (builtin.run arguments).Delivers fun v => v.closures ⊆ arguments.actuals.closures

/-- No registered builtin makes closures of its own. -/
def Registry.HandsOn (registry : Registry) : Prop :=
  ∀ builtin ∈ registry.builtins, builtin.HandsOn

namespace Arguments

variable (arguments : Arguments)

theorem absorbed_closures : arguments.absorbed.closures ⊆ arguments.actuals.closures := by
  intro c held
  simp only [Parts.closures, List.mem_flatMap, absorbed, List.mem_filterMap] at held ⊢
  obtain ⟨part, ⟨position, -, found⟩, inside⟩ := held
  exact ⟨part, List.mem_of_getElem? found, inside⟩

end Arguments

namespace Builtin

variable (arguments : Arguments)

/-- A vector without closures may be given names. -/
private theorem delivers_named {names : Option (List (Option String))} {v : Value}
    {P : Value → Prop} (holds : ∀ named : Value, named.closures = v.closures → P named) :
    Operation.Delivers
      (match names with
        | some names => monadLift (Attempt.ofDefect (v.withNames names))
        | none => Pure.pure v) P := by
  cases names with
  | none => exact .pure (holds v rfl)
  | some names => exact .lift (.ofExcept fun _ made => holds _ (Value.closures_withNames made))

theorem combine_closures :
    (combine arguments).Delivers fun v => v.closures ⊆ arguments.actuals.closures := by
  rw [combine]
  dsimp only
  split
  · exact .pure fun _ held => nomatch held
  · split
    · exact .fault _
    · exact .pure fun _ held => nomatch held
    · refine .after fun elements => delivers_named ?_
      intro named same
      rw [same]
      exact fun _ held => nomatch held
    -- Only a list can hold closures: each item comes from one of the parts that are put together.
    · refine (Operation.Delivers.mapM (Q := fun part items => items = part.2.items.value)
        (fun part => .liftMetered rfl) _).bind fun items collected => ?_
      refine .after fun id => delivers_named ?_
      intro named same c held
      rw [same, Value.closures_ofItems, mem_closuresOfItems] at held
      obtain ⟨item, member, inside⟩ := held
      obtain ⟨listed_items, listed, member⟩ := List.mem_flatten.mp member
      obtain ⟨part, absorbed, rfl⟩ := collected _ listed
      apply arguments.absorbed_closures
      exact List.mem_flatMap.mpr ⟨part, absorbed, Value.closures_items member inside⟩

theorem makeList_closures :
    (makeList arguments).Delivers fun v => v.closures ⊆ arguments.actuals.closures := by
  refine .after fun id => .pure ?_
  rw [Value.closures_ofParts]
  exact arguments.absorbed_closures

theorem length_closures :
    (length arguments).Delivers fun v => v.closures ⊆ arguments.actuals.closures :=
  .after fun _ => .pure fun _ held => nomatch held

theorem isMissing_closures :
    (isMissing arguments).Delivers fun v => v.closures ⊆ arguments.actuals.closures := by
  refine .after fun x => ?_
  split
  · exact .pure fun _ held => nomatch held
  · refine .after fun elements => ?_
    refine .after fun flags => delivers_named ?_
    intro named same
    rw [same]
    exact fun _ held => nomatch held

theorem sequence_closures :
    (sequence arguments).Delivers fun v => v.closures ⊆ arguments.actuals.closures := by
  rw [sequence]
  refine .after fun _ => ?_
  refine .after fun start => ?_
  refine .after fun _ => ?_
  refine .after fun stop => ?_
  refine .after fun third => ?_
  dsimp only
  split
  -- The step may be given or left out; what is made of it is the same.
  all_goals
    refine .after fun step => ?_
    split
    · exact .fault _
    · split
      · exact .fault _
      · refine .lift (.ofExcept fun v made => ?_)
        rw [Value.closures_sequence made]
        exact List.nil_subset _

theorem zeros_closures :
    (zeros arguments).Delivers fun v => v.closures ⊆ arguments.actuals.closures := by
  -- Everything after the mode is known, which may be given or left out.
  have finish (mode : Nat) : Operation.Delivers (do
      let length ← lengthOrZero (← arguments.arg 1)
      let kind ← kindOfMode mode
      let id ← Operation.freshStorage
      pure (Value.zeroed id kind length))
      fun v => v.closures ⊆ arguments.actuals.closures := by
    refine .after fun _ => ?_
    refine .after fun length => ?_
    refine .after fun kind => ?_
    refine .after fun id => .pure ?_
    rw [Value.closures_zeroed]
    exact List.nil_subset _
  rw [zeros]
  refine .after fun _ => ?_
  dsimp only
  split
  all_goals exact .after fun mode => finish mode

end Builtin

/-- The standard builtins make no closures of their own. -/
theorem Registry.standard_handsOn : Registry.standard.HandsOn := by
  intro builtin member arguments
  simp only [standard, variadic, unary, List.mem_cons, List.not_mem_nil, or_false] at member
  rcases member with rfl | rfl | rfl | rfl | rfl | rfl
  · exact Builtin.combine_closures arguments
  · exact Builtin.makeList_closures arguments
  · exact Builtin.length_closures arguments
  · exact Builtin.isMissing_closures arguments
  · exact Builtin.sequence_closures arguments
  · exact Builtin.zeros_closures arguments

end Vectorial
