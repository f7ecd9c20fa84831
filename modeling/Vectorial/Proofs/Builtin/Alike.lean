import Vectorial.Heap.Work

/-!
# Two operations side by side

Two operations on values are alike if they deliver related results or end in the same fault.
Which counters they advance is left open. Operations that take identities for new lists must
also take the same ones.

Operations that are made of alike operations in the same way are alike.

## Main definitions

* `Likewise`: related results, or the same error;
* `Attempt.Alike`, `Operation.Alike`: attempts and operations with such outcomes.
-/

namespace Vectorial

variable {α β γ δ ε : Type}

/-- Two results that are related, or twice the same error. -/
inductive Likewise (Q : α → β → Prop) : Except ε α → Except ε β → Prop where
  | ok {a : α} {b : β} (related : Q a b) : Likewise Q (.ok a) (.ok b)
  | error (e : ε) : Likewise Q (.error e) (.error e)

namespace Likewise

theorem refl {Q : α → α → Prop} (same : ∀ a, Q a a) : ∀ x : Except ε α, Likewise Q x x
  | .ok a => .ok (same a)
  | .error e => .error e

/-- The second result is the first one changed. -/
theorem of_map {f : α → β} {x : Except ε α} {y : Except ε β} (same : y = x.map f) :
    Likewise (fun a b => b = f a) x y := by
  subst same
  cases x with
  | ok a => exact .ok rfl
  | error e => exact .error e

theorem mono {Q R : α → β → Prop} (weaker : ∀ a b, Q a b → R a b) {x : Except ε α} {y : Except ε β}
    (likewise : Likewise Q x y) : Likewise R x y := by
  cases likewise with
  | ok related => exact .ok (weaker _ _ related)
  | error e => exact .error e

/-- Two results that are both like a third one are like each other. -/
theorem join {Q : α → γ → Prop} {R : β → γ → Prop} {S : α → β → Prop}
    (joined : ∀ a b c, Q a c → R b c → S a b) {x : Except ε α} {y : Except ε β} {z : Except ε γ}
    (first : Likewise Q x z) (second : Likewise R y z) : Likewise S x y := by
  cases first with
  | ok related =>
    cases second with
    | ok related' => exact .ok (joined _ _ _ related related')
  | error e =>
    cases second with
    | error => exact .error e

end Likewise

/-! ### Attempts -/

namespace Attempt

/-- Attempts with alike outcomes. -/
def Alike (Q : α → β → Prop) (attempt : Attempt α) (other : Attempt β) : Prop :=
  Likewise Q (Metered.value attempt) (Metered.value other)

namespace Alike

variable {Q : α → β → Prop} {R : γ → δ → Prop} {attempt : Attempt α} {other : Attempt β}

theorem pure {a : α} {b : β} (related : Q a b) : Alike Q (Pure.pure a) (Pure.pure b) :=
  Likewise.ok related

theorem fault (fault : Fault) : Alike Q (throw fault : Attempt α) (throw fault : Attempt β) :=
  Likewise.error _

theorem refl {Q : α → α → Prop} (same : ∀ a, Q a a) (attempt : Attempt α) :
    Alike Q attempt attempt :=
  Likewise.refl same _

theorem bind {next : α → Attempt γ} {further : β → Attempt δ} (first : Alike Q attempt other)
    (second : ∀ a b, Q a b → Alike R (next a) (further b)) :
    Alike R (attempt >>= next) (other >>= further) := by
  change Likewise R (Metered.value (attempt >>= ExceptT.bindCont next : Metered (Except Fault γ)))
    (Metered.value (other >>= ExceptT.bindCont further : Metered (Except Fault δ)))
  rw [Metered.value_bind, Metered.value_bind]
  unfold Alike at first
  generalize Metered.value attempt = outcome at first
  generalize Metered.value other = outcome' at first
  cases first with
  | ok related => exact second _ _ related
  | error fault => exact .error fault

theorem ofMetered {reading : Metered α} {reading' : Metered β}
    (related : Q reading.value reading'.value) : Alike Q (monadLift reading) (monadLift reading') :=
  Likewise.ok related

theorem ofExcept {ε : Type} {fault : ε → Fault} {x : Except ε α} {y : Except ε β}
    (likewise : Likewise Q x y) : Alike Q (Attempt.ofExcept fault x) (Attempt.ofExcept fault y) := by
  cases likewise with
  | ok related => exact .pure related
  | error e => exact .fault _

end Alike

end Attempt

/-! ### Operations -/

namespace Operation

/-- Operations with alike outcomes that take the same identities for lists. -/
def Alike (Q : α → β → Prop) (operation : Operation α) (other : Operation β) : Prop :=
  ∀ next, Attempt.Alike (fun result result' => Q result.1 result'.1 ∧ result'.2 = result.2)
    (operation next) (other next)

namespace Alike

variable {Q : α → β → Prop} {R : γ → δ → Prop} {operation : Operation α} {other : Operation β}

theorem pure {a : α} {b : β} (related : Q a b) : Alike Q (Pure.pure a) (Pure.pure b) :=
  fun _ => .pure ⟨related, rfl⟩

theorem bind {next : α → Operation γ} {further : β → Operation δ} (first : Alike Q operation other)
    (second : ∀ a b, Q a b → Alike R (next a) (further b)) :
    Alike R (operation >>= next) (other >>= further) := by
  refine fun free => (first free).bind ?_
  rintro ⟨a, later⟩ ⟨b, _⟩ ⟨related, rfl⟩
  exact second a b related _

theorem lift {attempt : Attempt α} {other : Attempt β} (alike : Attempt.Alike Q attempt other) :
    Alike Q (monadLift attempt) (monadLift other) :=
  fun _ => alike.bind fun _ _ related => .pure ⟨related, rfl⟩

theorem liftMetered {reading : Metered α} {reading' : Metered β}
    (related : Q reading.value reading'.value) : Alike Q (monadLift reading) (monadLift reading') :=
  .lift (.ofMetered related)

theorem fault (fault : Fault) : Alike Q (monadLift (throw fault : Attempt α))
    (monadLift (throw fault : Attempt β)) :=
  .lift (.fault fault)

theorem refl (operation : Operation α) : Alike Eq operation operation :=
  fun _ => .refl (fun _ => ⟨rfl, rfl⟩) _

/-- One operation for each of some sources, whose operations are alike in turn. -/
theorem mapM {operation : α → Operation γ} {other : β → Operation δ} {f : α → β} {g : γ → δ}
    (each : ∀ a, Alike (fun c c' => c' = g c) (operation a) (other (f a))) (sources : List α) :
    Alike (fun results results' => results' = results.map g) (sources.mapM operation)
      ((sources.map f).mapM other) := by
  induction sources with
  | nil => exact .pure rfl
  | cons source rest ih =>
    rw [List.map_cons, List.mapM_cons, List.mapM_cons]
    refine (each source).bind fun first _ same => ih.bind fun others _ same' => .pure ?_
    rw [same, same', List.map_cons]

end Alike

end Operation

end Vectorial
