import Vectorial.Proofs.Evaluation.Origin
import Vectorial.Proofs.Operator.Colon
import Vectorial.Proofs.Parameters
import Vectorial.Proofs.Value.Absence

/-!
# The number of elements

A view has its elements without storing them, so a value may have more of them than the greatest
integer: from the least integer to the greatest one there are `2 ^ 32` numbers. Its size counts them
all. The builtin that answers with the size gives the greatest integer where the size is beyond it,
and the size itself otherwise.

## Main definitions

* `Value.ReadsAs`: a value is a single element that is this whole number if it is read as a double.

## Main results

* `Value.exists_get_iff`: the indices below the size are those of elements;
* `Value.exists_colon_size`: how many numbers there are from one whole number to another;
* `EvalM.eval_call_length`: the number of elements of an operand;
* `World.length_counts`: the same in every world, and for the numbers between two bounds;
* `World.length_stops_counting`: a view of one element too many.
-/

namespace Vectorial

namespace Binary64

variable {x : Binary64} {n : Int}

/-- The missing integer and what is below it are no integers. -/
theorem IsInteger.integral?_eq_none (whole : x.IsInteger n) (least : n ≤ -2147483648) :
    x.integral? = none := by
  have outside : ¬(-2147483648 < n ∧ n < 2147483648) := by omega
  rw [integral?, whole.truncated_eq, decide_eq_false outside, Bool.and_false]
  rfl

end Binary64

namespace Value

variable {v w : Value} {x y : Binary64} {a b n : Int} {index : Nat}

/-! ### Sizes -/

/-- There is an element at every index below the size, and at no other one. -/
theorem exists_get_iff : (∃ reading, v.get index = .ok reading) ↔ index < v.size := by
  constructor
  · rintro ⟨reading, found⟩
    exact (inside_of_get (congrArg (Except.map Metered.value) found)).1
  · exact fun inside => ⟨_, get_eq inside⟩

theorem size_addTrace (heap : Heap) (v : Value) : (heap.addTrace v).1.size = v.size := by
  rw [size_eq, size_eq, eager_addTrace]

/-- Between two integers, the least one included, there are one more numbers than their distance:
as terms of a view, or as doubles if one of the two is the missing integer. -/
theorem exists_between_size (whole : x.IsInteger a) (whole' : y.IsInteger b)
    (small : -2147483648 ≤ a ∧ a ≤ 2147483647) (small' : -2147483648 ≤ b ∧ b ≤ 2147483647) :
    ∃ numbers, between x y = .ok numbers ∧ numbers.size = (b - a).natAbs + 1 := by
  by_cases present : a.natAbs ≤ 2147483647 ∧ b.natAbs ≤ 2147483647
  · obtain ⟨view, terms, made, shows, enumerates⟩ :=
      exists_between_whole whole whole' present.1 present.2
    refine ⟨_, made, ?_⟩
    rw [size, Storage.size, shows.size_eq, enumerates.length_eq]
    split <;> simp
  · have few : (b - a).natAbs < Nat.pow 2 53 := by
      rw [show Nat.pow 2 53 = 9007199254740992 from rfl]
      omega
    have steps := whole.steps whole' few
    have upward : x.le y = decide (a ≤ b) := by
      rw [Bool.eq_iff_iff, whole.le_iff whole', decide_eq_true_eq]
    have last := whole.last whole' (by omega) (by omega)
    have stored : ¬doublesLimit ≤ (b - a).natAbs + 1 := by
      rw [doublesLimit, show Nat.pow 2 60 = 1152921504606846976 from rfl]
      omega
    rw [between]
    simp only [upward, decide_eq_true_eq, steps.truncated_eq, Int.toNat_natCast, steps.finite,
      Bool.not_true, Bool.false_or, stored, decide_false, Bool.false_eq_true, if_false]
    split
    · next first last' found found' =>
      -- One of the two is the missing integer.
      obtain least | least : a ≤ -2147483648 ∨ b ≤ -2147483648 := by omega
      · rw [whole.integral?_eq_none least] at found
        cases found
      · rw [last.integral?_eq_none least] at found'
        cases found'
    · refine ⟨_, rfl, ?_⟩
      rw [ofAtoms, size, Storage.size, steppedDoubles, List.length_map, List.length_range]

/-- The value is a single element, which is this whole number if it is read as a double. -/
def ReadsAs (v : Value) (n : Int) : Prop :=
  ∃ x, v.HasBound x ∧ x.IsInteger n

theorem readsAs_ofInteger {i : Int32} (present : i ≠ missingInteger) :
    (ofInteger i).ReadsAs i.toInt :=
  (isWholeNumber_ofAtom (a := ⟨.integer, i⟩) ⟨present, rfl⟩).hasBound

/-- There is one number more than the distance of the bounds. -/
theorem exists_colon_size (reads : v.ReadsAs a) (reads' : w.ReadsAs b)
    (small : -2147483648 ≤ a ∧ a ≤ 2147483647) (small' : -2147483648 ≤ b ∧ b ≤ 2147483647) :
    ∃ numbers, (v.colon w).outcome = .ok numbers ∧ numbers.size = (b - a).natAbs + 1 := by
  obtain ⟨x, has, whole⟩ := reads
  obtain ⟨y, has', whole'⟩ := reads'
  obtain ⟨numbers, made, size⟩ := exists_between_size whole whole' small small'
  refine ⟨numbers, ?_, size⟩
  rw [outcome_colon has has' whole.finite whole'.finite, made]
  rfl

end Value

namespace EvalM

variable {α : Type} {context : Context} {depth : Nat} {site : Site} {callee operand : Expr}
  {frame : FrameId} {m m₁ m₂ m₃ : Machine} {v w x : Value} {name : Symbol} {handle : Nat}

/-! ### Evaluation -/

theorem exists_onHeap_attempt {attempt : Attempt α} {a : α} (done : attempt.outcome = .ok a)
    (m : Machine) : ∃ heap, onHeap (HeapM.attempt attempt) m = .ok a { m with heap } := by
  obtain ⟨value, ticks⟩ := attempt
  cases value with
  | ok b =>
    cases done
    exact ⟨_, rfl⟩
  | error fault => cases done

/-- Counters leave the number of elements as it is. -/
theorem exists_counted (mode : Mode) (v : Value) (m : Machine) :
    ∃ w heap, counted mode v m = .ok w { m with heap } ∧ w.size = v.size := by
  rw [counted]
  split
  · exact ⟨_, _, rfl, Value.size_addTrace m.heap v⟩
  · exact ⟨v, m.heap, rfl, rfl⟩

/-- The numbers from one value to another are as many in every mode. -/
theorem exists_eval_colon (site : Site) {first last : Expr} {numbers : Value}
    (starts : eval context depth first frame m = .ok v m₁)
    (ends : eval context depth last frame m₁ = .ok w m₂)
    (made : (v.colon w).outcome = .ok numbers) :
    ∃ x heap, eval context (depth + 1) (.binary site .colon first last) frame m =
      .ok x { m₂ with heap } ∧ x.size = numbers.size := by
  obtain ⟨heap, attempted⟩ := exists_onHeap_attempt made m₂
  obtain ⟨x, heap', counted, size⟩ := exists_counted context.mode numbers { m₂ with heap }
  refine ⟨x, heap', ?_, size⟩
  refine (bind_of_ok starts).trans ((bind_of_ok ends).trans ?_)
  exact (bind_of_ok (ok_amend_iff.mpr attempted)).trans counted

theorem evalActuals_single {evaluate : Evaluator} (given : evaluate operand frame m = .ok x m₁) :
    evalActuals evaluate frame [(none, operand)] m = .ok [(none, x)] m₁ :=
  bind_of_ok given

/-- What is done inside a call that counts the elements of an operand. -/
theorem inside_length {evaluate : Evaluator}
    (counting : context.builtins.get handle = some (Registry.unary "length" Builtin.length)) :
    inside context evaluate (.builtin name handle) ⟨[some 0], [], []⟩ [(none, x)] m =
      .ok (.ofInteger (Int32.ofNat (min x.size 2147483647))) m := by
  have operated : onHeap (HeapM.operate ((Registry.unary "length" Builtin.length).run
      ⟨(Registry.unary "length" Builtin.length).formals, ⟨[some 0], [], []⟩, [(none, x)]⟩)) m =
        .ok (.ofInteger (Int32.ofNat (min x.size 2147483647))) m := rfl
  rw [inside, counting]
  refine (bind_of_ok operated).trans ?_
  rw [counted]
  split <;> rfl

/-- The call of a value that counts elements gives the size of its operand, or the greatest integer
if that is less, and leaves everything as it was but the bindings that are kept. -/
theorem eval_call_length
    (called : eval context depth callee frame m = .ok (.builtin name handle) m₁)
    (given : eval context depth operand frame m₁ = .ok x m₂)
    (counting : context.builtins.get handle = some (Registry.unary "length" Builtin.length))
    (room : m.stack.isFull = false)
    (matched : (m₂.bindings (some site) ⟨.builtin handle, name,
      (Registry.unary "length" Builtin.length).formals⟩ [none]).map Prod.fst =
        .ok ⟨[some 0], [], []⟩) :
    ∃ cache, eval context (depth + 1) (.call site callee [(none, operand)]) frame m =
      .ok (.ofInteger (Int32.ofNat (min x.size 2147483647))) { m₂ with cache } := by
  have balanced := balanced_eval context depth
  have actuals := evalActuals_single given
  have stack : m₂.stack = m.stack := stack_of_given balanced called actuals
  have callable : context.callable? (.builtin name handle) = some ⟨.builtin handle, name,
      (Registry.unary "length" Builtin.length).formals⟩ := by
    rw [Context.callable?, counting]
    rfl
  have step : eval context (depth + 1) (.call site callee [(none, operand)]) frame m =
      call context (eval context depth) (.builtin name handle) [(none, x)] (some site) m₂ :=
    (bind_of_ok called).trans (bind_of_ok actuals)
  rw [step, call_of_callable balanced callable]
  -- Matching may keep the binding that it finds, and this is all that it may change.
  cases bound : m₂.bindings (some site) ⟨.builtin handle, name,
      (Registry.unary "length" Builtin.length).formals⟩ [none] with
  | error cause =>
    rw [bound] at matched
    cases matched
  | ok kept =>
    obtain ⟨binding, later⟩ := kept
    rw [bound] at matched
    cases matched
    obtain ⟨cache, rfl⟩ := Machine.eq_of_bindings bound
    refine ⟨cache, ?_⟩
    simp only [List.map_cons, List.map_nil, bound, stack, room, Bool.false_eq_true, if_false,
      inside_length counting]
    rfl

end EvalM

namespace World

open EvalM

variable {arena : Arena} {before : Heap} {w : World} {interpreter : Interpreter}
  {request : Request} {depth : Nat} {site : Site} {callee operand : Expr} {frame : FrameId}
  {m m₁ m₂ : Machine} {name : Symbol} {handle : Nat}

/-! ### Calls in a world -/

/-- A call of a builtin while an honest request is served gets the binding that matching gives. -/
theorem Sound.map_fst_bindings_of_serves (sound : w.Sound arena before)
    (runs : arena.Runs before.frames.size interpreter)
    (honest : ∀ c ∈ request.closures, w.Knows before.frames.size c)
    {actuals : List (Option Symbol × Expr)} {parts : Parts} {builtin : Builtin}
    (serves : (interpreter.on w.heap).Serves request ⟨.call site callee actuals, frame, m⟩)
    (called : eval interpreter.context depth callee frame m = .ok (.builtin name handle) m₁)
    (given : evalActuals (eval interpreter.context depth) frame actuals m₁ = .ok parts m₂)
    (known : interpreter.context.builtins.get handle = some builtin) :
    (m₂.bindings (some site) ⟨.builtin handle, name, builtin.formals⟩
        (parts.map Prod.fst)).map Prod.fst =
      Matching.matchCall builtin.formals (actuals.map Prod.fst) := by
  obtain ⟨⟨n, alike⟩, placed⟩ := sound.attends_of_serves runs honest serves
  obtain ⟨_, _, _, -, -, alike'⟩ := Likeness.exists_of_issued runs.uncut
    (Likeness.tracks_of_room runs.room depth) alike placed called given
  have labels := Likeness.labels_of_evalActuals given
  have calls : arena.CallsAt (some site) (parts.map Prod.fst) := by
    rintro _ ⟨⟩
    exact ⟨callee, actuals, placed.1.1, labels⟩
  -- What is kept when the actuals are evaluated is right, so that a kept binding is made anew.
  have matched := Arena.bindings_of_right (f := ⟨.builtin handle, name, builtin.formals⟩)
    alike'.cache.1 (.builtin known) calls
  rw [← labels]
  generalize m₂.bindings _ _ _ = bound at matched ⊢
  generalize Matching.matchCall builtin.formals (parts.map Prod.fst) = result at matched ⊢
  cases matched with
  | ok kept => exact congrArg Except.ok kept.1
  | error cause => rfl

/-- The number of elements is counted as far as integers go. While an interpreter of any world
serves an honest request, the call of the builtin `length` gives one integer whatever its operand is
evaluated to, if there is room for the call, and changes nothing but the bindings that are kept. It
is the size of the operand, that is how many indices have an element, unless that is beyond the
greatest integer, which it is then. If the operand is the numbers from one bound to another, both
of them single and whole numbers in the range of integers, it is one more than their distance, again
unless that is beyond the greatest integer. -/
theorem length_counts (arises : Arises arena before w) (listed : interpreter ∈ w.interpreters)
    (honest : ∀ c ∈ request.closures, w.Knows before.frames.size c)
    (serves : (interpreter.on w.heap).Serves request
      ⟨.call site callee [(none, operand)], frame, m⟩)
    (called : eval interpreter.context (depth + 1) callee frame m =
      .ok (.builtin name handle) m₁)
    (counting : interpreter.context.builtins.get handle =
      some (Registry.unary "length" Builtin.length))
    (room : m.stack.isFull = false) :
    (∀ x m₂, eval interpreter.context (depth + 1) operand frame m₁ = .ok x m₂ →
      ∃ n cache, eval interpreter.context (depth + 2) (.call site callee [(none, operand)]) frame
          m = .ok (.ofInteger n) { m₂ with cache } ∧
        n.toInt = (min x.size 2147483647 : Nat) ∧
        ∀ index, (∃ reading, x.get index = .ok reading) ↔ index < x.size) ∧
    ∀ place first last u v a b m₂ m₃, operand = .binary place .colon first last →
      eval interpreter.context depth first frame m₁ = .ok u m₂ →
      eval interpreter.context depth last frame m₂ = .ok v m₃ →
      u.ReadsAs a → v.ReadsAs b →
      -2147483648 ≤ a ∧ a ≤ 2147483647 → -2147483648 ≤ b ∧ b ≤ 2147483647 →
      ∃ n later, eval interpreter.context (depth + 2) (.call site callee [(none, operand)]) frame
          m = .ok (.ofInteger n) later ∧
        n.toInt = (min ((b - a).natAbs + 1) 2147483647 : Nat) := by
  have sound := sound_of_arises arises
  have runs := sound.runs interpreter listed
  -- Whatever is kept for the call site is the binding that matching would find again.
  have counts {x : Value} {m₂ : Machine}
      (given : eval interpreter.context (depth + 1) operand frame m₁ = .ok x m₂) :
      ∃ cache, eval interpreter.context (depth + 2) (.call site callee [(none, operand)]) frame m =
        .ok (.ofInteger (Int32.ofNat (min x.size 2147483647))) { m₂ with cache } := by
    refine eval_call_length called given counting room ?_
    exact (sound.map_fst_bindings_of_serves runs honest serves called
      (evalActuals_single given) counting).trans rfl
  have exact_below (size : Nat) :
      (Int32.ofNat (min size 2147483647)).toInt = (min size 2147483647 : Nat) :=
    Int32.toInt_ofNat_of_lt (by omega)
  refine ⟨fun x m₂ given => ?_, ?_⟩
  · obtain ⟨cache, done⟩ := counts given
    exact ⟨_, cache, done, exact_below x.size, fun index => Value.exists_get_iff⟩
  · rintro place first last u v a b m₂ m₃ rfl starts ends reads reads' small small'
    obtain ⟨numbers, made, size⟩ := Value.exists_colon_size reads reads' small small'
    obtain ⟨x, heap, given, same⟩ := exists_eval_colon place starts ends made
    obtain ⟨cache, done⟩ := counts given
    refine ⟨_, _, done, ?_⟩
    rw [exact_below, same, size]

/-- The program `length(first:last)`. -/
def countBetween (first last : Int32) : Expr :=
  .call ⟨5, default⟩ (.ident ⟨1, default⟩ "length")
    [(none, .binary ⟨4, default⟩ .colon (.literal ⟨2, default⟩ (.integer first))
      (.literal ⟨3, default⟩ (.integer last)))]

/-- The program `length(10L:3L)` gives eight. -/
theorem length_counts_down :
    ∃ interpreter later, Interpreter.build { top := countBetween 10 3 } .empty = .ok interpreter ∧
      eval interpreter.context 3 (countBetween 10 3) interpreter.root interpreter.machine =
        .ok (.ofInteger 8) later := by
  obtain ⟨program, resolved, top, called, starts, ends⟩ :
      ∃ program, Program.resolve 0 (countBetween 10 3) = .ok program ∧
        program.toplevel.body = countBetween 10 3 ∧
        let i := Interpreter.ofProgram { top := countBetween 10 3 } .empty program
        eval i.context 2 (.ident ⟨1, default⟩ "length") i.root i.machine =
          .ok (.builtin "length" 2) i.machine ∧
        eval i.context 1 (.literal ⟨2, default⟩ (.integer 10)) i.root i.machine =
          .ok (.ofInteger 10) i.machine ∧
        eval i.context 1 (.literal ⟨3, default⟩ (.integer 3)) i.root i.machine =
          .ok (.ofInteger 3) i.machine :=
    ⟨_, rfl, rfl, rfl, rfl, rfl⟩
  let interpreter := Interpreter.ofProgram { top := countBetween 10 3 } .empty program
  have built : Interpreter.build { top := countBetween 10 3 } .empty = .ok interpreter :=
    build_of_resolve resolved
  have arises : Arises (.ofNodes (countBetween 10 3) (numbered_of_nodup (by decide))) .empty
      ⟨interpreter.machine.heap, [interpreter], []⟩ :=
    @Arises.build _ _ _ { top := countBetween 10 3 } _ .start (countBetween 10 3).mem_nodes_self
      (Registry.standard_disregards _) Registry.standard_handsOn
      (fun _ absent => (List.not_mem_nil absent).elim) built
  have serves : interpreter.Serves (.run 3)
      ⟨countBetween 10 3, interpreter.root, interpreter.machine⟩ := by
    rw [← top]
    exact .run .here
  obtain ⟨-, between⟩ := @length_counts _ _ _ _ (.run 3) 1 _ _ _ _ _ _ _ _ arises
    List.mem_cons_self (fun _ absent => (List.not_mem_nil absent).elim) serves called rfl rfl
  have reads : (Value.ofInteger 10).ReadsAs 10 := Value.readsAs_ofInteger (by decide)
  have reads' : (Value.ofInteger 3).ReadsAs 3 := Value.readsAs_ofInteger (by decide)
  obtain ⟨n, later, done, count⟩ := between _ _ _ _ _ 10 3 _ _ rfl starts ends reads reads'
    (by decide) (by decide)
  obtain rfl : n = 8 := Int32.toInt_inj.mp count
  exact ⟨interpreter, later, built, done⟩

/-- There are `2 ^ 31` numbers from zero to the greatest integer. The builtin gives one less. -/
theorem length_stops_counting :
    ∃ interpreter x m₁ later,
      Interpreter.build { top := countBetween 0 2147483647 } .empty = .ok interpreter ∧
      eval interpreter.context 2 (.binary ⟨4, default⟩ .colon (.literal ⟨2, default⟩ (.integer 0))
        (.literal ⟨3, default⟩ (.integer 2147483647))) interpreter.root interpreter.machine =
          .ok x m₁ ∧
      x.size = 2147483648 ∧
      eval interpreter.context 3 (countBetween 0 2147483647) interpreter.root interpreter.machine =
        .ok (.ofInteger 2147483647) later := by
  obtain ⟨interpreter, built, called, starts, ends, counting, cached, room⟩ :
      ∃ interpreter : Interpreter,
        Interpreter.build { top := countBetween 0 2147483647 } .empty = .ok interpreter ∧
        eval interpreter.context 2 (.ident ⟨1, default⟩ "length") interpreter.root
          interpreter.machine = .ok (.builtin "length" 2) interpreter.machine ∧
        eval interpreter.context 1 (.literal ⟨2, default⟩ (.integer 0)) interpreter.root
          interpreter.machine = .ok (.ofInteger 0) interpreter.machine ∧
        eval interpreter.context 1 (.literal ⟨3, default⟩ (.integer 2147483647)) interpreter.root
          interpreter.machine = .ok (.ofInteger 2147483647) interpreter.machine ∧
        interpreter.context.builtins.get 2 = some (Registry.unary "length" Builtin.length) ∧
        interpreter.machine.cache = some [] ∧ interpreter.machine.stack.isFull = false :=
    ⟨_, rfl, rfl, rfl, rfl, rfl, rfl, rfl⟩
  have reads : (Value.ofInteger 0).ReadsAs 0 := Value.readsAs_ofInteger (by decide)
  have reads' : (Value.ofInteger 2147483647).ReadsAs 2147483647 :=
    Value.readsAs_ofInteger (by decide)
  obtain ⟨numbers, made, many⟩ := Value.exists_colon_size reads reads' (by decide) (by decide)
  obtain ⟨x, heap, given, same⟩ := exists_eval_colon ⟨4, default⟩ starts ends made
  have size : x.size = 2147483648 := same.trans many
  have matched : (Machine.bindings { interpreter.machine with heap } (some ⟨5, default⟩)
      ⟨.builtin 2, "length", (Registry.unary "length" Builtin.length).formals⟩
        [none]).map Prod.fst = .ok ⟨[some 0], [], []⟩ := by
    rw [Machine.bindings, Machine.known, cached]
    rfl
  obtain ⟨cache, done⟩ := eval_call_length called given counting room matched
  rw [size] at done
  exact ⟨interpreter, x, _, _, built, given, size, done⟩

end World

end Vectorial
