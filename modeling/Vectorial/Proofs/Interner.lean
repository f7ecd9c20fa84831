import Mathlib.Data.Finset.Card
import Mathlib.Data.List.Infix
import Vectorial.Interner

/-!
# Handles and texts

A call for a text either finds it in the map, or adds it to the map and the table, or finds the
table full. So over any history of calls the map has exactly the texts of the table, each with its
position. The table has no text twice then and only grows at its end, and a handle means the same
text for ever: handles and texts determine each other. How many texts the table has is how many
different ones were asked for, until it is full.

## Main definitions

* `Interner.answer`, `Interner.grown`: what a call answers, and the interner that it leaves;
* `Interner.after`: a fresh interner after a history of calls;
* `Interner.Agrees`: the map has the texts of the table with their positions;
* `Interner.Sound`: what holds over a history;
* `Interner.Call`: the three ways that a call may go.

## Main results

* `Interner.agrees_after`: the map and the table agree over every history;
* `Interner.Sound.answer_eq_ok_iff`: a call answers the position that its text then has;
* `Interner.size_after`: how many texts there are after a history;
* `Interner.handle_eq_iff`, `Interner.lookup_answer`, `Interner.answer_new`,
  `Interner.answer_eq_error_iff`: what a call answers, seen from earlier and later ones;
* `Interner.handles_name_texts`: handles and texts over whole histories.
-/

namespace Vectorial.Interner

variable {interner : Interner} {history before later : List String} {text : String} {handle : Nat}

/-! ### The map and the table -/

/-- The map has exactly the texts of the table, each with its position. -/
def Agrees (interner : Interner) : Prop :=
  ∀ text handle, interner.handle? text = some handle ↔ interner.texts[handle]? = some text

theorem handle?_add (interner : Interner) (text other : String) :
    (interner.add text).handle? other =
      if other = text then some interner.texts.size else interner.handle? other := by
  rw [handle?, add, List.lookup_cons]
  by_cases same : other = text
  · rw [if_pos same, beq_iff_eq.mpr same]
  · rw [if_neg same, beq_eq_false_iff_ne.mpr same, handle?]

theorem Agrees.mem_texts_iff (agrees : interner.Agrees) :
    text ∈ interner.texts ↔ ∃ handle, interner.handle? text = some handle := by
  rw [Array.mem_iff_getElem?]
  exact exists_congr fun handle => (agrees text handle).symm

/-- Adding a text that the map does not have keeps both alike. -/
theorem Agrees.add (agrees : interner.Agrees) (new : text ∉ interner.texts) :
    (interner.add text).Agrees := by
  intro other handle
  have pushed : (interner.add text).texts[handle]? =
      if handle = interner.texts.size then some text else interner.texts[handle]? :=
    Array.getElem?_push
  rw [handle?_add, pushed]
  by_cases same : other = text
  · -- The new text has no other position, as it has none in the table so far.
    subst same
    rw [if_pos rfl]
    by_cases last : handle = interner.texts.size
    · rw [if_pos last, last]
      exact iff_of_true rfl rfl
    · rw [if_neg last, Option.some.injEq]
      constructor
      · exact fun size_eq => absurd size_eq.symm last
      · exact fun listed => absurd (Array.mem_of_getElem? listed) new
  · rw [if_neg same, agrees]
    by_cases last : handle = interner.texts.size
    · rw [if_pos last, last, Array.getElem?_size, Option.some.injEq]
      exact ⟨nofun, fun text_eq => absurd text_eq.symm same⟩
    · rw [if_neg last]

theorem agrees_fresh : fresh.Agrees := by
  have none_yet : Agrees {} := fun text handle => by
    rw [Array.getElem?_eq_none (Nat.zero_le handle)]
    exact ⟨nofun, nofun⟩
  exact (none_yet.add (by simp)).add (by simp [add])

/-! ### Calls -/

/-- What a call answers. -/
def answer (interner : Interner) (text : String) : Except Overflow Nat :=
  (interner.intern? text).map Prod.fst

/-- The interner that a call leaves, which is the one from before if the call fails. -/
def grown (interner : Interner) (text : String) : Interner :=
  match interner.intern? text with
  | .ok (_, next) => next
  | .error _ => interner

/-- A fresh interner after calls for these texts, one after the other. -/
def after (history : List String) : Interner :=
  history.foldl grown fresh

/-- The ways that a call may go. -/
inductive Call (interner : Interner) (text : String) : Prop where
  | known {handle : Nat} (listed : interner.texts[handle]? = some text)
      (answered : interner.answer text = .ok handle) (left : interner.grown text = interner)
  | new (unknown : text ∉ interner.texts) (room : interner.size < invalid)
      (answered : interner.answer text = .ok interner.size)
      (left : interner.grown text = interner.add text)
  | full (unknown : text ∉ interner.texts) (none_left : invalid ≤ interner.size)
      (answered : interner.answer text = .error ⟨interner.size⟩)
      (left : interner.grown text = interner)

/-- A call looks into the map, which tells what is in the table. -/
theorem Agrees.call (agrees : interner.Agrees) (text : String) : Call interner text := by
  cases found : interner.handle? text with
  | some handle =>
    have tried : interner.intern? text = .ok (handle, interner) := by rw [intern?, found]
    have listed := (agrees text handle).mp found
    exact .known listed (by rw [answer, tried]; rfl) (by rw [grown, tried])
  | none =>
    have unknown : text ∉ interner.texts := by
      rw [agrees.mem_texts_iff, found]
      rintro ⟨_, ⟨⟩⟩
    by_cases room : interner.size < invalid
    · have tried : interner.intern? text = .ok (interner.size, interner.add text) := by
        rw [intern?, found]
        exact if_pos room
      exact .new unknown room (by rw [answer, tried]; rfl) (by rw [grown, tried])
    · have tried : interner.intern? text = .error ⟨interner.size⟩ := by
        rw [intern?, found]
        exact if_neg room
      exact .full unknown (Nat.le_of_not_lt room) (by rw [answer, tried]; rfl)
        (by rw [grown, tried])

theorem after_snoc (history : List String) (text : String) :
    after (history ++ [text]) = (after history).grown text := by
  rw [after, List.foldl_append]
  rfl

theorem Agrees.grown (agrees : interner.Agrees) (text : String) :
    (interner.grown text).Agrees := by
  cases agrees.call text with
  | known _ _ left => rwa [left]
  | new unknown _ _ left =>
    rw [left]
    exact agrees.add unknown
  | full _ _ _ left => rwa [left]

/-- The map and the table agree over every history. -/
theorem agrees_after (history : List String) : (after history).Agrees := by
  induction history using List.reverseRecOn with
  | nil => exact agrees_fresh
  | append_singleton history text ih => exact after_snoc history text ▸ ih.grown text

/-- How the next call after a history goes. -/
theorem call_after (history : List String) (text : String) : Call (after history) text :=
  (agrees_after history).call text

/-! ### The table -/

/-- The table has what the map says, the reserved texts first, and gives no text the handle that
is kept free. -/
structure Sound (interner : Interner) : Prop where
  agrees : interner.Agrees
  reserved : ["", "..."] <+: interner.texts.toList
  fits : interner.size ≤ invalid

/-- Texts keep their positions. -/
theorem Agrees.prefix_grown (agrees : interner.Agrees) (text : String) :
    interner.texts.toList <+: (interner.grown text).texts.toList := by
  cases agrees.call text with
  | known _ _ left => rw [left]
  | new _ _ _ left =>
    rw [left]
    exact ⟨[text], Array.toList_push.symm⟩
  | full _ _ _ left => rw [left]

theorem prefix_after (before later : List String) :
    (after before).texts.toList <+: (after (before ++ later)).texts.toList := by
  induction later using List.reverseRecOn with
  | nil => rw [List.append_nil]
  | append_singleton later text ih =>
    rw [← List.append_assoc, after_snoc]
    exact ih.trans ((agrees_after _).prefix_grown text)

theorem Sound.grown (sound : interner.Sound) (text : String) : (interner.grown text).Sound := by
  refine ⟨sound.agrees.grown text, sound.reserved.trans (sound.agrees.prefix_grown text), ?_⟩
  cases sound.agrees.call text with
  | known _ _ left =>
    rw [left]
    exact sound.fits
  | full _ _ _ left =>
    rw [left]
    exact sound.fits
  | new _ room _ left =>
    rw [left, size, Interner.add, Array.size_push]
    exact room

theorem sound_after (history : List String) : (after history).Sound := by
  induction history using List.reverseRecOn with
  | nil => exact ⟨agrees_fresh, List.prefix_rfl, by decide⟩
  | append_singleton history text ih => exact after_snoc history text ▸ ih.grown text

/-- Different positions have different texts: the map has one handle for each. -/
theorem Agrees.eq_of_listed (agrees : interner.Agrees) {other : Nat}
    (listed : interner.texts[handle]? = some text)
    (listed' : interner.texts[other]? = some text) : handle = other :=
  Option.some.inj (((agrees text handle).mpr listed).symm.trans ((agrees text other).mpr listed'))

/-- So the table has no text twice. -/
theorem Agrees.nodup_texts (agrees : interner.Agrees) : interner.texts.toList.Nodup := by
  rw [List.Nodup, List.pairwise_iff_getElem]
  intro i j inside inside' before same
  have listed : interner.texts[i]? = some interner.texts.toList[i] := by
    rw [← Array.getElem?_toList, List.getElem?_eq_getElem inside]
  have listed' : interner.texts[j]? = some interner.texts.toList[i] := by
    rw [same, ← Array.getElem?_toList, List.getElem?_eq_getElem inside']
  exact Nat.ne_of_lt before (agrees.eq_of_listed listed listed')

/-- A call answers the position that its text has in the table afterwards. -/
theorem Sound.answer_eq_ok_iff (sound : interner.Sound) :
    interner.answer text = .ok handle ↔ (interner.grown text).texts[handle]? = some text := by
  cases sound.agrees.call text with
  | known listed answered left =>
    rw [answered, left, Except.ok.injEq]
    exact ⟨fun same => same ▸ listed, sound.agrees.eq_of_listed listed⟩
  | new unknown room answered left =>
    have last : (interner.grown text).texts[interner.size]? = some text := by
      rw [left]
      exact Array.getElem?_push_size
    rw [answered, Except.ok.injEq]
    exact ⟨fun same => same ▸ last, (sound.agrees.grown text).eq_of_listed last⟩
  | full unknown _ answered left =>
    rw [answered, left]
    exact ⟨nofun, fun listed => absurd (Array.mem_of_getElem? listed) unknown⟩

/-- What a call has answered stays in the table. -/
theorem listed_after (answered : (after before).answer text = .ok handle) (later : List String) :
    (after (before ++ text :: later)).texts[handle]? = some text := by
  have listed := (sound_after before).answer_eq_ok_iff.mp answered
  rw [← after_snoc, ← Array.getElem?_toList] at listed
  obtain ⟨inside, -⟩ := List.getElem?_eq_some_iff.mp listed
  obtain ⟨more, grows⟩ := prefix_after (before ++ [text]) later
  rw [List.append_cons, ← Array.getElem?_toList, ← grows, List.getElem?_append_left inside, listed]

/-- A text that is in the table is answered with its position, and changes nothing. -/
theorem Sound.answer_of_listed (sound : interner.Sound)
    (listed : interner.texts[handle]? = some text) :
    interner.answer text = .ok handle ∧ interner.grown text = interner := by
  cases sound.agrees.call text with
  | known here answered left =>
    exact ⟨answered.trans (congrArg _ (sound.agrees.eq_of_listed here listed)), left⟩
  | new unknown => exact absurd (Array.mem_of_getElem? listed) unknown
  | full unknown => exact absurd (Array.mem_of_getElem? listed) unknown

/-! ### How many texts -/

/-- The texts that have come, the reserved ones first. -/
def arrivals (history : List String) : List String :=
  ["", "..."] ++ history

theorem arrivals_snoc (history : List String) (text : String) :
    arrivals (history ++ [text]) = arrivals history ++ [text] := by
  rw [arrivals, arrivals, List.append_assoc]

/-- The table has no texts but those that have come. -/
theorem mem_arrivals_of_mem_after (member : text ∈ (after history).texts) :
    text ∈ arrivals history := by
  induction history using List.reverseRecOn with
  | nil => exact Array.mem_toList_iff.mpr member
  | append_singleton history last ih =>
    rw [after_snoc] at member
    rw [arrivals_snoc, List.mem_append, List.mem_singleton]
    cases call_after history last with
    | known _ _ left => exact .inl (ih (left ▸ member))
    | new _ _ _ left =>
      rw [left, add, Array.mem_push] at member
      exact member.imp_left ih
    | full _ _ _ left => exact .inl (ih (left ▸ member))

/-- As long as there is room it has all of them. -/
theorem mem_after_of_mem_arrivals (room : (after history).size < invalid)
    (come : text ∈ arrivals history) : text ∈ (after history).texts := by
  induction history using List.reverseRecOn with
  | nil => exact Array.mem_toList_iff.mp come
  | append_singleton history last ih =>
    rw [after_snoc] at room ⊢
    rw [arrivals_snoc, List.mem_append, List.mem_singleton] at come
    -- The last call found its text, added it or found no room; the last contradicts `room`.
    cases call_after history last with
    | known listed _ left =>
      rw [left] at room ⊢
      rcases come with come | rfl
      · exact ih room come
      · exact Array.mem_of_getElem? listed
    | new _ before _ left =>
      rw [left, add, Array.mem_push]
      exact come.imp_left (ih before)
    | full _ none_left _ left =>
      rw [left] at room
      exact absurd room (Nat.not_lt.mpr none_left)

/-- There are as many texts as different ones have come, until the table is full. -/
theorem size_after (history : List String) :
    (after history).size = min (arrivals history).toFinset.card invalid := by
  have sound := sound_after history
  have listed : (after history).texts.toList.toFinset.card = (after history).size :=
    List.toFinset_card_of_nodup sound.agrees.nodup_texts
  have come : (after history).texts.toList.toFinset ⊆ (arrivals history).toFinset := by
    intro text member
    rw [List.mem_toFinset, Array.mem_toList_iff] at member
    exact List.mem_toFinset.mpr (mem_arrivals_of_mem_after member)
  have at_most := listed ▸ Finset.card_le_card come
  have fits := sound.fits
  -- The texts that have come are all in the table as long as there is room for another one.
  by_cases room : (after history).size < invalid
  · have all : (arrivals history).toFinset ⊆ (after history).texts.toList.toFinset := by
      intro text member
      rw [List.mem_toFinset, Array.mem_toList_iff]
      exact mem_after_of_mem_arrivals room (List.mem_toFinset.mp member)
    have at_least := listed ▸ Finset.card_le_card all
    omega
  · omega

/-! ### Histories -/

/-- Two calls are answered alike exactly if they are for the same text. -/
theorem handle_eq_iff {between : List String} {text' : String} {handle' : Nat}
    (answered : (after before).answer text = .ok handle)
    (answered' : (after (before ++ text :: between)).answer text' = .ok handle') :
    handle = handle' ↔ text = text' := by
  -- Both texts are in the table after the second call.
  have listed := listed_after answered (between ++ [text'])
  have listed' := listed_after answered' []
  rw [List.append_assoc, List.cons_append] at listed'
  constructor
  · rintro rfl
    exact Option.some.inj (listed.symm.trans listed')
  · rintro rfl
    exact (agrees_after _).eq_of_listed listed listed'

theorem ne_invalid_of_answer (answered : (after before).answer text = .ok handle) :
    handle ≠ invalid := by
  obtain ⟨inside, -⟩ := Array.getElem?_eq_some_iff.mp (listed_after answered [])
  exact Nat.ne_of_lt (Nat.lt_of_lt_of_le inside (sound_after (before ++ [text])).fits)

/-- A handle means the text that it was answered for, and goes on being the answer for it. -/
theorem lookup_answer (answered : (after before).answer text = .ok handle) (later : List String) :
    (after (before ++ text :: later)).lookup handle = text ∧
      (after (before ++ text :: later)).answer text = .ok handle := by
  have listed := listed_after answered later
  refine ⟨?_, ((sound_after _).answer_of_listed listed).1⟩
  rw [lookup, Array.getD_eq_getD_getElem?, listed, Option.getD_some]

/-- New texts are numbered one after the other. -/
theorem answer_new (answered : (after before).answer text = .ok handle)
    (new : text ∉ arrivals before) : handle = (arrivals before).toFinset.card := by
  cases call_after before text with
  | known listed => exact absurd (mem_arrivals_of_mem_after (Array.mem_of_getElem? listed)) new
  | new _ room answered' =>
    obtain rfl := Except.ok.inj (answered'.symm.trans answered)
    have size := size_after before
    omega
  | full _ _ answered' => cases answered'.symm.trans answered

theorem answer_reserved (before : List String) :
    (after before).answer "" = .ok 0 ∧ (after before).answer "..." = .ok 1 := by
  obtain ⟨more, grows⟩ := (sound_after before).reserved
  have listed (position : Nat) (inside : position < 2) :
      (after before).texts[position]? = ["", "..."][position]? := by
    rw [← Array.getElem?_toList, ← grows, List.getElem?_append_left inside]
  exact ⟨((sound_after before).answer_of_listed (listed 0 (by decide))).1,
    ((sound_after before).answer_of_listed (listed 1 (by decide))).1⟩

/-- A call fails exactly if there is no room for its text. -/
theorem answer_eq_error_iff {overflow : Overflow} :
    (after before).answer text = .error overflow ↔
      text ∉ (after before).texts ∧ (after before).size = invalid ∧ overflow = ⟨invalid⟩ := by
  cases call_after before text with
  | known listed answered =>
    rw [answered]
    exact ⟨nofun, fun unknown => absurd (Array.mem_of_getElem? listed) unknown.1⟩
  | new _ room answered =>
    rw [answered]
    exact ⟨nofun, fun full => absurd full.2.1 (Nat.ne_of_lt room)⟩
  | full unknown none_left answered =>
    have full := Nat.le_antisymm (sound_after before).fits none_left
    rw [answered, full, Except.error.injEq]
    exact ⟨fun same => ⟨unknown, rfl, same.symm⟩, fun same => same.2.2.symm⟩

theorem after_of_answer_eq_error {overflow : Overflow}
    (failed : (after before).answer text = .error overflow) :
    after (before ++ [text]) = after before := by
  rw [after_snoc]
  cases call_after before text with
  | known _ answered => cases answered.symm.trans failed
  | new _ _ answered => cases answered.symm.trans failed
  | full _ _ _ left => exact left

/-- Over every history of calls on a fresh interner: two calls are answered with the same handle
exactly if their texts are the same. At once and after any further calls the text of a handle is
the one that was asked for, and the text is answered with the handle, which is never the one that is
kept free. A new text gets the number of different texts that have come before, the first two of
which are the reserved ones. A call fails exactly if its text is unknown and the table is full, and
that changes nothing. -/
theorem handles_name_texts :
    (∀ before text handle between text' handle',
      (after before).answer text = .ok handle →
      (after (before ++ text :: between)).answer text' = .ok handle' →
      (handle = handle' ↔ text = text')) ∧
    (∀ before text handle, (after before).answer text = .ok handle →
      handle ≠ invalid ∧
      ∀ later, (after (before ++ text :: later)).lookup handle = text ∧
        (after (before ++ text :: later)).answer text = .ok handle) ∧
    (∀ before text handle, (after before).answer text = .ok handle → text ∉ arrivals before →
      handle = (arrivals before).toFinset.card) ∧
    (∀ before, (after before).answer "" = .ok 0 ∧ (after before).answer "..." = .ok 1) ∧
    ∀ before text overflow,
      ((after before).answer text = .error overflow ↔
        text ∉ (after before).texts ∧ (after before).size = invalid ∧ overflow = ⟨invalid⟩) ∧
      ((after before).answer text = .error overflow →
        after (before ++ [text]) = after before) := by
  refine ⟨fun before text handle between text' handle' => handle_eq_iff,
    fun before text handle answered => ⟨ne_invalid_of_answer answered, lookup_answer answered⟩,
    fun before text handle => answer_new, answer_reserved, fun before text overflow => ?_⟩
  exact ⟨answer_eq_error_iff, after_of_answer_eq_error⟩

/-- There are as many different texts without a given letter as one likes. -/
theorem exists_different (count : Nat) :
    ∃ history : List String, history.toFinset.card = count ∧ "b" ∉ history := by
  have lengths (n : Nat) : (String.ofList (List.replicate n 'a')).toList = List.replicate n 'a' :=
    String.toList_ofList
  have different : Function.Injective fun n => String.ofList (List.replicate n 'a') := by
    intro m n same
    have letters := congrArg String.toList same
    rw [lengths, lengths] at letters
    simpa using congrArg List.length letters
  refine ⟨(List.range count).map fun n => String.ofList (List.replicate n 'a'), ?_, fun asked => ?_⟩
  · rw [List.toFinset_card_of_nodup (List.nodup_range.map different), List.length_map,
      List.length_range]
  · obtain ⟨n, -, same⟩ := List.mem_map.mp asked
    have letters := congrArg String.toList same
    rw [lengths] at letters
    have letter : 'b' ∈ List.replicate n 'a' := letters ▸ List.mem_singleton_self 'b'
    exact absurd (List.eq_of_mem_replicate letter) (by decide)

/-- So some history fills the table. -/
theorem exists_full : ∃ history, (after history).size = invalid ∧ "b" ∉ (after history).texts := by
  obtain ⟨history, many, unasked⟩ := exists_different invalid
  have come : history.toFinset ⊆ (arrivals history).toFinset := fun text member =>
    List.mem_toFinset.mpr (List.mem_append_right _ (List.mem_toFinset.mp member))
  have at_least := many ▸ Finset.card_le_card come
  refine ⟨history, (size_after history).trans (Nat.min_eq_right at_least), fun member => ?_⟩
  rcases List.mem_append.mp (mem_arrivals_of_mem_after member) with reserved | asked
  · revert reserved
    decide
  · exact unasked asked

/-- Two texts that are new, asked for with others in between; and one that comes too late. -/
theorem handles_name_texts_untilFull :
    ((3 = 4 ↔ "a" = "b") ∧ 3 = (arrivals ["x"]).toFinset.card ∧
      (after ["x", "a", "...", "b"]).lookup 3 = "a") ∧
    ∃ history, (after history).answer "b" = .error ⟨invalid⟩ ∧
      after (history ++ ["b"]) = after history := by
  obtain ⟨apart, stays, new, -, fails⟩ := handles_name_texts
  have first : (after ["x"]).answer "a" = .ok 3 := by decide +kernel
  have second : (after ["x", "a", "..."]).answer "b" = .ok 4 := by decide +kernel
  obtain ⟨history, full, unknown⟩ := exists_full
  have failed := (fails history "b" ⟨invalid⟩).1.mpr ⟨unknown, full, rfl⟩
  exact ⟨⟨apart ["x"] "a" 3 ["..."] "b" 4 first second, new ["x"] "a" 3 first (by decide),
    ((stays ["x"] "a" 3 first).2 ["...", "b"]).1⟩,
    history, failed, (fails history "b" ⟨invalid⟩).2 failed⟩

end Vectorial.Interner
