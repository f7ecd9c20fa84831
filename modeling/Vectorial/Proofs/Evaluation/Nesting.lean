import Vectorial.Proofs.Evaluation.Lookup

/-!
# Frames mirror the nesting of functions

The frame of a call lies inside the frame in which the literal of the function called was
evaluated, and that is a frame of the function around the literal. So the frames around a
frame belong to the functions around its function, one after the other, up to a frame of
the outermost level.

Resolution walks over the program once, and evaluation enters the same expressions in the
same scopes. Therefore nothing that is evaluated was missed: names have a resolution,
targets have a slot, literals have a layout, and every address further out leads to a frame
that has the name in the slot of the address.

One program may be resolved several times, by one interpreter after the other. Layouts of
different resolutions differ in their edition only, so that frames of one interpreter may
lie inside frames of another.

## Main definitions

* `Layout.Encloses`: a function whose text has the literal of another;
* `Heap.Mirrors`: frames that are nested as the functions of a program;
* `Heap.Nearest`: the nearest frame whose function has a local name;
* `Discipline.mirroring`: every frame that is around mirrors the nesting.

## Main results

* `Heap.Mirrors.lays`: the scopes around a frame are those that its layout was made in;
* `Heap.Mirrors.owner_of_consults`: addresses lead to frames that have the name;
* `Machine.Fits.mirrors`: the discipline keeps frames nested.
-/

namespace Vectorial

/-! ### Nesting in the text -/

namespace Layout

/-- The function literal that a layout is of. -/
def text (layout : Layout) : Expr :=
  .function layout.site layout.params layout.body

/-- Whether the literal of `inner` stands in the text of `outer`, with no function in
between. -/
def Encloses (outer inner : Layout) : Prop :=
  ∃ root ∈ ownText outer.params outer.body, root.Within inner.text

/-- Whether the layout is of the outermost level of a program. -/
def IsOutermost (layout : Layout) (top : Expr) : Prop :=
  ∃ edition program, Program.resolve edition top = .ok program ∧ layout = program.toplevel

/-- Whether the layout is of a function literal of a program. -/
def IsInside (layout : Layout) (top : Expr) : Prop :=
  ∃ edition program, Program.resolve edition top = .ok program ∧ layout ∈ program.layouts

/-- The addresses further out that a frame of the layout is sent to. -/
inductive Consults (layout : Layout) : Address → Prop where
  | enclosing {name : Symbol} {address : Address} :
      layout.resolveRead name = some (.enclosing address) → Consults layout address
  | unbound {name : Symbol} {slot : Nat} {address : Address} :
      layout.resolveRead name = some (.here slot (some address)) → Consults layout address
  | assigned {name : Symbol} {address : Address} :
      layout.resolveSuper name = some (.enclosing address) → Consults layout address

variable {layout : Layout} {top : Expr}

/-- What stands in the text of a function of a program is a node of the program. -/
theorem mem_nodes_of_within (of_program : layout.IsOutermost top ∨ layout.IsInside top)
    {root e : Expr} (own : root ∈ ownText layout.params layout.body) (within : root.Within e) :
    e ∈ top.nodes := by
  refine top.nodes_subset_of_mem_nodes ?_ within.mem_nodes
  rcases of_program with ⟨edition, program, resolved, rfl⟩ | ⟨edition, program, resolved, listed⟩
  · rw [Program.params_toplevel resolved, Program.body_toplevel resolved] at own
    rw [List.mem_singleton.mp own]
    exact top.mem_nodes_self
  · exact Program.mem_nodes_of_ownText resolved listed own

/-- A function literal of a program is the text of every layout with its number. -/
theorem IsInside.text_eq (inside : layout.IsInside top) (once : top.literals.Nodup)
    {site : Site} {params : List (Symbol × Option Expr)} {body : Expr}
    (node : .function site params body ∈ top.nodes) (same : layout.literal = site.id) :
    layout.text = .function site params body := by
  obtain ⟨edition, program, resolved, listed⟩ := inside
  refine Expr.eq_of_literal_eq once (Program.function_mem_nodes resolved listed) node ?_ rfl
  exact congrArg some same

end Layout

namespace Scopes

variable {scope : List Symbol} {outer : Scopes} {name : Symbol} {address : Address}

theorem findFrom_of_resolveRead_enclosing
    (resolved : resolveRead (scope :: outer) name = .enclosing address) :
    findFrom name outer 1 = some address := by
  have outer_eq : findOuter (scope :: outer) name = findFrom name outer 1 := rfl
  rw [resolveRead, outer_eq] at resolved
  split at resolved
  · cases resolved
  · cases found : findFrom name outer 1 with
    | none => simp [found] at resolved
    | some other => simpa [found] using resolved

theorem findFrom_of_resolveRead_here {slot : Nat}
    (resolved : resolveRead (scope :: outer) name = .here slot (some address)) :
    findFrom name outer 1 = some address := by
  have outer_eq : findOuter (scope :: outer) name = findFrom name outer 1 := rfl
  rw [resolveRead, outer_eq] at resolved
  split at resolved
  · simp only [Resolution.here.injEq] at resolved
    exact resolved.2
  · cases found : findFrom name outer 1 <;> simp [found] at resolved

theorem resolveSuper_eq (scope : List Symbol) (outer : Scopes) (name : Symbol) :
    resolveSuper (scope :: outer) name = (findFrom name outer 1).elim .nowhere .enclosing :=
  rfl

theorem findFrom_of_resolveSuper
    (resolved : resolveSuper (scope :: outer) name = .enclosing address) :
    findFrom name outer 1 = some address := by
  rw [resolveSuper_eq] at resolved
  cases found : findFrom name outer 1 with
  | none => simp [found] at resolved
  | some other => simpa [found] using resolved

end Scopes

/-! ### Nesting of frames -/

namespace Heap

/-- Whether frames are nested as the functions of the program are: each of them is of the
outermost level and lies in no other frame, or it is of a function of the program and lies in
an older frame, of the function that has the literal in its text. -/
def Mirrors (heap : Heap) (top : Expr) (own : FrameId → Prop) : Prop :=
  ∀ id frame, own id → heap.frame? id = some frame →
    (frame.parent = none ∧ frame.layout.IsOutermost top) ∨
      ∃ env outer, frame.parent = some env ∧ own env ∧ env < id ∧
        heap.layout? env = some outer ∧ outer.Encloses frame.layout ∧ frame.layout.IsInside top

/-- The nearest frame, from `start` outward, whose function has a local name; `none` if there
is no such frame. -/
inductive Nearest (heap : Heap) (name : Symbol) : Option FrameId → Option FrameId → Prop where
  | outside : Nearest heap name none none
  | here {id : FrameId} {layout : Layout} :
      heap.layout? id = some layout → name ∈ layout.locals → Nearest heap name (some id) (some id)
  | further {id : FrameId} {layout : Layout} {nearest : Option FrameId} :
      heap.layout? id = some layout → name ∉ layout.locals →
      Nearest heap name (heap.parent id) nearest → Nearest heap name (some id) nearest

variable {heap : Heap} {top : Expr} {own : FrameId → Prop} {id : FrameId} {name : Symbol}
variable {layout : Layout} {edition : Nat} {program : Program}

/-- The scopes around a frame that mirrors the text are those that its layout was made in, and
those in which any other resolution lays out the function. -/
theorem Mirrors.lays (mirrors : heap.Mirrors top own) (once : top.literals.Nodup)
    (inside : own id) (known : heap.layout? id = some layout) :
    ∃ outer, (∀ edition program, Program.resolve edition top = .ok program →
      program.Lays outer layout) ∧ heap.Nested (layout.locals :: outer) (some id) := by
  -- From outside in: the frame around a frame is older.
  induction id using Nat.strongRecOn generalizing layout with
  | ind id ih =>
    obtain ⟨frame, found, rfl⟩ := Option.map_eq_some_iff.mp known
    rcases mirrors id frame inside found with ⟨no_parent, _, made_by, resolved, same⟩ |
      ⟨env, around, parent, env_own, older, around_known, encloses, made_by⟩
    · rw [same] at known ⊢
      have lays := Program.lays_toplevel resolved
      refine ⟨[], fun edition program again => ?_, .inside known lays.distinct ?_⟩
      · refine lays.transfer (Program.lays_toplevel again) ?_ ?_
        · rw [Program.params_toplevel resolved, Program.params_toplevel again]
        · rw [Program.body_toplevel resolved, Program.body_toplevel again]
      · rw [parent_of_frame found, no_parent]
        exact .outside
    · obtain ⟨outer, lays, nested⟩ := ih env older env_own around_known
      obtain ⟨root, text, within⟩ := encloses
      -- The resolution that made the layout of the frame lays it out where the literal stands.
      have made_lays : ∃ made_by : Program, made_by.Lays (around.locals :: outer) frame.layout := by
        obtain ⟨_, program, resolved, listed⟩ := made_by
        obtain ⟨made, made_listed, made_literal, made_lays⟩ :=
          (lays _ program resolved).function text within
        have kept_made := Program.layout?_of_mem resolved once made_listed
        have kept := Program.layout?_of_mem resolved once listed
        rw [made_literal] at kept_made
        cases kept_made.symm.trans kept
        exact ⟨program, made_lays⟩
      obtain ⟨made_program, made_lays⟩ := made_lays
      refine ⟨around.locals :: outer, fun edition program again => ?_,
        .inside known made_lays.distinct ?_⟩
      · obtain ⟨other, other_listed, other_literal, other_lays⟩ :=
          (lays edition program again).function text within
        have node : frame.layout.text ∈ top.nodes := by
          obtain ⟨_, program, resolved, listed⟩ := made_by
          exact Program.function_mem_nodes resolved listed
        have same :=
          Layout.IsInside.text_eq ⟨_, program, again, other_listed⟩ once node other_literal
        simp only [Layout.text, Expr.function.injEq] at same
        exact made_lays.transfer other_lays same.2.1.symm same.2.2.symm
      · rw [parent_of_frame found, parent]
        exact nested

/-- An address found in the scopes around a frame leads to the nearest frame around it whose
function has the name, and to the slot of the name there. -/
theorem Nested.nearest_of_findFrom {outer : Scopes} {hops : Nat} {address : Address}
    (nested : heap.Nested outer (heap.parent id))
    (found : Scopes.findFrom name outer hops = some address) :
    ∃ up owner layout, address.name = name ∧ address.hops = hops + up ∧
      heap.ancestor id (up + 1) = some owner ∧ heap.layout? owner = some layout ∧
      layout.slotOf name = some address.slot ∧
      heap.Nearest name (heap.parent id) (some owner) := by
  -- Along the scopes, with the frame one step further out at each of them.
  induction outer generalizing id hops with
  | nil => cases found
  | cons scope outer ih =>
    generalize outward : heap.parent id = start at nested
    cases nested with
    | @inside parent layout _ known distinct around =>
      rw [Scopes.findFrom] at found
      split at found
      · next slot here =>
        cases found
        refine ⟨0, parent, layout, rfl, rfl, ?_, known, ?_, ?_⟩
        · simp only [ancestor, outward]
        · exact (lastEntry_zipIdx distinct name).trans here
        · exact .here known (List.isSome_idxOf?.mp (by simp [here]))
      · next not_local =>
        obtain ⟨up, owner, layout', named, hops_eq, climbed, owner_known, slot, nearest⟩ :=
          ih around found
        refine ⟨up + 1, owner, layout', named, by omega, ?_, owner_known, slot, ?_⟩
        · rw [ancestor, outward]
          exact climbed
        · exact .further known (List.idxOf?_eq_none_iff.mp not_local) nearest

/-- A name that is in none of the scopes is no local name of the functions around. -/
theorem Nested.nearest_of_findFrom_eq_none {outer : Scopes} {hops : Nat}
    {start : Option FrameId} (nested : heap.Nested outer start)
    (missing : Scopes.findFrom name outer hops = none) : heap.Nearest name start none := by
  induction nested generalizing hops with
  | outside => exact .outside
  | inside known _ _ ih =>
    rw [Scopes.findFrom] at missing
    split at missing
    · cases missing
    · next not_local => exact .further known (List.idxOf?_eq_none_iff.mp not_local) (ih missing)

/-- Every address further out leads to a frame that has the name in the slot of the address. -/
theorem Mirrors.owner_of_consults (mirrors : heap.Mirrors top own) (once : top.literals.Nodup)
    (resolved : Program.resolve edition top = .ok program) (inside : own id)
    (known : heap.layout? id = some layout) {address : Address}
    (consults : layout.Consults address) :
    ∃ owner around, heap.ancestor id address.hops = some owner ∧
      heap.layout? owner = some around ∧ around.slotOf address.name = some address.slot := by
  obtain ⟨outer, lays, nested⟩ := mirrors.lays once inside known
  have lays := lays edition program resolved
  -- Whatever the address is for, it was found in the scopes around the function.
  obtain ⟨name, found⟩ : ∃ name, Scopes.findFrom name outer 1 = some address := by
    cases consults with
    | @enclosing name _ resolved =>
      exact ⟨name, Scopes.findFrom_of_resolveRead_enclosing (lays.eq_resolveRead resolved).symm⟩
    | @unbound name _ _ resolved =>
      exact ⟨name, Scopes.findFrom_of_resolveRead_here (lays.eq_resolveRead resolved).symm⟩
    | @assigned name _ resolved =>
      exact ⟨name, Scopes.findFrom_of_resolveSuper (lays.eq_resolveSuper resolved).symm⟩
  obtain ⟨up, owner, around, named, hops_eq, climbed, owner_known, slot, -⟩ :=
    nested.cons.2.nearest_of_findFrom found
  refine ⟨owner, around, ?_, owner_known, ?_⟩
  · rw [hops_eq, Nat.add_comm]
    exact climbed
  · rw [named]
    exact slot

/-- Whether a closure is of a function of the program, and its environment a frame of the
function around. -/
structure Belongs (heap : Heap) (top : Expr) (own : FrameId → Prop) (layout : Layout)
    (env : FrameId) : Prop where
  own : own env
  inside : layout.IsInside top
  enclosed : ∃ outer, heap.layout? env = some outer ∧ outer.Encloses layout

theorem Belongs.mono {later : Heap} {wider : FrameId → Prop} {env : FrameId}
    (belongs : heap.Belongs top own layout env) (grows : heap.Extends later)
    (widens : own env → wider env) : later.Belongs top wider layout env := by
  obtain ⟨outer, known, encloses⟩ := belongs.enclosed
  exact ⟨widens belongs.own, belongs.inside, outer, grows.layout known, encloses⟩

/-- Whether an expression stands in the text of the function that a frame is of. -/
structure HasText (heap : Heap) (top : Expr) (own : FrameId → Prop) (e : Expr)
    (frame : FrameId) : Prop where
  own : own frame
  text : ∃ layout, heap.layout? frame = some layout ∧
    (layout.IsOutermost top ∨ layout.IsInside top) ∧
    ∃ root ∈ ownText layout.params layout.body, root.Within e

end Heap

/-! ### The discipline -/

namespace Discipline

variable {context : Context} {base : FrameId} {top : Expr} {edition : Nat}

/-- The frames around mirror the nesting of the functions of a program. The guests are of other
interpreters of the same program. -/
def mirroring (context : Context) (base : FrameId) (top : Expr) (guests : FrameId → Prop)
    (edition : Nat) (resolved : Program.resolve edition top = .ok context.program)
    (once : top.literals.Nodup) : Discipline context base where
  guests := guests
  outermost layout := layout.IsOutermost top
  admits heap := heap.Belongs top fun id => base ≤ id ∨ guests id
  places heap := heap.HasText top fun id => base ≤ id ∨ guests id
  binds _ _ _ := True
  admits_env := by
    rintro heap layout env ⟨own, -, outer, known, -⟩
    exact ⟨own, Heap.lt_size_of_layout known⟩
  admits_mono grows belongs := belongs.mono grows id
  places_mono := by
    rintro heap later e frame grows ⟨own, layout, known, of_program, text⟩
    exact ⟨own, layout, grows.layout known, of_program, text⟩
  places_frame := by
    rintro heap e frame ⟨own, layout, known, -⟩
    exact ⟨own, Heap.lt_size_of_layout known⟩
  places_part := by
    rintro heap e part frame ⟨own, layout, known, of_program, root, text, within⟩ inside
    exact ⟨own, layout, known, of_program, root, text, within.part inside⟩
  admits_function := by
    rintro heap site params body frame layout ⟨own, around, known, of_program, root, text, within⟩
      found
    have inside : layout.IsInside top :=
      ⟨edition, context.program, resolved, Program.mem_of_layout? found⟩
    -- The layout found under the number of the literal is of this literal and no other.
    have same := inside.text_eq once (Layout.mem_nodes_of_within of_program text within)
      (Program.literal_of_layout? found)
    refine ⟨own, inside, around, known, root, text, ?_⟩
    rw [same]
    exact within
  places_entered := by
    rintro heap later layout env id frame e belongs - found rfl - inside text
    exact ⟨.inl inside, frame.layout, Heap.layout_of_frame found, .inr belongs.inside, e, text,
      .self⟩
  binds_closure _ _ _ := trivial
  binds_builtin _ _ _ := trivial

end Discipline

/-- A machine that keeps the discipline has frames that mirror the nesting. -/
theorem Machine.Fits.mirrors {context : Context} {base : FrameId} {top : Expr}
    {guests : FrameId → Prop} {edition : Nat}
    {resolved : Program.resolve edition top = .ok context.program} {once : top.literals.Nodup}
    {m : Machine} (fits : m.Fits (.mirroring context base top guests edition resolved once)) :
    m.heap.Mirrors top fun id => base ≤ id ∨ guests id := by
  intro id frame own found
  have founds := fits.frames id frame own found
  cases parent : frame.parent with
  | none => exact .inl ⟨rfl, founds.outermost parent⟩
  | some env =>
    have belongs := founds.inside env parent
    obtain ⟨outer, known, encloses⟩ := belongs.enclosed
    have older := (fits.parents id env own ((Heap.parent_of_frame found).trans parent)).2
    exact .inr ⟨env, outer, rfl, belongs.own, older, known, encloses, belongs.inside⟩

end Vectorial
