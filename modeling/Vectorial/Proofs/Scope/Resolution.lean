import Mathlib.Data.List.Nodup
import Vectorial.Proofs.Syntax.Nodes

/-!
# What resolution lays out

Resolution gives every function literal a layout in the scopes around it. In the own text
of a function every name that is read is resolved in the scopes of that function, and every
function literal is laid out with those scopes around it. As long as no literal occurs at
two places, its layout is the one that the program keeps for it.

## Main definitions

* `LaysOut`: the layouts of several expressions in the same scopes;
* `ListsOnce`: the names that occur, each once and in order of first occurrence;
* `Program.Lays`: a layout that resolution made for a function in given scopes.

## Main results

* `Expr.map_literal_layouts`: the layouts of an expression are those of its literals;
* `ListsOnce.unique`: there is one way to list names once;
* `Program.Lays.resolveRead_of_within`: how names in the own text are resolved;
* `Program.Lays.function`: the layouts of the literals in the own text.
-/

namespace Vectorial

/-- The layouts of expressions that have the same scopes around them, one after the other. -/
inductive LaysOut (edition : Nat) (scopes : Scopes) : List Expr → List Layout → Prop where
  | nil : LaysOut edition scopes [] []
  | cons {e : Expr} {rest : List Expr} {name : Symbol} {first others : List Layout} :
      e.layouts edition scopes name = .ok first → LaysOut edition scopes rest others →
      LaysOut edition scopes (e :: rest) (first ++ others)

variable {edition : Nat} {scopes : Scopes}

namespace LaysOut

theorem single {e : Expr} {name : Symbol} {layouts : List Layout}
    (laid : e.layouts edition scopes name = .ok layouts) : LaysOut edition scopes [e] layouts := by
  simpa using LaysOut.cons laid .nil

theorem append {es rest : List Expr} {first others : List Layout}
    (left : LaysOut edition scopes es first) (right : LaysOut edition scopes rest others) :
    LaysOut edition scopes (es ++ rest) (first ++ others) := by
  induction left with
  | nil => exact right
  | cons laid _ ih =>
    rw [List.cons_append, List.append_assoc]
    exact .cons laid ih

theorem of_mem {es : List Expr} {layouts : List Layout} (laid : LaysOut edition scopes es layouts)
    {e : Expr} (member : e ∈ es) :
    ∃ name own, e.layouts edition scopes name = .ok own ∧ own ⊆ layouts := by
  induction laid with
  | nil => cases member
  | @cons first _ name own others laid _ ih =>
    rcases List.mem_cons.mp member with rfl | later
    · exact ⟨name, own, laid, List.subset_append_left _ _⟩
    · obtain ⟨name, own, laid, inside⟩ := ih later
      exact ⟨name, own, laid, List.Subset.trans inside (List.subset_append_right _ _)⟩

end LaysOut

theorem bind_eq_ok {α β : Type} {first : Except Defect α} {next : α → Except Defect β} {b : β}
    (done : (first >>= next) = .ok b) : ∃ a, first = .ok a ∧ next a = .ok b := by
  cases first with
  | error defect => cases done
  | ok a => exact ⟨a, rfl, done⟩

theorem laysOut_else {e : Option Expr} {layouts : List Layout}
    (laid : layoutsOfElse edition scopes e = .ok layouts) :
    LaysOut edition scopes e.toList layouts := by
  cases e with
  | none =>
    cases laid
    exact .nil
  | some e => exact .single laid

theorem laysOut_actuals {actuals : List (Option Symbol × Expr)} {layouts : List Layout}
    (laid : layoutsOfActuals edition scopes actuals = .ok layouts) :
    LaysOut edition scopes (actuals.map Prod.snd) layouts := by
  induction actuals generalizing layouts with
  | nil =>
    cases laid
    exact .nil
  | cons actual rest ih =>
    obtain ⟨first, first_laid, laid⟩ := bind_eq_ok laid
    obtain ⟨others, others_laid, ⟨⟩⟩ := bind_eq_ok laid
    exact .cons first_laid (ih others_laid)

theorem laysOut_block {body : List Expr} {layouts : List Layout}
    (laid : layoutsOfBlock edition scopes body = .ok layouts) :
    LaysOut edition scopes body layouts := by
  induction body generalizing layouts with
  | nil =>
    cases laid
    exact .nil
  | cons e rest ih =>
    obtain ⟨first, first_laid, laid⟩ := bind_eq_ok laid
    obtain ⟨others, others_laid, ⟨⟩⟩ := bind_eq_ok laid
    exact .cons first_laid (ih others_laid)

theorem laysOut_defaults {params : List (Symbol × Option Expr)} {layouts : List Layout}
    (laid : layoutsOfDefaults edition scopes params = .ok layouts) :
    LaysOut edition scopes (params.filterMap Prod.snd) layouts := by
  induction params generalizing layouts with
  | nil =>
    cases laid
    exact .nil
  | cons param rest ih =>
    obtain ⟨name, default⟩ := param
    obtain ⟨first, first_laid, laid⟩ := bind_eq_ok laid
    obtain ⟨others, others_laid, ⟨⟩⟩ := bind_eq_ok laid
    -- A formal without a default has no layouts; the rest is the same with or without one.
    have both := (laysOut_else first_laid).append (ih others_laid)
    cases default <;> exact both

/-- The layouts of a function literal: those in its own text, and its own. -/
theorem laysOut_function {site : Site} {params : List (Symbol × Option Expr)} {body : Expr}
    {name : Symbol} {layouts : List Layout}
    (laid : (Expr.function site params body).layouts edition scopes name = .ok layouts) :
    ∃ inside layout, layouts = inside ++ [layout] ∧
      LaysOut edition (localNames params body :: scopes) (ownText params body) inside ∧
      layoutIn edition (localNames params body :: scopes) name site params body = .ok layout := by
  obtain ⟨defaults, defaults_laid, laid⟩ := bind_eq_ok laid
  obtain ⟨own, body_laid, laid⟩ := bind_eq_ok laid
  obtain ⟨layout, made, ⟨⟩⟩ := bind_eq_ok laid
  exact ⟨defaults ++ own, layout, rfl, (laysOut_defaults defaults_laid).append (.single body_laid),
    made⟩

/-- The layouts of any other expression: those of its parts. -/
theorem laysOut_parts {e : Expr} (not_function : e.literal? = none) {name : Symbol}
    {layouts : List Layout} (laid : e.layouts edition scopes name = .ok layouts) :
    LaysOut edition scopes e.parts layouts := by
  cases e with
  | literal site value =>
    cases laid
    exact .nil
  | ident site name =>
    cases laid
    exact .nil
  | assign site target value => exact .single laid
  | superAssign site target value => exact .single laid
  | function site params body => cases not_function
  | call site callee actuals =>
    obtain ⟨first, first_laid, laid⟩ := bind_eq_ok laid
    obtain ⟨rest, rest_laid, ⟨⟩⟩ := bind_eq_ok laid
    simpa [Expr.parts, Expr.branches, Expr.strict] using
      LaysOut.cons first_laid (laysOut_actuals rest_laid)
  | binary site op left right =>
    obtain ⟨first, first_laid, laid⟩ := bind_eq_ok laid
    obtain ⟨rest, rest_laid, ⟨⟩⟩ := bind_eq_ok laid
    exact .cons first_laid (.single rest_laid)
  -- The order of layouts is that of the parts: condition, branch taken first, other branch.
  | branch site condition thenBranch elseBranch =>
    obtain ⟨first, first_laid, laid⟩ := bind_eq_ok laid
    obtain ⟨second, second_laid, laid⟩ := bind_eq_ok laid
    obtain ⟨third, third_laid, ⟨⟩⟩ := bind_eq_ok laid
    rw [List.append_assoc]
    exact .cons first_laid (.cons second_laid (laysOut_else third_laid))
  | block site body =>
    simpa [Expr.parts, Expr.branches, Expr.strict] using laysOut_block laid

/-! ### One layout -/

theorem Layout.of_eq_ok {parts : Layout.Parts} {layout : Layout}
    (made : Layout.of edition parts = .ok layout) :
    layout.site = parts.site ∧ layout.params = parts.params ∧ layout.body = parts.body ∧
      layout.locals = parts.locals ∧ layout.reads = parts.reads ∧
      layout.supers = parts.supers := by
  rw [Layout.of] at made
  split at made
  · split at made
    · cases made
    · cases made
      exact ⟨rfl, rfl, rfl, rfl, rfl, rfl⟩
  · cases made

theorem layoutIn_eq_ok {name : Symbol} {site : Site} {params : List (Symbol × Option Expr)}
    {body : Expr} {layout : Layout}
    (made : layoutIn edition scopes name site params body = .ok layout) :
    layout.site = site ∧ layout.params = params ∧ layout.body = body ∧
      layout.locals = scopes.headD [] ∧
      layout.reads = ((firstOccurrences ((ownText params body).flatMap Expr.reads)).map
        fun read => (read, scopes.resolveRead read)) ∧
      layout.supers = (firstOccurrences ((ownText params body).flatMap Expr.superTargets)).map
        fun target => (target, scopes.resolveSuper target) := by
  obtain ⟨site_eq, params_eq, body_eq, locals_eq, reads_eq, supers_eq⟩ := Layout.of_eq_ok made
  exact ⟨site_eq, params_eq, body_eq, locals_eq, reads_eq, supers_eq⟩

/-- The layouts of an expression: those of its children, in some scopes, and its own if it is a
function literal. -/
theorem laysOut_children {e : Expr} {name : Symbol} {layouts : List Layout}
    (laid : e.layouts edition scopes name = .ok layouts) :
    ∃ around inside own, layouts = inside ++ own ∧ LaysOut edition around e.children inside ∧
      own.map Layout.literal = e.literal?.toList ∧
      ∀ layout ∈ own, e = .function layout.site layout.params layout.body ∧ ∃ given,
        layoutIn edition around given layout.site layout.params layout.body = .ok layout := by
  cases known : e.literal? with
  | none =>
    rw [Expr.children_eq_parts known]
    exact ⟨scopes, layouts, [], by simp, laysOut_parts known laid, rfl, by simp⟩
  | some id =>
    cases e with
    | function site params body =>
      cases known
      obtain ⟨inside, layout, rfl, inside_laid, made⟩ := laysOut_function laid
      obtain ⟨rfl, rfl, rfl, -⟩ := layoutIn_eq_ok made
      refine ⟨_, inside, [layout], rfl, inside_laid, rfl, fun own listed => ?_⟩
      cases List.mem_singleton.mp listed
      exact ⟨rfl, name, made⟩
    | _ => cases known

theorem Layout.nodup_params (layout : Layout) : (layout.params.map Prod.fst).Nodup := by
  rw [← layout.formals_names]
  exact layout.formals.nodup

/-! ### Within an expression -/

/-- What is collected from left to right in the actuals of a call. -/
theorem eq_flatMap_of_actuals {f : Expr → List Symbol}
    {g : List (Option Symbol × Expr) → List Symbol} (nil : g [] = [])
    (cons : ∀ name value rest, g ((name, value) :: rest) = f value ++ g rest)
    (actuals : List (Option Symbol × Expr)) : g actuals = (actuals.map Prod.snd).flatMap f := by
  induction actuals with
  | nil => exact nil
  | cons actual rest ih => rw [cons, ih, List.map_cons, List.flatMap_cons]

/-- What is collected in a branch that may be absent. -/
theorem eq_flatMap_of_else {f : Expr → List Symbol} {g : Option Expr → List Symbol}
    (none : g none = []) (some : ∀ e, g (some e) = f e) (e : Option Expr) :
    g e = e.toList.flatMap f := by
  cases e with
  | none => exact none
  | some e => simp [some]

/-- What is collected from left to right in a block. -/
theorem eq_flatMap_of_block {f : Expr → List Symbol} {g : List Expr → List Symbol}
    (nil : g [] = []) (cons : ∀ e rest, g (e :: rest) = f e ++ g rest) (body : List Expr) :
    g body = body.flatMap f := by
  induction body with
  | nil => exact nil
  | cons e rest ih => rw [cons, ih, List.flatMap_cons]

/-- The name that an expression reads itself. -/
def Expr.read? : Expr → Option Symbol
  | .ident _ name => some name
  | _ => none

/-- The name that an expression assigns itself. -/
def Expr.target? : Expr → Option Symbol
  | .assign _ target _ => some target
  | _ => none

/-- The name that an expression assigns non-locally itself. -/
def Expr.superTarget? : Expr → Option Symbol
  | .superAssign _ target _ => some target
  | _ => none

theorem Expr.reads_eq (e : Expr) : e.reads = e.parts.flatMap Expr.reads ++ e.read?.toList := by
  have actuals := eq_flatMap_of_actuals (f := Expr.reads) (g := readsOfActuals) rfl fun _ _ _ => rfl
  have otherwise := eq_flatMap_of_else (f := Expr.reads) (g := readsOfElse) rfl fun _ => rfl
  have block := eq_flatMap_of_block (f := Expr.reads) (g := readsOfBlock) rfl fun _ _ => rfl
  cases e <;>
    simp [Expr.reads, Expr.read?, Expr.parts, Expr.strict, Expr.branches, actuals, otherwise, block]

theorem Expr.targets_eq (e : Expr) :
    e.targets = e.parts.flatMap Expr.targets ++ e.target?.toList := by
  have actuals :=
    eq_flatMap_of_actuals (f := Expr.targets) (g := targetsOfActuals) rfl fun _ _ _ => rfl
  have otherwise := eq_flatMap_of_else (f := Expr.targets) (g := targetsOfElse) rfl fun _ => rfl
  have block := eq_flatMap_of_block (f := Expr.targets) (g := targetsOfBlock) rfl fun _ _ => rfl
  cases e <;>
    simp [Expr.targets, Expr.target?, Expr.parts, Expr.strict, Expr.branches, actuals, otherwise,
      block]

theorem Expr.superTargets_eq (e : Expr) :
    e.superTargets = e.parts.flatMap Expr.superTargets ++ e.superTarget?.toList := by
  have actuals :=
    eq_flatMap_of_actuals (f := Expr.superTargets) (g := superTargetsOfActuals) rfl fun _ _ _ => rfl
  have otherwise :=
    eq_flatMap_of_else (f := Expr.superTargets) (g := superTargetsOfElse) rfl fun _ => rfl
  have block :=
    eq_flatMap_of_block (f := Expr.superTargets) (g := superTargetsOfBlock) rfl fun _ _ => rfl
  cases e <;>
    simp [Expr.superTargets, Expr.superTarget?, Expr.parts, Expr.strict, Expr.branches, actuals,
      otherwise, block]

/-- What is collected within an expression is collected in the expression, if what is collected in
its parts is. -/
theorem subset_of_within {f : Expr → List Symbol} {own : Expr → List Symbol}
    (f_eq : ∀ e, f e = e.parts.flatMap f ++ own e) {root e : Expr} (within : root.Within e) :
    f e ⊆ f root := by
  induction within with
  | self => exact List.Subset.refl _
  | @part e part _ inside ih =>
    intro name member
    refine ih ?_
    rw [f_eq e]
    exact List.mem_append_left _ (List.mem_flatMap.mpr ⟨part, inside, member⟩)

theorem layouts_of_within {root e : Expr} (within : root.Within e) {name : Symbol}
    {layouts : List Layout} (laid : root.layouts edition scopes name = .ok layouts) :
    ∃ name own, e.layouts edition scopes name = .ok own ∧ own ⊆ layouts := by
  induction within with
  | self => exact ⟨name, layouts, laid, List.Subset.refl _⟩
  | @part e part _ inside ih =>
    obtain ⟨name, own, laid, contained⟩ := ih
    -- A function literal has no parts, so that nothing is within one.
    have not_function : e.literal? = none := by
      cases e <;> first | rfl | cases inside
    obtain ⟨name, inner, laid, deeper⟩ := (laysOut_parts not_function laid).of_mem inside
    exact ⟨name, inner, laid, List.Subset.trans deeper contained⟩

/-- The layouts of an expression are those of the function literals in it. -/
theorem Expr.map_literal_layouts (e : Expr) {scopes : Scopes} {name : Symbol}
    {layouts : List Layout} (laid : e.layouts edition scopes name = .ok layouts) :
    layouts.map Layout.literal = e.literals := by
  -- The scopes change on the way into a function, so that the induction is for all of them.
  induction e using Expr.childInduction generalizing scopes name layouts with
  | step e ih =>
    have of_children {scopes : Scopes} {es : List Expr} {inside : List Layout}
        (laid : LaysOut edition scopes es inside) (listed : es ⊆ e.children) :
        inside.map Layout.literal = es.flatMap Expr.literals := by
      induction laid with
      | nil => rfl
      | cons first _ rest_eq =>
        rw [List.map_append, List.flatMap_cons, ih _ (listed List.mem_cons_self) first,
          rest_eq (List.Subset.trans (List.subset_cons_self _ _) listed)]
    obtain ⟨around, inside, own, rfl, inside_laid, own_eq, -⟩ := laysOut_children laid
    rw [Expr.literals_eq, List.map_append, own_eq,
      of_children inside_laid (List.Subset.refl _)]

/-- The layouts of an expression are made for function literals in it. -/
theorem Expr.made_of_mem_layouts (e : Expr) {edition : Nat} {scopes : Scopes}
    {name : Symbol} {layouts : List Layout}
    (laid : e.layouts edition scopes name = .ok layouts) {layout : Layout}
    (member : layout ∈ layouts) :
    .function layout.site layout.params layout.body ∈ e.nodes ∧ ∃ around given,
      layoutIn edition around given layout.site layout.params layout.body = .ok layout := by
  induction e using Expr.childInduction generalizing scopes name layouts with
  | step e ih =>
    -- On the list of children; each child is smaller, so that what holds of its layouts is known.
    have of_children {scopes : Scopes} {es : List Expr} {inside : List Layout}
        (laid : LaysOut edition scopes es inside) (listed : es ⊆ e.children)
        (member : layout ∈ inside) :
        .function layout.site layout.params layout.body ∈ e.nodes ∧ ∃ around given,
          layoutIn edition around given layout.site layout.params layout.body = .ok layout := by
      induction laid with
      | nil => cases member
      | cons first _ rest_nodes =>
        rcases List.mem_append.mp member with here | later
        · have child := listed List.mem_cons_self
          exact (ih _ child first here).imp_left fun node =>
            Expr.nodes_subset_of_mem_children child node
        · exact rest_nodes (List.Subset.trans (List.subset_cons_self _ _) listed) later
    obtain ⟨around, inside, own, rfl, inside_laid, -, own_made⟩ := laysOut_children laid
    rcases List.mem_append.mp member with inner | here
    · exact of_children inside_laid (List.Subset.refl _) inner
    · obtain ⟨eq, given, made⟩ := own_made layout here
      rw [← eq]
      exact ⟨e.mem_nodes_self, around, given, made⟩

/-! ### Names without repetitions -/

/-- The list has each of the occurring names once, in the order of first occurrence. -/
structure ListsOnce (names occurrences : List Symbol) : Prop where
  mem_iff : ∀ name, name ∈ names ↔ name ∈ occurrences
  ordered : names.Pairwise fun a b => occurrences.idxOf a < occurrences.idxOf b

namespace ListsOnce

variable {names others occurrences : List Symbol} {name : Symbol}

theorem nodup (lists : ListsOnce names occurrences) : names.Nodup :=
  lists.ordered.imp fun before same => Nat.ne_of_lt before (congrArg occurrences.idxOf same)

/-- There is only one such list. -/
theorem unique (lists : ListsOnce names occurrences) (others_list : ListsOnce others occurrences) :
    names = others := by
  have perm : names.Perm others := by
    refine (List.perm_ext_iff_of_nodup lists.nodup others_list.nodup).mpr fun name => ?_
    rw [lists.mem_iff, others_list.mem_iff]
  refine perm.eq_of_pairwise ?_ lists.ordered others_list.ordered
  intro a b _ _ before after
  exact absurd before (Nat.lt_asymm after)

/-- Names that do not repeat list themselves. -/
theorem of_nodup (distinct : names.Nodup) : ListsOnce names names where
  mem_iff _ := Iff.rfl
  ordered := by
    refine List.pairwise_iff_getElem.mpr fun i j inside inside' before => ?_
    rwa [distinct.idxOf_getElem, distinct.idxOf_getElem]

theorem snoc_of_mem (lists : ListsOnce names occurrences) (old : name ∈ names) :
    ListsOnce names (occurrences ++ [name]) where
  mem_iff other := by
    rw [lists.mem_iff, List.mem_append, List.mem_singleton, iff_self_or]
    rintro rfl
    exact (lists.mem_iff other).mp old
  ordered := by
    refine lists.ordered.imp_of_mem fun {a b} inside inside' before => ?_
    rwa [List.idxOf_append_of_mem ((lists.mem_iff a).mp inside),
      List.idxOf_append_of_mem ((lists.mem_iff b).mp inside')]

theorem snoc_of_notMem (lists : ListsOnce names occurrences) (new : name ∉ names) :
    ListsOnce (names ++ [name]) (occurrences ++ [name]) where
  mem_iff other := by
    rw [List.mem_append, List.mem_append, lists.mem_iff]
  ordered := by
    have earlier (a : Symbol) (inside : a ∈ names) : a ∈ occurrences := (lists.mem_iff a).mp inside
    refine List.pairwise_append.mpr ⟨?_, List.pairwise_singleton _ _, fun a inside b last => ?_⟩
    · refine lists.ordered.imp_of_mem fun {a b} inside inside' before => ?_
      rwa [List.idxOf_append_of_mem (earlier a inside),
        List.idxOf_append_of_mem (earlier b inside')]
    · rw [List.mem_singleton.mp last, List.idxOf_append_of_mem (earlier a inside),
        List.idxOf_append_of_notMem (mt (lists.mem_iff name).mpr new)]
      exact Nat.lt_of_lt_of_le (List.idxOf_lt_length_of_mem (earlier a inside))
        (Nat.le_add_right _ _)

/-- Adding the names that are new, one by one. -/
theorem foldl (lists : ListsOnce names occurrences) (more : List Symbol) :
    ListsOnce (more.foldl (fun seen name => if name ∈ seen then seen else seen ++ [name]) names)
      (occurrences ++ more) := by
  induction more generalizing names occurrences with
  | nil => rwa [List.append_nil]
  | cons name rest ih =>
    have split_at : occurrences ++ name :: rest = occurrences ++ [name] ++ rest :=
      List.append_cons occurrences name rest
    rw [List.foldl_cons, split_at]
    split
    · next old => exact ih (lists.snoc_of_mem old)
    · next new => exact ih (lists.snoc_of_notMem new)

end ListsOnce

theorem listsOnce_firstOccurrences (names : List Symbol) :
    ListsOnce (firstOccurrences names) names :=
  (ListsOnce.of_nodup List.nodup_nil).foldl names

theorem mem_firstOccurrences {names : List Symbol} {name : Symbol} :
    name ∈ firstOccurrences names ↔ name ∈ names :=
  (listsOnce_firstOccurrences names).mem_iff name

/-- The local names are the parameters and the targets, each once. -/
theorem listsOnce_localNames {params : List (Symbol × Option Expr)} {body : Expr}
    (distinct : (params.map Prod.fst).Nodup) :
    ListsOnce (localNames params body)
      (params.map Prod.fst ++ (ownText params body).flatMap Expr.targets) :=
  (ListsOnce.of_nodup distinct).foldl _

theorem lastEntry_of_mem {α : Type} {entries : List (Symbol × α)} {name : Symbol} {a : α}
    (member : (name, a) ∈ entries) :
    ∃ last, (name, last) ∈ entries ∧ lastEntry entries name = some last := by
  have found : (entries.reverse.find? fun entry => entry.1 == name).isSome :=
    List.find?_isSome.mpr ⟨(name, a), List.mem_reverse.mpr member, by simp⟩
  -- Searching from the end finds an entry of the name, perhaps not the given one.
  obtain ⟨⟨other, last⟩, found⟩ := Option.isSome_iff_exists.mp found
  obtain rfl : other = name := by simpa using List.find?_some found
  refine ⟨last, List.mem_reverse.mp (List.mem_of_find?_eq_some found), ?_⟩
  rw [lastEntry, found, Option.map_some]

theorem lastEntry_eq_none {α : Type} {entries : List (Symbol × α)} {name : Symbol}
    (absent : ∀ entry ∈ entries, entry.1 ≠ name) : lastEntry entries name = none := by
  rw [lastEntry, Option.map_eq_none_iff, List.find?_eq_none]
  intro entry member
  simpa using absent entry (List.mem_reverse.mp member)

theorem lastEntry_map {α : Type} {names : List Symbol} (f : Symbol → α) {name : Symbol}
    (member : name ∈ names) : lastEntry (names.map fun n => (n, f n)) name = some (f name) := by
  have entry : (name, f name) ∈ names.map fun n => (n, f n) :=
    List.mem_map.mpr ⟨name, member, rfl⟩
  obtain ⟨last, listed, known⟩ := lastEntry_of_mem entry
  obtain ⟨_, -, same⟩ := List.mem_map.mp listed
  cases same
  exact known

theorem eq_of_lastEntry_map {α : Type} {names : List Symbol} {f : Symbol → α} {name : Symbol}
    {a : α} (known : lastEntry (names.map fun n => (n, f n)) name = some a) : a = f name := by
  by_cases member : name ∈ names
  · rw [lastEntry_map f member] at known
    exact (Option.some.inj known).symm
  · rw [lastEntry_eq_none] at known
    · cases known
    · rintro entry listed rfl
      obtain ⟨n, inside, rfl⟩ := List.mem_map.mp listed
      exact member inside

theorem idxOf?_eq_some_of_nodup {names : List Symbol} (distinct : names.Nodup) {name : Symbol}
    {slot : Nat} (found : names[slot]? = some name) : names.idxOf? name = some slot := by
  obtain ⟨inside, rfl⟩ := List.getElem?_eq_some_iff.mp found
  refine List.idxOf?_eq_some_iff.mpr ⟨inside, rfl, fun earlier before same => ?_⟩
  have := (List.Nodup.getElem_inj_iff distinct).mp same
  omega

/-- In a list without repetitions the last position of a name is its first. -/
theorem lastEntry_zipIdx {names : List Symbol} (distinct : names.Nodup) (name : Symbol) :
    lastEntry names.zipIdx name = names.idxOf? name := by
  by_cases member : name ∈ names
  · obtain ⟨first, found⟩ := List.mem_iff_getElem?.mp member
    have listed : (name, first) ∈ names.zipIdx := List.mem_zipIdx_iff_getElem?.mpr found
    obtain ⟨last, listed, known⟩ := lastEntry_of_mem listed
    rw [known, idxOf?_eq_some_of_nodup distinct (List.mem_zipIdx_iff_getElem?.mp listed)]
  · rw [List.idxOf?_eq_none_iff.mpr member]
    refine lastEntry_eq_none fun entry listed same => member ?_
    rw [← same]
    exact List.mem_of_getElem? (List.mem_zipIdx_iff_getElem?.mp listed)

/-- The slots of the parameters are those before all others. -/
theorem Layout.mem_params_iff (layout : Layout) {name : Symbol} {slot : Nat}
    (found : layout.locals.idxOf? name = some slot) :
    name ∈ layout.params.map Prod.fst ↔ slot < layout.params.length := by
  obtain ⟨inside, rfl, first⟩ := List.idxOf?_eq_some_iff.mp found
  obtain ⟨rest, leading⟩ := layout.params_leading
  have at_param {index : Nat} (before : index < layout.params.length) :
      layout.locals[index]? = (layout.params.map Prod.fst)[index]? := by
    rw [← leading, List.getElem?_append_left (by simpa using before)]
  constructor
  · intro param
    obtain ⟨index, known⟩ := List.mem_iff_getElem?.mp param
    have before : index < layout.params.length := by
      simpa using (List.getElem?_eq_some_iff.mp known).1
    rw [← at_param before] at known
    obtain ⟨_, same⟩ := List.getElem?_eq_some_iff.mp known
    -- Were its slot not before the others, the name would be found earlier.
    by_contra later
    exact first index (by omega) same
  · intro before
    have known := at_param before
    rw [List.getElem?_eq_getElem inside] at known
    exact List.mem_of_getElem? known.symm

/-! ### Layouts in their scopes -/

/-- A layout that resolution made for a function with the scopes `outer` around it. -/
structure Program.Lays (program : Program) (outer : Scopes) (layout : Layout) : Prop where
  locals_eq : layout.locals = localNames layout.params layout.body
  reads_eq : layout.reads =
    (firstOccurrences ((ownText layout.params layout.body).flatMap Expr.reads)).map
      fun read => (read, Scopes.resolveRead (layout.locals :: outer) read)
  supers_eq : layout.supers =
    (firstOccurrences ((ownText layout.params layout.body).flatMap Expr.superTargets)).map
      fun target => (target, Scopes.resolveSuper (layout.locals :: outer) target)
  inside : ∃ edition inside,
    LaysOut edition (layout.locals :: outer) (ownText layout.params layout.body) inside ∧
      inside ⊆ program.layouts

namespace Program

variable {program : Program} {outer : Scopes} {layout : Layout}

theorem lays_of_layoutIn {name : Symbol} {site : Site} {params : List (Symbol × Option Expr)}
    {body : Expr} {inside : List Layout}
    (made : layoutIn edition (localNames params body :: outer) name site params body = .ok layout)
    (laid : LaysOut edition (localNames params body :: outer) (ownText params body) inside)
    (kept : inside ⊆ program.layouts) : program.Lays outer layout := by
  obtain ⟨-, rfl, rfl, locals_eq, reads_eq, supers_eq⟩ := layoutIn_eq_ok made
  replace locals_eq : layout.locals = localNames layout.params layout.body := locals_eq
  rw [← locals_eq] at laid reads_eq supers_eq
  exact ⟨locals_eq, reads_eq, supers_eq, edition, inside, laid, kept⟩

theorem Lays.distinct (lays : program.Lays outer layout) : layout.locals.Nodup := by
  rw [lays.locals_eq]
  exact (listsOnce_localNames layout.nodup_params).nodup

/-- The slot of a name is its position among the local names. -/
theorem Lays.slotOf_eq (lays : program.Lays outer layout) (name : Symbol) :
    layout.slotOf name = layout.locals.idxOf? name :=
  lastEntry_zipIdx lays.distinct name

/-- The outermost layout has no scopes around it. -/
theorem lays_toplevel {top : Expr} (resolved : resolve edition top = .ok program) :
    program.Lays [] program.toplevel := by
  obtain ⟨layouts, laid, resolved⟩ := bind_eq_ok resolved
  obtain ⟨toplevel, made, ⟨⟩⟩ := bind_eq_ok resolved
  exact lays_of_layoutIn made (.single laid) (List.Subset.refl _)

theorem site_toplevel {top : Expr} (resolved : resolve edition top = .ok program) :
    program.toplevel.site = top.site := by
  obtain ⟨layouts, laid, resolved⟩ := bind_eq_ok resolved
  obtain ⟨toplevel, made, ⟨⟩⟩ := bind_eq_ok resolved
  exact (layoutIn_eq_ok made).1

theorem body_toplevel {top : Expr} (resolved : resolve edition top = .ok program) :
    program.toplevel.body = top := by
  obtain ⟨layouts, laid, resolved⟩ := bind_eq_ok resolved
  obtain ⟨toplevel, made, ⟨⟩⟩ := bind_eq_ok resolved
  exact (layoutIn_eq_ok made).2.2.1

theorem params_toplevel {top : Expr} (resolved : resolve edition top = .ok program) :
    program.toplevel.params = [] := by
  obtain ⟨layouts, laid, resolved⟩ := bind_eq_ok resolved
  obtain ⟨toplevel, made, ⟨⟩⟩ := bind_eq_ok resolved
  exact (layoutIn_eq_ok made).2.1

/-- What the scopes around a function say of its layout, they say in every program that lays out
the same text in the same scopes. -/
theorem Lays.transfer {other : Program} {made : Layout} (lays : program.Lays outer layout)
    (made_lays : other.Lays outer made) (params : layout.params = made.params)
    (body : layout.body = made.body) : other.Lays outer layout := by
  have locals : layout.locals = made.locals := by
    rw [lays.locals_eq, made_lays.locals_eq, params, body]
  refine ⟨lays.locals_eq, lays.reads_eq, lays.supers_eq, ?_⟩
  rw [locals, params, body]
  exact made_lays.inside

/-- A name in the own text of a function is resolved in the scopes of the function. -/
theorem Lays.resolveRead_of_within (lays : program.Lays outer layout) {root : Expr}
    (own : root ∈ ownText layout.params layout.body) {site : Site} {name : Symbol}
    (within : root.Within (.ident site name)) :
    layout.resolveRead name = some (Scopes.resolveRead (layout.locals :: outer) name) := by
  have read : name ∈ root.reads :=
    subset_of_within Expr.reads_eq within (List.mem_singleton_self name)
  rw [Layout.resolveRead, lays.reads_eq]
  exact lastEntry_map _ (mem_firstOccurrences.mpr (List.mem_flatMap.mpr ⟨root, own, read⟩))

/-- The target of a non-local assignment in the own text is resolved in the same scopes. -/
theorem Lays.resolveSuper_of_within (lays : program.Lays outer layout) {root : Expr}
    (own : root ∈ ownText layout.params layout.body) {site : Site} {target : Symbol} {value : Expr}
    (within : root.Within (.superAssign site target value)) :
    layout.resolveSuper target = some (Scopes.resolveSuper (layout.locals :: outer) target) := by
  have assigned : target ∈ root.superTargets :=
    subset_of_within Expr.superTargets_eq within
      (List.mem_append_right _ (List.mem_singleton_self target))
  rw [Layout.resolveSuper, lays.supers_eq]
  exact lastEntry_map _ (mem_firstOccurrences.mpr (List.mem_flatMap.mpr ⟨root, own, assigned⟩))

/-- The target of an assignment in the own text is a local name of the function. -/
theorem Lays.mem_locals_of_within (lays : program.Lays outer layout) {root : Expr}
    (own : root ∈ ownText layout.params layout.body) {site : Site} {target : Symbol} {value : Expr}
    (within : root.Within (.assign site target value)) : target ∈ layout.locals := by
  have assigned : target ∈ root.targets :=
    subset_of_within Expr.targets_eq within
      (List.mem_append_right _ (List.mem_singleton_self target))
  rw [lays.locals_eq, (listsOnce_localNames layout.nodup_params).mem_iff]
  exact List.mem_append_right _ (List.mem_flatMap.mpr ⟨root, own, assigned⟩)

/-- A name that is resolved at all is resolved in the scopes of the function. -/
theorem Lays.eq_resolveRead (lays : program.Lays outer layout) {name : Symbol}
    {resolution : Resolution} (known : layout.resolveRead name = some resolution) :
    resolution = Scopes.resolveRead (layout.locals :: outer) name := by
  rw [Layout.resolveRead, lays.reads_eq] at known
  exact eq_of_lastEntry_map known

theorem Lays.eq_resolveSuper (lays : program.Lays outer layout) {name : Symbol}
    {resolution : Resolution} (known : layout.resolveSuper name = some resolution) :
    resolution = Scopes.resolveSuper (layout.locals :: outer) name := by
  rw [Layout.resolveSuper, lays.supers_eq] at known
  exact eq_of_lastEntry_map known

/-- A literal in the own text of a function is laid out in the scopes of the function. -/
theorem Lays.function (lays : program.Lays outer layout) {root : Expr}
    (own : root ∈ ownText layout.params layout.body) {site : Site}
    {params : List (Symbol × Option Expr)} {body : Expr}
    (within : root.Within (.function site params body)) :
    ∃ inner ∈ program.layouts, inner.literal = site.id ∧
      program.Lays (layout.locals :: outer) inner := by
  obtain ⟨edition, inside, laid, kept⟩ := lays.inside
  obtain ⟨_, of_root, laid, in_inside⟩ := laid.of_mem own
  -- The layouts of the literal are among those of the text it is in, down to the program's.
  obtain ⟨_, of_literal, laid, in_root⟩ := layouts_of_within within laid
  obtain ⟨deeper, inner, rfl, deeper_laid, made⟩ := laysOut_function laid
  have listed : deeper ++ [inner] ⊆ program.layouts :=
    List.Subset.trans (List.Subset.trans in_root in_inside) kept
  refine ⟨inner, listed (List.mem_append_right _ (List.mem_singleton_self _)), ?_, ?_⟩
  · rw [Layout.literal, (layoutIn_eq_ok made).1]
  · exact lays_of_layoutIn made deeper_laid
      (List.Subset.trans (List.subset_append_left _ _) listed)

/-- If no function literal occurs twice, the program keeps the layout of each. -/
theorem layout?_of_mem {top : Expr} (resolved : resolve edition top = .ok program)
    (once : top.literals.Nodup) {inner : Layout} (member : inner ∈ program.layouts) :
    program.layout? inner.literal = some inner := by
  obtain ⟨layouts, laid, resolved⟩ := bind_eq_ok resolved
  obtain ⟨toplevel, made, ⟨⟩⟩ := bind_eq_ok resolved
  -- One layout for each literal: no two layouts are of the same literal.
  rw [← top.map_literal_layouts laid] at once
  have found : (layouts.reverse.find? fun layout => layout.literal == inner.literal).isSome :=
    List.find?_isSome.mpr ⟨inner, List.mem_reverse.mpr member, by simp⟩
  obtain ⟨other, found⟩ := Option.isSome_iff_exists.mp found
  have listed : other ∈ layouts := List.mem_reverse.mp (List.mem_of_find?_eq_some found)
  have same : other.literal = inner.literal := by simpa using List.find?_some found
  rw [layout?, found, List.inj_on_of_nodup_map once listed member same]

theorem mem_of_layout? {id : NodeId} (known : program.layout? id = some layout) :
    layout ∈ program.layouts :=
  List.mem_reverse.mp (List.mem_of_find?_eq_some known)

theorem literal_of_layout? {id : NodeId} (known : program.layout? id = some layout) :
    layout.literal = id := by
  simpa using List.find?_some known

/-- A layout of the program is made for a function literal that is a node of the program. -/
theorem made_of_mem {top : Expr} (resolved : resolve edition top = .ok program)
    (listed : layout ∈ program.layouts) :
    .function layout.site layout.params layout.body ∈ top.nodes ∧ ∃ around given,
      layoutIn edition around given layout.site layout.params layout.body = .ok layout := by
  obtain ⟨layouts, laid, resolved⟩ := bind_eq_ok resolved
  obtain ⟨toplevel, made, ⟨⟩⟩ := bind_eq_ok resolved
  exact top.made_of_mem_layouts laid listed

/-- The literal that a layout of the program is of is a node of the program. -/
theorem function_mem_nodes {top : Expr} (resolved : resolve edition top = .ok program)
    (listed : layout ∈ program.layouts) :
    .function layout.site layout.params layout.body ∈ top.nodes :=
  (made_of_mem resolved listed).1

/-- The defaults and the body of a layout of the program are nodes of the program. -/
theorem mem_nodes_of_ownText {top : Expr} (resolved : resolve edition top = .ok program)
    (listed : layout ∈ program.layouts) {e : Expr}
    (own : e ∈ ownText layout.params layout.body) : e ∈ top.nodes :=
  top.nodes_subset_of_mem_nodes (function_mem_nodes resolved listed)
    (Expr.nodes_subset_of_mem_children own e.mem_nodes_self)

end Program

end Vectorial
