import Vectorial.Proofs.Scope.Totality

/-!
# Layouts are lexical

Resolution goes through the text of a function twice. It first collects what the function assigns,
then resolves what is read in the scopes collected so far, and lays out the literals it meets on
the way. What comes out depends on the text alone. The local names of a function are its parameters
and then the targets of the assignments in its defaults and its body, each once and in the order in
which a walk from left to right leaves them. A name that is read is local if the function binds it,
and its address further out is in the nearest function around that binds it. Non-local assignments
are resolved from the function around outward.

So what a layout should be is said without scopes: by the text of the function literal and the
texts around it. The walk through a text is a list of expressions, and what resolution collects is
what these expressions assign and read themselves. The scopes of a layout are the local names of
the texts around its literal, by induction along these texts.

## Main definitions

* `Expr.walk`: the expressions met on a walk that does not enter function literals;
* `FunctionText`, `TextsAround`: a function literal, and the texts around a place;
* `Layout.IsLexical`: the layout that a function literal has by the texts around it.

## Main results

* `Layout.IsLexical.unique`: a function literal has one lexical layout;
* `Program.Lays.isLexical`: layouts made in the scopes of the texts around are lexical;
* `Program.resolve_lexical`: resolution succeeds, and all its layouts are lexical.
-/

namespace Vectorial

/-! ### The own text of a function -/

/-- The expressions that a walk from left to right through an expression leaves, each after its
parts. A function literal is met but not entered. -/
def Expr.walk (e : Expr) : List Expr :=
  (e.parts.attach.flatMap fun part => part.1.walk) ++ [e]
termination_by sizeOf e
decreasing_by exact sizeOf_lt_of_mem_children (mem_children_of_mem_parts part.2)

theorem Expr.walk_eq (e : Expr) : e.walk = e.parts.flatMap Expr.walk ++ [e] := by
  rw [walk, ← List.flatMap_map Subtype.val Expr.walk, List.attach_map_subtype_val]

theorem Expr.mem_walk_self (e : Expr) : e ∈ e.walk := by
  rw [walk_eq]
  exact List.mem_append_right _ (List.mem_singleton_self e)

/-- The parts of what is met are met. -/
theorem Expr.mem_walk_of_part {root e part : Expr} (met : e ∈ root.walk) (inside : part ∈ e.parts) :
    part ∈ root.walk := by
  induction root using Expr.childInduction with
  | step root ih =>
    rw [walk_eq] at met ⊢
    refine List.mem_append_left _ (List.mem_flatMap.mpr ?_)
    rcases List.mem_append.mp met with inner | own
    · obtain ⟨child, listed, met⟩ := List.mem_flatMap.mp inner
      exact ⟨child, listed, ih child (mem_children_of_mem_parts listed) met⟩
    · rw [List.mem_singleton.mp own] at inside
      exact ⟨part, inside, part.mem_walk_self⟩

/-- A walk meets what is inside the expression and in no function literal. -/
theorem Expr.mem_walk_iff {root e : Expr} : e ∈ root.walk ↔ root.Within e := by
  constructor
  · induction root using Expr.childInduction with
    | step root ih =>
      intro member
      rw [walk_eq] at member
      rcases List.mem_append.mp member with inner | own
      · obtain ⟨part, inside, member⟩ := List.mem_flatMap.mp inner
        exact .trans (.part .self inside) (ih part (mem_children_of_mem_parts inside) member)
      · rw [List.mem_singleton.mp own]
        exact .self
  · intro within
    induction within with
    | self => exact root.mem_walk_self
    | part _ inside ih => exact mem_walk_of_part ih inside

/-- What is collected on the walk from the expressions themselves. -/
theorem Expr.filterMap_walk {f : Expr → List Symbol} {own : Expr → Option Symbol}
    (f_eq : ∀ e, f e = e.parts.flatMap f ++ (own e).toList) (e : Expr) :
    e.walk.filterMap own = f e := by
  -- A function literal has no parts, so that on neither side anything is collected in one.
  induction e using Expr.childInduction with
  | step e ih =>
    have parts : e.parts.flatMap (fun part => part.walk.filterMap own) = e.parts.flatMap f :=
      List.flatMap_congr fun part inside => ih part (mem_children_of_mem_parts inside)
    rw [walk_eq, List.filterMap_append, List.filterMap_flatMap, parts, f_eq]
    congr 1

/-! ### Texts -/

/-- A function literal, or a whole program as one without parameters. -/
structure FunctionText where
  site : Site
  params : List (Symbol × Option Expr)
  body : Expr

/-- A whole program, as the text of a function without parameters. -/
def FunctionText.program (top : Expr) : FunctionText :=
  ⟨top.site, [], top⟩

namespace FunctionText

/-- The walk through the defaults, in the order of the parameters, and the body. -/
def walk (text : FunctionText) : List Expr :=
  (text.params.filterMap Prod.snd).flatMap Expr.walk ++ text.body.walk

/-- The names that are bound in the text: the parameters, and then the targets of assignments, as
often as they occur. -/
def bound (text : FunctionText) : List Symbol :=
  text.params.map Prod.fst ++ text.walk.filterMap Expr.target?

/-- The text has a slot for the name: its position when each bound name is listed once. -/
def HasSlot (text : FunctionText) (name : Symbol) (slot : Nat) : Prop :=
  ∃ names, ListsOnce names text.bound ∧ names[slot]? = some name

end FunctionText

/-- The texts around a place in a program, innermost first: the program comes last, and before a
text stands a function literal that is met on the walk through it. -/
inductive TextsAround (top : Expr) : List FunctionText → Prop where
  | program : TextsAround top [.program top]
  | function {text : FunctionText} {outer : List FunctionText} {site : Site}
      {params : List (Symbol × Option Expr)} {body : Expr} :
      TextsAround top (text :: outer) → .function site params body ∈ text.walk →
      TextsAround top (⟨site, params, body⟩ :: text :: outer)

/-- Where a name is found around the innermost of some texts: in the nearest one that binds it. -/
def FoundAround (texts : List FunctionText) (name : Symbol) : Option Address → Prop
  | some address =>
    address.name = name ∧ 1 ≤ address.hops ∧
      (∃ text, texts[address.hops]? = some text ∧ text.HasSlot name address.slot) ∧
      ∀ hops text, 1 ≤ hops → hops < address.hops → texts[hops]? = some text → name ∉ text.bound
  | none => ∀ hops text, 1 ≤ hops → texts[hops]? = some text → name ∉ text.bound

/-- Where a name that is read in the innermost of some texts is found. -/
def ReadAs (text : FunctionText) (outer : List FunctionText) (name : Symbol) : Resolution → Prop
  | .here slot address => text.HasSlot name slot ∧ FoundAround (text :: outer) name address
  | .enclosing address => name ∉ text.bound ∧ FoundAround (text :: outer) name (some address)
  | .nowhere => name ∉ text.bound ∧ FoundAround (text :: outer) name none

/-- Where the target of a non-local assignment in the innermost of some texts is found. -/
def SuperAs (text : FunctionText) (outer : List FunctionText) (name : Symbol) : Resolution → Prop
  | .here .. => False
  | .enclosing address => FoundAround (text :: outer) name (some address)
  | .nowhere => FoundAround (text :: outer) name none

/-- A layout is the lexical one of a text with other texts around it. -/
structure Layout.IsLexical (layout : Layout) (text : FunctionText) (outer : List FunctionText) :
    Prop where
  site_eq : layout.site = text.site
  params_eq : layout.params = text.params
  body_eq : layout.body = text.body
  locals : ListsOnce layout.locals text.bound
  slotOf_iff : ∀ name slot, layout.slotOf name = some slot ↔ layout.locals[slot]? = some name
  read_iff : ∀ name, (layout.resolveRead name).isSome ↔ ∃ site, .ident site name ∈ text.walk
  read : ∀ name resolution, layout.resolveRead name = some resolution →
    ReadAs text outer name resolution
  super_iff : ∀ name, (layout.resolveSuper name).isSome ↔
    ∃ site value, .superAssign site name value ∈ text.walk
  super : ∀ name resolution, layout.resolveSuper name = some resolution →
    SuperAs text outer name resolution

/-! ### The texts determine the layout -/

theorem FunctionText.HasSlot.mem_bound {text : FunctionText} {name : Symbol} {slot : Nat}
    (has_slot : text.HasSlot name slot) : name ∈ text.bound := by
  obtain ⟨names, lists, here⟩ := has_slot
  exact (lists.mem_iff name).mp (List.mem_of_getElem? here)

/-- A name has one slot at most. -/
theorem FunctionText.HasSlot.unique {text : FunctionText} {name : Symbol} {slot slot' : Nat}
    (here : text.HasSlot name slot) (there : text.HasSlot name slot') : slot = slot' := by
  obtain ⟨names, lists, here⟩ := here
  obtain ⟨names', lists', there⟩ := there
  rw [← lists.unique lists'] at there
  obtain ⟨inside, -⟩ := List.getElem?_eq_some_iff.mp here
  exact (List.getElem?_inj inside lists.nodup).mp (here.trans there.symm)

section Unique

variable {texts : List FunctionText} {name : Symbol} {a b : Address}

/-- What is found is in a text that binds the name. -/
theorem FoundAround.exists_bound (found : FoundAround texts name (some a)) :
    1 ≤ a.hops ∧ ∃ text, texts[a.hops]? = some text ∧ name ∈ text.bound := by
  obtain ⟨-, outside, ⟨text, here, has_slot⟩, -⟩ := found
  exact ⟨outside, text, here, has_slot.mem_bound⟩

/-- No text that binds the name is passed over. -/
theorem FoundAround.hops_le (found : FoundAround texts name (some a))
    (found' : FoundAround texts name (some b)) : a.hops ≤ b.hops := by
  obtain ⟨-, -, -, nearest⟩ := found
  obtain ⟨outside, text, here, bound⟩ := found'.exists_bound
  by_contra later
  exact nearest b.hops text outside (Nat.lt_of_not_le later) here bound

theorem FoundAround.unique {address address' : Option Address}
    (found : FoundAround texts name address) (found' : FoundAround texts name address') :
    address = address' := by
  cases address with
  | none =>
    cases address' with
    | none => rfl
    | some b =>
      obtain ⟨outside, text, here, bound⟩ := found'.exists_bound
      exact absurd bound (found b.hops text outside here)
  | some a =>
    cases address' with
    | none =>
      obtain ⟨outside, text, here, bound⟩ := found.exists_bound
      exact absurd bound (found' a.hops text outside here)
    | some b =>
      -- Each is the nearest text that binds the name, so that neither is nearer than the other.
      have hops : a.hops = b.hops := Nat.le_antisymm (found.hops_le found') (found'.hops_le found)
      obtain ⟨named, -, ⟨text, here, has_slot⟩, -⟩ := found
      obtain ⟨named', -, ⟨text', here', has_slot'⟩, -⟩ := found'
      rw [← hops, here] at here'
      cases here'
      have slots : a.slot = b.slot := has_slot.unique has_slot'
      cases a
      cases b
      simp only [Option.some.injEq, Address.mk.injEq]
      exact ⟨named.trans named'.symm, hops, slots⟩

end Unique

theorem ReadAs.unique {text : FunctionText} {outer : List FunctionText} {name : Symbol}
    {resolution resolution' : Resolution} (read : ReadAs text outer name resolution)
    (read' : ReadAs text outer name resolution') : resolution = resolution' := by
  cases resolution <;> cases resolution'
  case here.here => rw [read.1.unique read'.1, read.2.unique read'.2]
  case here.enclosing => exact absurd read.1.mem_bound read'.1
  case here.nowhere => exact absurd read.1.mem_bound read'.1
  case enclosing.here => exact absurd read'.1.mem_bound read.1
  case enclosing.enclosing => rw [Option.some.inj (read.2.unique read'.2)]
  case enclosing.nowhere => cases read.2.unique read'.2
  case nowhere.here => exact absurd read'.1.mem_bound read.1
  case nowhere.enclosing => cases read.2.unique read'.2
  case nowhere.nowhere => rfl

theorem SuperAs.unique {text : FunctionText} {outer : List FunctionText} {name : Symbol}
    {resolution resolution' : Resolution} (assigned : SuperAs text outer name resolution)
    (assigned' : SuperAs text outer name resolution') : resolution = resolution' := by
  cases resolution <;> cases resolution' <;> simp only [SuperAs] at assigned assigned'
  case enclosing.enclosing => rw [Option.some.inj (assigned.unique assigned')]
  case enclosing.nowhere => cases assigned.unique assigned'
  case nowhere.enclosing => cases assigned.unique assigned'
  case nowhere.nowhere => rfl

theorem eq_of_isSome_iff {α : Type} {a b : Option α} (same : a.isSome ↔ b.isSome)
    (agree : ∀ x y, a = some x → b = some y → x = y) : a = b := by
  cases a <;> cases b <;> simp_all

/-- A function literal has one lexical layout: its local names and slots, and where it finds each
name, are determined by the texts. -/
theorem Layout.IsLexical.unique {layout other : Layout} {text : FunctionText}
    {outer : List FunctionText} (lexical : layout.IsLexical text outer)
    (other_lexical : other.IsLexical text outer) :
    layout.locals = other.locals ∧ layout.slotOf = other.slotOf ∧
      layout.resolveRead = other.resolveRead ∧ layout.resolveSuper = other.resolveSuper := by
  have locals := lexical.locals.unique other_lexical.locals
  refine ⟨locals, ?_, ?_, ?_⟩
  · ext name slot
    rw [lexical.slotOf_iff, other_lexical.slotOf_iff, locals]
  · funext name
    refine eq_of_isSome_iff ((lexical.read_iff name).trans (other_lexical.read_iff name).symm) ?_
    intro resolution resolution' here there
    exact (lexical.read name _ here).unique (other_lexical.read name _ there)
  · funext name
    refine eq_of_isSome_iff ((lexical.super_iff name).trans (other_lexical.super_iff name).symm) ?_
    intro resolution resolution' here there
    exact (lexical.super name _ here).unique (other_lexical.super name _ there)

/-! ### Local names -/

namespace FunctionText

/-- Whether no parameter of the text repeats the name of another. -/
def DistinctParameters (text : FunctionText) : Prop :=
  (text.params.map Prod.fst).Nodup

/-- The local names that resolution gives the text. -/
def locals (text : FunctionText) : List Symbol :=
  localNames text.params text.body

variable {text : FunctionText} {name : Symbol} {slot : Nat}

theorem walk_eq (text : FunctionText) :
    text.walk = (ownText text.params text.body).flatMap Expr.walk := by
  rw [walk, ownText, List.flatMap_append, List.flatMap_singleton]

/-- What is collected on the walk through a text. -/
theorem filterMap_walk {f : Expr → List Symbol} {own : Expr → Option Symbol}
    (f_eq : ∀ e, f e = e.parts.flatMap f ++ (own e).toList) (text : FunctionText) :
    text.walk.filterMap own = (ownText text.params text.body).flatMap f := by
  rw [walk_eq, List.filterMap_flatMap]
  exact List.flatMap_congr fun e _ => Expr.filterMap_walk f_eq e

theorem mem_walk_iff {e : Expr} :
    e ∈ text.walk ↔ ∃ root ∈ ownText text.params text.body, root.Within e := by
  simp only [walk_eq, List.mem_flatMap, Expr.mem_walk_iff]

/-- The local names are the bound names, each once. -/
theorem DistinctParameters.listsOnce (distinct : text.DistinctParameters) :
    ListsOnce text.locals text.bound := by
  rw [bound, filterMap_walk Expr.targets_eq]
  exact listsOnce_localNames distinct

theorem DistinctParameters.hasSlot (distinct : text.DistinctParameters)
    (found : text.locals.idxOf? name = some slot) : text.HasSlot name slot := by
  obtain ⟨inside, rfl, -⟩ := List.idxOf?_eq_some_iff.mp found
  exact ⟨text.locals, distinct.listsOnce, List.getElem?_eq_getElem inside⟩

theorem DistinctParameters.notMem_bound (distinct : text.DistinctParameters)
    (missing : text.locals.idxOf? name = none) : name ∉ text.bound := by
  rw [← distinct.listsOnce.mem_iff]
  exact List.idxOf?_eq_none_iff.mp missing

end FunctionText

/-! ### Finding names -/

section Finding

variable {texts outer : List FunctionText} {text : FunctionText} {name : Symbol}

/-- A name that is found among the scopes of some texts is found in the first text that binds
it. -/
theorem Scopes.findFrom_eq_some (distinct : ∀ text ∈ texts, text.DistinctParameters) {hops : Nat}
    {address : Address}
    (found : findFrom name (texts.map FunctionText.locals) hops = some address) :
    address.name = name ∧ ∃ further, address.hops = hops + further ∧
      (∃ text, texts[further]? = some text ∧ text.HasSlot name address.slot) ∧
      ∀ nearer < further, ∀ text, texts[nearer]? = some text → name ∉ text.bound := by
  -- Each text that does not bind the name is one more hop.
  induction texts generalizing hops with
  | nil => cases found
  | cons text rest ih =>
    rw [List.map_cons, findFrom] at found
    have first : text.DistinctParameters := distinct text List.mem_cons_self
    split at found
    · next slot known =>
      cases found
      exact ⟨rfl, 0, rfl, ⟨text, rfl, first.hasSlot known⟩, fun nearer before => by omega⟩
    · next missing =>
      obtain ⟨same, further, hops_eq, holder, nearest⟩ :=
        ih (fun other later => distinct other (List.mem_cons_of_mem _ later)) found
      refine ⟨same, further + 1, by omega, holder, fun nearer before other at_nearer => ?_⟩
      cases nearer with
      | zero =>
        cases at_nearer
        exact first.notMem_bound missing
      | succ nearer => exact nearest nearer (by omega) other at_nearer

theorem Scopes.findFrom_eq_none (distinct : ∀ text ∈ texts, text.DistinctParameters) {hops : Nat}
    (missing : findFrom name (texts.map FunctionText.locals) hops = none) :
    ∀ text ∈ texts, name ∉ text.bound := by
  induction texts generalizing hops with
  | nil => simp
  | cons text rest ih =>
    rw [List.map_cons, findFrom] at missing
    split at missing
    · cases missing
    · next absent =>
      intro other listed
      rcases List.mem_cons.mp listed with rfl | later
      · exact (distinct other List.mem_cons_self).notMem_bound absent
      · exact ih (fun other later => distinct other (List.mem_cons_of_mem _ later)) missing other
          later

/-- The search around the innermost scope finds what the texts say. -/
theorem foundAround_findOuter (distinct : ∀ text ∈ outer, text.DistinctParameters)
    (scope : List Symbol) (name : Symbol) :
    FoundAround (text :: outer) name
      (Scopes.findOuter (scope :: outer.map FunctionText.locals) name) := by
  rw [Scopes.findOuter, List.tail_cons]
  cases found : Scopes.findFrom name (outer.map FunctionText.locals) 1 with
  | some address =>
    obtain ⟨same, further, hops_eq, holder, nearest⟩ := Scopes.findFrom_eq_some distinct found
    refine ⟨same, by omega, ?_, ?_⟩
    · rwa [hops_eq, Nat.add_comm, List.getElem?_cons_succ]
    · intro hops other outside before at_hops
      obtain ⟨nearer, rfl⟩ := Nat.exists_eq_add_of_le' outside
      exact nearest nearer (by omega) other at_hops
  | none =>
    intro hops other outside at_hops
    obtain ⟨nearer, rfl⟩ := Nat.exists_eq_add_of_le' outside
    exact Scopes.findFrom_eq_none distinct found other (List.mem_of_getElem? at_hops)

/-- A name is read as the texts say. -/
theorem readAs_resolveRead (distinct : text.DistinctParameters)
    (around : ∀ other ∈ outer, other.DistinctParameters) (name : Symbol) :
    ReadAs text outer name
      (Scopes.resolveRead (text.locals :: outer.map FunctionText.locals) name) := by
  have found : FoundAround (text :: outer) name _ := foundAround_findOuter around text.locals name
  rw [Scopes.resolveRead, List.headD_cons]
  split
  · next slot known => exact ⟨distinct.hasSlot known, found⟩
  · next missing =>
    have unbound : name ∉ text.bound := distinct.notMem_bound missing
    cases outward : Scopes.findOuter (text.locals :: outer.map FunctionText.locals) name <;>
      rw [outward] at found <;> exact ⟨unbound, found⟩

/-- A non-local assignment is resolved as the texts say. -/
theorem superAs_resolveSuper (around : ∀ other ∈ outer, other.DistinctParameters)
    (scope : List Symbol) (name : Symbol) :
    SuperAs text outer name
      (Scopes.resolveSuper (scope :: outer.map FunctionText.locals) name) := by
  have found : FoundAround (text :: outer) name _ := foundAround_findOuter around scope name
  rw [Scopes.resolveSuper]
  cases outward : Scopes.findOuter (scope :: outer.map FunctionText.locals) name <;>
    rw [outward] at found <;> exact found

end Finding

/-! ### Layouts of texts -/

theorem isSome_lastEntry_map {α : Type} {names : List Symbol} {f : Symbol → α} {name : Symbol} :
    (lastEntry (names.map fun n => (n, f n)) name).isSome ↔ name ∈ names := by
  constructor
  · intro known
    by_contra absent
    rw [lastEntry_eq_none] at known
    · cases known
    · rintro entry listed rfl
      obtain ⟨n, inside, rfl⟩ := List.mem_map.mp listed
      exact absent inside
  · intro member
    rw [lastEntry_map f member]
    rfl

namespace FunctionText

variable {name : Symbol}

theorem mem_reads_iff (text : FunctionText) :
    name ∈ (ownText text.params text.body).flatMap Expr.reads ↔
      ∃ site, .ident site name ∈ text.walk := by
  rw [← filterMap_walk Expr.reads_eq, List.mem_filterMap]
  constructor
  · rintro ⟨e, met, read⟩
    cases e <;> cases read
    exact ⟨_, met⟩
  · rintro ⟨site, met⟩
    exact ⟨_, met, rfl⟩

theorem mem_superTargets_iff (text : FunctionText) :
    name ∈ (ownText text.params text.body).flatMap Expr.superTargets ↔
      ∃ site value, .superAssign site name value ∈ text.walk := by
  rw [← filterMap_walk Expr.superTargets_eq, List.mem_filterMap]
  constructor
  · rintro ⟨e, met, assigned⟩
    cases e <;> cases assigned
    exact ⟨_, _, met⟩
  · rintro ⟨site, value, met⟩
    exact ⟨_, met, rfl⟩

end FunctionText

/-- The text that a layout is of. -/
def FunctionText.ofLayout (layout : Layout) : FunctionText :=
  ⟨layout.site, layout.params, layout.body⟩

/-- A layout that is made in the scopes of the texts around it is the lexical one. -/
theorem Program.Lays.isLexical {program : Program} {layout : Layout} {outer : List FunctionText}
    (lays : program.Lays (outer.map FunctionText.locals) layout)
    (around : ∀ other ∈ outer, other.DistinctParameters) :
    layout.IsLexical (.ofLayout layout) outer := by
  have distinct : (FunctionText.ofLayout layout).DistinctParameters := layout.nodup_params
  have locals_eq : layout.locals = (FunctionText.ofLayout layout).locals := lays.locals_eq
  refine
    { site_eq := rfl, params_eq := rfl, body_eq := rfl
      locals := ?locals, slotOf_iff := ?slotOf_iff
      read_iff := ?read_iff, read := ?read, super_iff := ?super_iff, super := ?super }
  case locals =>
    rw [locals_eq]
    exact distinct.listsOnce
  case slotOf_iff =>
    intro name slot
    rw [lays.slotOf_eq]
    -- With distinct names a position is the first at which its name stands.
    constructor
    · intro known
      obtain ⟨inside, rfl, -⟩ := List.idxOf?_eq_some_iff.mp known
      exact List.getElem?_eq_getElem inside
    · exact idxOf?_eq_some_of_nodup lays.distinct
  case read_iff =>
    intro name
    rw [Layout.resolveRead, lays.reads_eq, isSome_lastEntry_map, mem_firstOccurrences]
    exact FunctionText.mem_reads_iff (.ofLayout layout)
  case read =>
    intro name resolution known
    rw [lays.eq_resolveRead known, locals_eq]
    exact readAs_resolveRead distinct around name
  case super_iff =>
    intro name
    rw [Layout.resolveSuper, lays.supers_eq, isSome_lastEntry_map, mem_firstOccurrences]
    exact FunctionText.mem_superTargets_iff (.ofLayout layout)
  case super =>
    intro name resolution known
    rw [lays.eq_resolveSuper known]
    exact superAs_resolveSuper around layout.locals name

/-! ### The texts of a program -/

namespace TextsAround

variable {top : Expr} {text : FunctionText} {outer : List FunctionText}

/-- What a walk through one of the texts meets is a node of the program. -/
theorem mem_nodes_of_met : ∀ {text : FunctionText} {outer : List FunctionText},
    TextsAround top (text :: outer) → ∀ e ∈ text.walk, e ∈ top.nodes
  | _, _, .program, e, met => by
    obtain ⟨root, own, within⟩ := FunctionText.mem_walk_iff.mp met
    rw [List.mem_singleton.mp own] at within
    exact within.mem_nodes
  | _, _, .function around inner, e, met => by
    obtain ⟨root, own, within⟩ := FunctionText.mem_walk_iff.mp met
    refine top.nodes_subset_of_mem_nodes (mem_nodes_of_met around _ inner) ?_
    exact Expr.nodes_subset_of_mem_children own within.mem_nodes

theorem distinctParameters (distinct : top.DistinctParameters) {texts : List FunctionText}
    (around : TextsAround top texts) : ∀ text ∈ texts, text.DistinctParameters := by
  induction around with
  | program =>
    intro text listed
    rw [List.mem_singleton.mp listed]
    exact List.nodup_nil
  | @function text outer site params body around inner ih =>
    intro other listed
    rcases List.mem_cons.mp listed with rfl | later
    · exact distinct site params body (around.mem_nodes_of_met _ inner)
    · exact ih other later

/-- Everything in an expression that a walk through one of the texts meets is met in some text. -/
theorem exists_met {e : Expr} (around : TextsAround top (text :: outer)) (met : e ∈ text.walk)
    {node : Expr} (inside : node ∈ e.nodes) :
    ∃ text outer, TextsAround top (text :: outer) ∧ node ∈ text.walk := by
  induction e using Expr.childInduction generalizing text outer with
  | step e ih =>
    -- The texts change on the way into a function literal, so the induction is for all of them.
    rw [Expr.nodes_eq] at inside
    rcases List.mem_append.mp inside with deeper | own
    · obtain ⟨child, listed, inside_child⟩ := List.mem_flatMap.mp deeper
      obtain ⟨root, own, within⟩ := FunctionText.mem_walk_iff.mp met
      cases known : e.literal? with
      | none =>
        rw [Expr.children_eq_parts known] at listed
        exact ih child (Expr.mem_children_of_mem_parts listed) around
          (FunctionText.mem_walk_iff.mpr ⟨root, own, within.part listed⟩) inside_child
      | some id =>
        -- The children of a function literal are met in its own text.
        cases e with
        | function site params body =>
          exact ih child listed (.function around met)
            (FunctionText.mem_walk_iff.mpr ⟨child, listed, .self⟩) inside_child
        | _ => cases known
    · rw [List.mem_singleton.mp own]
      exact ⟨text, outer, around, met⟩

/-- Every function literal of a program has texts around it. -/
theorem exists_of_mem_nodes {site : Site} {params : List (Symbol × Option Expr)} {body : Expr}
    (node : .function site params body ∈ top.nodes) :
    ∃ outer, outer ≠ [] ∧ TextsAround top (⟨site, params, body⟩ :: outer) := by
  have met : top ∈ (FunctionText.program top).walk :=
    FunctionText.mem_walk_iff.mpr ⟨top, List.mem_singleton_self top, .self⟩
  obtain ⟨text, outer, around, met⟩ := exists_met .program met node
  exact ⟨text :: outer, List.cons_ne_nil _ _, .function around met⟩

variable {edition : Nat} {program : Program}

/-- Resolution lays out each of the texts in the scopes of those around it. -/
theorem exists_lays (resolved : Program.resolve edition top = .ok program)
    (once : top.literals.Nodup) : ∀ {text : FunctionText} {outer : List FunctionText},
    TextsAround top (text :: outer) → ∃ layout, .ofLayout layout = text ∧
      program.Lays (outer.map FunctionText.locals) layout ∧
      (outer ≠ [] → layout ∈ program.layouts)
  | _, _, .program => by
    refine ⟨program.toplevel, ?_, Program.lays_toplevel resolved, fun more => absurd rfl more⟩
    rw [FunctionText.ofLayout, Program.site_toplevel resolved, Program.params_toplevel resolved,
      Program.body_toplevel resolved]
    rfl
  | _, _, @TextsAround.function _ _ _ site params body around met => by
    -- The text around has its layout, and the literal is laid out in the scopes of that one.
    obtain ⟨layout, rfl, lays, -⟩ := exists_lays resolved once around
    obtain ⟨root, own, within⟩ := FunctionText.mem_walk_iff.mp met
    obtain ⟨inner, listed, numbered, inner_lays⟩ := lays.function own within
    -- The number of the literal identifies its text.
    have same : Expr.function inner.site inner.params inner.body = .function site params body :=
      Expr.eq_of_literal_eq once (Program.function_mem_nodes resolved listed)
        (around.mem_nodes_of_met _ met) (congrArg some numbered) rfl
    cases same
    rw [lays.locals_eq] at inner_lays
    exact ⟨inner, rfl, inner_lays, fun _ => listed⟩

end TextsAround

namespace Program

theorem mem_of_isSome_layout? {program : Program} {id : NodeId}
    (known : (program.layout? id).isSome) : id ∈ program.layouts.map Layout.literal := by
  obtain ⟨layout, known⟩ := Option.isSome_iff_exists.mp known
  exact List.mem_map.mpr ⟨layout, mem_of_layout? known, literal_of_layout? known⟩

/-- Resolution computes the lexical layouts. If no function literal occurs twice and none repeats
the name of a parameter, it succeeds and keeps one layout for each literal that occurs. The layout
of the program is the lexical one of its whole text, and that of a literal is the lexical one of
the literal in the texts around it. -/
theorem resolve_lexical (edition : Nat) {top : Expr} (once : top.literals.Nodup)
    (distinct : top.DistinctParameters) :
    ∃ program, resolve edition top = .ok program ∧
      program.layouts.map Layout.literal = top.literals ∧
      (∀ id, (program.layout? id).isSome ↔ id ∈ top.literals) ∧
      program.toplevel.IsLexical (.program top) [] ∧
      (∀ site params body, .function site params body ∈ top.nodes →
        ∃ outer, outer ≠ [] ∧ TextsAround top (⟨site, params, body⟩ :: outer)) ∧
      ∀ text outer, outer ≠ [] → TextsAround top (text :: outer) →
        ∃ layout, program.layout? text.site.id = some layout ∧ layout.IsLexical text outer := by
  obtain ⟨program, resolved⟩ := (exists_resolve_iff edition top).mpr distinct
  -- The layouts come in the order in which the literals stand in the text.
  have literals_eq : program.layouts.map Layout.literal = top.literals := by
    obtain ⟨layouts, laid, resolved⟩ := bind_eq_ok resolved
    obtain ⟨toplevel, made, ⟨⟩⟩ := bind_eq_ok resolved
    exact top.map_literal_layouts laid
  refine ⟨program, resolved, literals_eq, fun id => ?_, ?_,
    fun site params body => TextsAround.exists_of_mem_nodes, fun text outer inner around => ?_⟩
  · rw [← literals_eq]
    constructor
    · exact mem_of_isSome_layout?
    · intro listed
      obtain ⟨layout, inside, rfl⟩ := List.mem_map.mp listed
      rw [layout?_of_mem resolved once inside]
      rfl
  · have lexical : program.toplevel.IsLexical _ [] :=
      (lays_toplevel resolved).isLexical fun _ never => (List.not_mem_nil never).elim
    rwa [FunctionText.ofLayout, site_toplevel resolved, params_toplevel resolved,
      body_toplevel resolved] at lexical
  · obtain ⟨layout, rfl, lays, listed⟩ := TextsAround.exists_lays resolved once around
    refine ⟨layout, layout?_of_mem resolved once (listed inner), lays.isLexical ?_⟩
    exact fun other later => around.distinctParameters distinct other (List.mem_cons_of_mem _ later)

/-- The literal `function(x) { y <- x; z; w }`. -/
def innerLiteral : FunctionText where
  site := ⟨11, default⟩
  params := [("x", none)]
  body := .block ⟨10, default⟩
    [.assign ⟨7, default⟩ "y" (.ident ⟨6, default⟩ "x"), .ident ⟨8, default⟩ "z",
      .ident ⟨9, default⟩ "w"]

/-- The literal `function(x, y = z <- x) { x <<- y; function(x) { y <- x; z; w } }`. -/
def outerLiteral : FunctionText where
  site := ⟨13, default⟩
  params := [("x", none), ("y", some (.assign ⟨2, default⟩ "z" (.ident ⟨1, default⟩ "x")))]
  body := .block ⟨12, default⟩
    [.superAssign ⟨4, default⟩ "x" (.ident ⟨3, default⟩ "y"),
      .function innerLiteral.site innerLiteral.params innerLiteral.body]

/-- The program `{ function(x, y = z <- x) { x <<- y; function(x) { y <- x; z; w } }; w <- 1L }`. -/
def nestedLiterals : Expr :=
  .block ⟨16, default⟩
    [.function outerLiteral.site outerLiteral.params outerLiteral.body,
      .assign ⟨15, default⟩ "w" (.literal ⟨14, default⟩ (.integer 1))]

/-- The inner function shadows a parameter of the outer one, and finds the target of an assignment
in a default of the outer function and one further out. -/
theorem resolve_lexical_nestedLiterals :
    ∃ program layout, resolve 0 nestedLiterals = .ok program ∧
      program.layout? 11 = some layout ∧
      layout.IsLexical innerLiteral [outerLiteral, .program nestedLiterals] ∧
      layout.locals = ["x", "y"] ∧
      layout.resolveRead "x" = some (.here 0 (some ⟨"x", 1, 0⟩)) ∧
      layout.resolveRead "z" = some (.enclosing ⟨"z", 1, 2⟩) ∧
      layout.resolveRead "w" = some (.enclosing ⟨"w", 2, 0⟩) := by
  have distinct : nestedLiterals.DistinctParameters := (exists_resolve_iff 0 _).mp ⟨_, rfl⟩
  obtain ⟨program, resolved, -, -, -, -, lexical⟩ :=
    @resolve_lexical 0 nestedLiterals (by decide) distinct
  have outer_around : TextsAround nestedLiterals [outerLiteral, .program nestedLiterals] :=
    .function .program (FunctionText.mem_walk_iff.mpr
      ⟨nestedLiterals, List.mem_singleton_self _, .part .self (.head _)⟩)
  have inner_around :
      TextsAround nestedLiterals [innerLiteral, outerLiteral, .program nestedLiterals] :=
    .function outer_around (FunctionText.mem_walk_iff.mpr
      ⟨outerLiteral.body, .tail _ (.head _), .part .self (.tail _ (.head _))⟩)
  obtain ⟨layout, known, lexical⟩ := lexical _ _ (List.cons_ne_nil _ _) inner_around
  refine ⟨program, layout, resolved, known, lexical, ?_⟩
  cases resolved
  cases known
  exact ⟨rfl, rfl, rfl, rfl⟩

end Program

end Vectorial
