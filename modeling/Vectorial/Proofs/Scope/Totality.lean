import Vectorial.Proofs.Scope.Resolution

/-!
# Programs that are laid out

The parameters of a function literal are malformed only if a name repeats: those that a
call must supply are among them and the varargs marker is not, and the local names begin
with them. So a program is laid out exactly if no function literal in it repeats the name
of a parameter.

## Main definitions

* `Expr.DistinctParameters`: no function literal repeats the name of a parameter.

## Main results

* `Layout.exists_of`: a layout from its parts;
* `Program.exists_resolve_iff`: the programs that are laid out.
-/

namespace Vectorial

/-- Whether no function literal in an expression repeats the name of a parameter. -/
def Expr.DistinctParameters (top : Expr) : Prop :=
  ∀ site params body, .function site params body ∈ top.nodes → (params.map Prod.fst).Nodup

theorem Expr.DistinctParameters.of_mem_nodes {top e : Expr} (distinct : top.DistinctParameters)
    (inside : e ∈ top.nodes) : e.DistinctParameters :=
  fun site params body member =>
    distinct site params body (top.nodes_subset_of_mem_nodes inside member)

/-! ### One layout -/

theorem Formals.firstRepeated_eq_none {seen names : List Symbol}
    (distinct : (seen ++ names).Nodup) : firstRepeated seen names = none := by
  induction names generalizing seen with
  | nil => rfl
  | cons name rest ih =>
    have fresh : name ∉ seen := fun old =>
      (List.nodup_append.mp distinct).2.2 name old name List.mem_cons_self rfl
    rw [firstRepeated, if_neg fresh]
    exact ih (by simpa using distinct)

theorem Formals.checkRequired_eq_ok {function : Symbol} {names required : List Symbol}
    (known : required ⊆ names) (optional : Symbol.dots ∉ required) :
    checkRequired function names required = .ok () := by
  induction required with
  | nil => rfl
  | cons name rest ih =>
    obtain ⟨first, others⟩ := List.cons_subset.mp known
    obtain ⟨no_dots, no_later_dots⟩ := not_or.mp (mt List.mem_cons.mpr optional)
    rw [checkRequired, if_neg (not_not_intro first), if_neg (Ne.symm no_dots)]
    exact ih others no_later_dots

/-- Names that do not repeat are parameters, some of them required. -/
theorem Formals.exists_of {names required : List Symbol} (function : Symbol)
    (distinct : names.Nodup) (known : required ⊆ names) (optional : Symbol.dots ∉ required) :
    ∃ formals, Formals.of function names required = .ok formals := by
  have unrepeated : firstRepeated [] names = none := firstRepeated_eq_none distinct
  have checked : checkRequired function names required = .ok () :=
    checkRequired_eq_ok known optional
  rw [Formals.of]
  split
  · next repeated =>
    rw [unrepeated] at repeated
    cases repeated
  · split
    · next refused =>
      rw [checked] at refused
      cases refused
    · exact ⟨_, rfl⟩

namespace Layout

theorem requiredNames_subset (params : List (Symbol × Option Expr)) :
    requiredNames params ⊆ params.map Prod.fst :=
  List.map_subset Prod.fst (List.filter_subset_self params)

theorem dots_notMem_requiredNames (params : List (Symbol × Option Expr)) :
    Symbol.dots ∉ requiredNames params := by
  intro required
  obtain ⟨param, listed, dots⟩ := List.mem_map.mp required
  have named := (List.mem_filter.mp listed).2
  rw [dots, Bool.and_eq_true] at named
  exact absurd named.2 (by decide)

/-- The parts fit together if the slots begin with the parameters and none repeats. -/
theorem exists_of (edition : Nat) {parts : Layout.Parts}
    (distinct : (parts.params.map Prod.fst).Nodup)
    (leading : parts.params.map Prod.fst <+: parts.locals) :
    ∃ layout, Layout.of edition parts = .ok layout := by
  obtain ⟨formals, known⟩ := Formals.exists_of parts.name distinct
    (requiredNames_subset parts.params) (dots_notMem_requiredNames parts.params)
  rw [Layout.of, dif_pos leading]
  split
  · next refused =>
    rw [known] at refused
    cases refused
  · exact ⟨_, rfl⟩

end Layout

theorem prefix_foldl_distinct (names seen : List Symbol) :
    seen <+: names.foldl (fun seen name => if name ∈ seen then seen else seen ++ [name]) seen := by
  induction names generalizing seen with
  | nil => exact List.prefix_refl seen
  | cons name rest ih =>
    rw [List.foldl_cons]
    refine List.IsPrefix.trans ?_ (ih _)
    split
    · exact List.prefix_refl seen
    · exact List.prefix_append seen [name]

theorem prefix_localNames (params : List (Symbol × Option Expr)) (body : Expr) :
    params.map Prod.fst <+: localNames params body :=
  prefix_foldl_distinct _ _

/-! ### All layouts -/

theorem exists_bind_eq_ok {α β : Type} {first : Except Defect α} {next : α → Except Defect β}
    (made : ∃ a, first = .ok a) (continued : ∀ a, ∃ b, next a = .ok b) :
    ∃ b, (first >>= next) = .ok b := by
  obtain ⟨a, rfl⟩ := made
  exact continued a

section Layouts

variable {edition : Nat}

/-- Whether an expression is laid out, whatever is around it. -/
def Expr.IsLaidOut (edition : Nat) (e : Expr) : Prop :=
  ∀ scopes name, ∃ layouts, e.layouts edition scopes name = .ok layouts

theorem exists_layoutsOfElse {scopes : Scopes} {e : Option Expr}
    (each : ∀ part ∈ e.toList, part.IsLaidOut edition) :
    ∃ layouts, layoutsOfElse edition scopes e = .ok layouts := by
  cases e with
  | none => exact ⟨[], rfl⟩
  | some e => exact each e (Option.mem_toList.mpr rfl) scopes anonymousName

theorem exists_layoutsOfDefaults {scopes : Scopes} {params : List (Symbol × Option Expr)}
    (each : ∀ default ∈ params.filterMap Prod.snd, default.IsLaidOut edition) :
    ∃ layouts, layoutsOfDefaults edition scopes params = .ok layouts := by
  induction params with
  | nil => exact ⟨[], rfl⟩
  | cons param rest ih =>
    obtain ⟨name, default⟩ := param
    refine exists_bind_eq_ok (exists_layoutsOfElse fun part given => each part ?_) fun first =>
      exists_bind_eq_ok (ih fun other later => each other ?_) fun others => ⟨_, rfl⟩
    · exact List.mem_filterMap.mpr ⟨_, List.mem_cons_self, Option.mem_toList.mp given⟩
    · obtain ⟨param, listed, given⟩ := List.mem_filterMap.mp later
      exact List.mem_filterMap.mpr ⟨param, List.mem_cons_of_mem _ listed, given⟩

theorem exists_layoutsOfActuals {scopes : Scopes} {actuals : List (Option Symbol × Expr)}
    (each : ∀ actual ∈ actuals.map Prod.snd, actual.IsLaidOut edition) :
    ∃ layouts, layoutsOfActuals edition scopes actuals = .ok layouts := by
  induction actuals with
  | nil => exact ⟨[], rfl⟩
  | cons actual rest ih =>
    refine exists_bind_eq_ok (each actual.2 List.mem_cons_self scopes anonymousName) fun first =>
      exists_bind_eq_ok (ih fun other later => ?_) fun others => ⟨_, rfl⟩
    exact each other (List.mem_cons_of_mem _ later)

theorem exists_layoutsOfBlock {scopes : Scopes} {body : List Expr}
    (each : ∀ e ∈ body, e.IsLaidOut edition) :
    ∃ layouts, layoutsOfBlock edition scopes body = .ok layouts := by
  induction body with
  | nil => exact ⟨[], rfl⟩
  | cons e rest ih =>
    refine exists_bind_eq_ok (each e List.mem_cons_self scopes anonymousName) fun first =>
      exists_bind_eq_ok (ih fun other later => ?_) fun others => ⟨_, rfl⟩
    exact each other (List.mem_cons_of_mem _ later)

/-- An expression is laid out if all expressions immediately inside are and it repeats no
parameter itself. -/
theorem Expr.isLaidOut_of_children {e : Expr}
    (each : ∀ child ∈ e.children, child.IsLaidOut edition)
    (distinct : ∀ site params body, e = .function site params body →
      (params.map Prod.fst).Nodup) : e.IsLaidOut edition := by
  intro scopes name
  cases e with
  | literal site value => exact ⟨[], rfl⟩
  | ident site name => exact ⟨[], rfl⟩
  | assign site target value => exact each value List.mem_cons_self scopes target
  | superAssign site target value => exact each value List.mem_cons_self scopes target
  | function site params body =>
    -- Defaults and body are laid out in the scopes inside; the layout itself can fail only where
    -- parameters are repeated.
    refine exists_bind_eq_ok (exists_layoutsOfDefaults fun default listed => ?_) fun inDefaults =>
      exists_bind_eq_ok (each body ?_ _ _) fun inBody =>
      exists_bind_eq_ok (Layout.exists_of edition ?_ ?_) fun layout => ⟨_, rfl⟩
    · exact each default (List.mem_append_left _ listed)
    · exact List.mem_append_right _ (List.mem_singleton_self body)
    · exact distinct site params body rfl
    · exact prefix_localNames params body
  | call site callee actuals =>
    refine exists_bind_eq_ok (each callee List.mem_cons_self scopes anonymousName) fun first =>
      exists_bind_eq_ok (exists_layoutsOfActuals fun actual listed => ?_) fun rest => ⟨_, rfl⟩
    exact each actual (List.mem_append_left _ (List.mem_cons_of_mem _ listed))
  | binary site op left right =>
    refine exists_bind_eq_ok (each left List.mem_cons_self scopes anonymousName) fun first =>
      exists_bind_eq_ok (each right ?_ scopes anonymousName) fun rest => ⟨_, rfl⟩
    exact List.mem_cons_of_mem _ List.mem_cons_self
  | branch site condition thenBranch elseBranch =>
    refine exists_bind_eq_ok (each condition List.mem_cons_self scopes anonymousName) fun first =>
      exists_bind_eq_ok (each thenBranch ?_ scopes anonymousName) fun second =>
      exists_bind_eq_ok (exists_layoutsOfElse fun part given => each part ?_) fun third => ⟨_, rfl⟩
    · exact List.mem_cons_of_mem _ List.mem_cons_self
    · exact List.mem_cons_of_mem _ (List.mem_cons_of_mem _ given)
  | block site body =>
    exact exists_layoutsOfBlock fun e listed => each e (List.mem_append_left _ listed)

/-- An expression in which no function literal repeats a parameter is laid out. -/
theorem Expr.DistinctParameters.isLaidOut {e : Expr} (distinct : e.DistinctParameters) :
    e.IsLaidOut edition := by
  induction e using Expr.childInduction with
  | step e ih =>
    refine isLaidOut_of_children (fun child inside => ih child inside (distinct.of_mem_nodes ?_)) ?_
    · exact e.nodes_subset_of_mem_children inside child.mem_nodes_self
    · rintro site params body rfl
      exact distinct site params body (Expr.mem_nodes_self _)

/-- An expression that is laid out repeats no parameter. -/
theorem Expr.distinctParameters_of_layouts {e : Expr} {scopes : Scopes} {name : Symbol}
    {layouts : List Layout} (laid : e.layouts edition scopes name = .ok layouts) :
    e.DistinctParameters := by
  induction e using Expr.childInduction generalizing scopes name layouts with
  | step e ih =>
    intro site params body member
    rw [Expr.nodes_eq] at member
    rcases List.mem_append.mp member with inner | own
    · obtain ⟨child, inside, member⟩ := List.mem_flatMap.mp inner
      obtain ⟨around, all, own, -, all_laid, -⟩ := laysOut_children laid
      obtain ⟨name, layouts, laid, -⟩ := all_laid.of_mem inside
      exact ih child inside laid site params body member
    · obtain rfl := List.mem_singleton.mp own
      obtain ⟨inside, layout, -, -, made⟩ := laysOut_function laid
      obtain ⟨-, rfl, -⟩ := layoutIn_eq_ok made
      exact layout.nodup_params

end Layouts

/-- The programs that are laid out are those in which no function literal repeats a
parameter. -/
theorem Program.exists_resolve_iff (edition : Nat) (top : Expr) :
    (∃ program, resolve edition top = .ok program) ↔ top.DistinctParameters := by
  constructor
  · rintro ⟨program, resolved⟩
    obtain ⟨layouts, laid, -⟩ := bind_eq_ok resolved
    exact Expr.distinctParameters_of_layouts laid
  · intro distinct
    refine exists_bind_eq_ok (distinct.isLaidOut _ _) fun layouts =>
      exists_bind_eq_ok (Layout.exists_of edition ?_ ?_) fun toplevel => ⟨_, rfl⟩
    · exact List.nodup_nil
    · exact prefix_localNames [] top

end Vectorial
