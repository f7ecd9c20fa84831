import Vectorial.Proofs.Call.Arity
import Vectorial.Proofs.Evaluation.Disregard
import Vectorial.Proofs.Evaluation.KeptBindings
import Vectorial.Proofs.Scope.Editions

/-!
# Programs over one arena

The nodes of several programs may come from one arena, in which a number identifies a node.
Each program is resolved by itself, and each interpreter keeps bindings of its own. A closure
of one interpreter may all the same be called by another: its layout comes with it, bindings
are a function of the call and of the parameters whoever keeps them, and the function literals
in its text are laid out alike if both programs do so.

## Main definitions

* `Arena`: expressions closed under children, in which numbers identify nodes;
* `Layout.Resolved`: layouts that resolution made for a function literal;
* `Arena.Lays`: layouts of function literals of the arena;
* `Arena.Right`: kept bindings that are what matching gives at calls of the arena;
* `Program.LaysAlike`: two programs that lay out the literals in an expression alike;
* `Arena.region`: frames around, with all functions whose literals are laid out alike.

## Main results

* `Arena.bindings_of_right`: a binding is what matching gives, kept or not;
* `Program.laysAlike_of_resolve`: resolutions of one program lay out everything alike;
* `Arena.laws`: evaluation in two programs over the arena stays in the region.
-/

namespace Vectorial

/-- Expressions whose children are among them, and that their numbers identify. -/
structure Arena where
  holds : Expr → Prop
  child {e child : Expr} : holds e → child ∈ e.children → holds child
  numbered {e other : Expr} : holds e → holds other → e.id = other.id → e = other

/-- The arena of the nodes of one program. -/
def Arena.ofNodes (top : Expr) (numbered : top.Numbered) : Arena where
  holds e := e ∈ top.nodes
  child node inside := top.nodes_subset_of_mem_nodes node
    (Expr.nodes_subset_of_mem_children inside (Expr.mem_nodes_self _))
  numbered node other same := numbered _ node _ other same

/-- The parameters that a function literal declares. -/
def declared (params : List (Symbol × Option Expr)) : List Formal :=
  (params.map Prod.fst).map fun name => ⟨name, decide (name ∈ Layout.requiredNames params)⟩

/-- A layout takes the parameters that its literal declares. -/
theorem declared_of_layoutIn {edition : Nat} {scopes : Scopes} {name : Symbol} {site : Site}
    {params : List (Symbol × Option Expr)} {body : Expr} {layout : Layout}
    (made : layoutIn edition scopes name site params body = .ok layout) :
    layout.formals.params = declared params := by
  unfold layoutIn Layout.of at made
  dsimp only at made
  split at made
  · split at made
    · cases made
    · next formals known =>
      cases made
      -- Two checks can reject the parameters; a layout that is made has passed them as they are.
      unfold Formals.of at known
      split at known
      · cases known
      · split at known
        · cases known
        · cases known
          rfl
  · cases made

/-- Whether resolution made a layout for its function literal. -/
def Layout.Resolved (layout : Layout) : Prop :=
  ∃ edition scopes name,
    layoutIn edition scopes name layout.site layout.params layout.body = .ok layout

theorem Program.resolved_of_mem {edition : Nat} {top : Expr} {program : Program} {layout : Layout}
    (resolved : resolve edition top = .ok program) (listed : layout ∈ program.layouts) :
    layout.Resolved := by
  obtain ⟨-, around, name, made⟩ := made_of_mem resolved listed
  exact ⟨edition, around, name, made⟩

theorem Layout.Resolved.declared_formals {layout : Layout} (resolved : layout.Resolved) :
    layout.formals.params = declared layout.params := by
  obtain ⟨edition, scopes, name, made⟩ := resolved
  exact declared_of_layoutIn made

namespace Arena

variable (arena : Arena)

/-- The nodes of an expression of the arena are in the arena. -/
theorem holds_of_mem_nodes {e node : Expr} (held : arena.holds e) (inside : node ∈ e.nodes) :
    arena.holds node := by
  induction e using Expr.childInduction with
  | step e ih =>
    rw [Expr.nodes_eq] at inside
    rcases List.mem_append.mp inside with below | here
    · obtain ⟨child, listed, inside⟩ := List.mem_flatMap.mp below
      exact ih child listed (arena.child held listed) inside
    · rw [List.mem_singleton.mp here]
      exact held

/-! ### Layouts and bindings -/

/-- Whether a layout is of a function literal of the arena, and resolution made it. -/
structure Lays (layout : Layout) : Prop where
  literal : arena.holds (.function layout.site layout.params layout.body)
  resolved : layout.Resolved

/-- The parameters of what is called at a call of the arena. -/
inductive Takes (builtins : Registry) : Callee → List Formal → Prop where
  | literal {site : Site} {params : List (Symbol × Option Expr)} {body : Expr}
      (held : arena.holds (.function site params body)) :
      Takes builtins (.literal site.id) (declared params)
  | builtin {handle : Nat} {builtin : Builtin} (known : builtins.get handle = some builtin) :
      Takes builtins (.builtin handle) builtin.formals.params

/-- Whether every binding that is kept is what matching gives at a call of the arena. -/
def Right (builtins : Registry) (cache : Option BindingCache) : Prop :=
  ∀ entries ∈ cache, ∀ entry ∈ entries, ∃ site callee actuals formals,
    arena.holds (.call site callee actuals) ∧ site.id = entry.1.1 ∧
      arena.Takes builtins entry.1.2 formals.params ∧
      Matching.matchCall formals (actuals.map Prod.fst) = .ok entry.2

variable {arena} {builtins : Registry}

/-- The key of a callee determines its parameters. -/
theorem Takes.unique {callee : Callee} {params params' : List Formal}
    (takes : arena.Takes builtins callee params) (takes' : arena.Takes builtins callee params') :
    params' = params := by
  cases takes with
  | @literal site names body held =>
    generalize same : Callee.literal site.id = callee at takes'
    cases takes' with
    | literal held' =>
      cases arena.numbered held held' (Callee.literal.inj same)
      rfl
    | builtin => cases same
  | builtin known =>
    cases takes' with
    | builtin known' =>
      rw [known] at known'
      cases known'
      rfl

theorem takes_of_callable {context : Context} {v : Value} {f : Callable}
    (laid : ∀ c ∈ v.closures, arena.Lays c.1) (callable : context.callable? v = some f) :
    arena.Takes context.builtins f.key f.formals.params := by
  cases v with
  | null => cases callable
  | vector => cases callable
  | closure layout env =>
    cases callable
    obtain ⟨held, resolved⟩ := laid (layout, env) (List.mem_singleton_self _)
    rw [resolved.declared_formals]
    exact .literal held
  | builtin name handle =>
    obtain ⟨builtin, known, rfl⟩ := Option.map_eq_some_iff.mp callable
    exact .builtin known

/-- The call that is made at a site, if it is made at one, is in the arena. -/
def CallsAt (arena : Arena) (site : Option Site) (labels : List (Option Symbol)) : Prop :=
  ∀ s, site = some s → ∃ callee actuals,
    arena.holds (.call s callee actuals) ∧ labels = actuals.map Prod.fst

/-- What is kept for a call is what matching gives for it. -/
theorem matchCall_of_known {m : Machine} {site : Option Site} {f : Callable}
    {labels : List (Option Symbol)} {binding : Binding} (right : arena.Right builtins m.cache)
    (takes : arena.Takes builtins f.key f.formals.params) (placed : arena.CallsAt site labels)
    (known : m.known site f.key = some binding) :
    Matching.matchCall f.formals labels = .ok binding := by
  obtain ⟨entries, kept, known⟩ := Option.bind_eq_some_iff.mp known
  obtain ⟨s, rfl, known⟩ := Option.bind_eq_some_iff.mp known
  obtain ⟨entry, found, rfl⟩ := Option.map_eq_some_iff.mp known
  have key : entry.1 = (s.id, f.key) := by simpa using List.find?_some found
  obtain ⟨site, callee, actuals, formals, held, same_id, takes', matched⟩ :=
    right entries kept entry (List.mem_of_find?_eq_some found)
  obtain ⟨callee', actuals', held', rfl⟩ := placed s rfl
  rw [key] at same_id takes'
  -- The two calls have the same number, so that they are the same call.
  cases arena.numbered held held' same_id
  exact Matching.matchCall_of_params (takes'.unique takes) matched

/-- The binding of a call is what matching gives, whether it is kept or not, and what is kept
afterwards is right again. -/
theorem bindings_of_right {m : Machine} {site : Option Site} {f : Callable}
    {labels : List (Option Symbol)} (right : arena.Right builtins m.cache)
    (takes : arena.Takes builtins f.key f.formals.params) (placed : arena.CallsAt site labels) :
    Likewise (fun kept binding => kept.1 = binding ∧ arena.Right builtins kept.2.cache)
      (m.bindings site f labels) (Matching.matchCall f.formals labels) := by
  unfold Machine.bindings
  cases known : m.known site f.key with
  | some binding =>
    rw [matchCall_of_known right takes placed known]
    exact .ok ⟨rfl, right⟩
  | none =>
    cases matched : Matching.matchCall f.formals labels with
    | error cause => exact .error cause
    | ok binding =>
      refine .ok ⟨rfl, ?_⟩
      unfold Machine.keep
      split
      · next cache s kept =>
        -- A new entry joins those that were right before.
        rintro entries ⟨⟩ entry (_ | ⟨_, old⟩)
        · obtain ⟨callee, actuals, held, rfl⟩ := placed s rfl
          exact ⟨s, callee, actuals, f.formals, held, rfl, takes, matched⟩
        · exact right cache kept entry old
      · exact right

end Arena

/-! ### Laid out alike -/

namespace Program

/-- Whether two programs lay out the function literals in an expression alike, or both not. -/
def LaysAlike (program other : Program) (e : Expr) : Prop :=
  ∀ site params body, .function site params body ∈ e.nodes →
    Option.Rel (fun layout layout' : Layout =>
      layout'.without .resolutions = layout.without .resolutions)
      (program.layout? site.id) (other.layout? site.id)

variable {program other : Program} {e : Expr}

theorem LaysAlike.of_mem_nodes {node : Expr} (alike : program.LaysAlike other e)
    (inside : node ∈ e.nodes) : program.LaysAlike other node :=
  fun site params body listed => alike site params body (e.nodes_subset_of_mem_nodes inside listed)

/-- A program lays out everything as it does. -/
theorem laysAlike_self (program : Program) (e : Expr) : program.LaysAlike program e := by
  intro site params body _
  cases program.layout? site.id with
  | none => exact .none
  | some layout => exact .some rfl

/-- Resolutions of one program lay out everything alike. -/
theorem laysAlike_of_resolve {top : Expr} {edition later : Nat}
    (resolved : resolve edition top = .ok program) (resolved' : resolve later top = .ok other)
    (e : Expr) : program.LaysAlike other e :=
  fun site _ _ _ => layout?_of_resolve resolved resolved' site.id

end Program

/-! ### The region of an arena -/

namespace Arena

variable (arena : Arena) {builtins : Registry} {program other : Program}

/-- Whether a program is one of the arena. -/
def Resolves (program : Program) : Prop :=
  ∃ edition top, arena.holds top ∧ Program.resolve edition top = .ok program

variable {arena} in
theorem Resolves.lays (resolves : arena.Resolves program) {layout : Layout}
    (listed : layout ∈ program.layouts) : arena.Lays layout := by
  obtain ⟨edition, top, held, resolved⟩ := resolves
  obtain ⟨node, -⟩ := Program.made_of_mem resolved listed
  exact ⟨arena.holds_of_mem_nodes held node, Program.resolved_of_mem resolved listed⟩

/-- Frames that are around, with the functions of the arena whose texts two programs lay out
alike. -/
def region (builtins : Registry) (program other : Program) (base : FrameId)
    (keeps : FrameId → Prop) (past : List FrameId × List FrameId)
    (keeps_of_le : ∀ id, base ≤ id → keeps id) : Region .resolutions where
  base := base
  keeps := keeps
  admits layout := arena.Lays layout ∧
    ∀ e ∈ ownText layout.params layout.body, program.LaysAlike other e
  texts e := arena.holds e ∧ program.LaysAlike other e
  caches cache cache' := arena.Right builtins cache ∧ arena.Right builtins cache'
  past := past
  keeps_of_le := keeps_of_le _

/-- Evaluation in two programs of the arena, with the same builtins and in modes that count alike,
comes to nothing that is not in the region. -/
theorem laws {context context' : Context} (resolves : arena.Resolves context.program)
    (same_builtins : context'.builtins = context.builtins)
    (same_mode : context'.mode = context.mode)
    (disregards : context.builtins.Disregards .resolutions) (handsOn : context.builtins.HandsOn)
    {base : FrameId} {keeps : FrameId → Prop} {past : List FrameId × List FrameId}
    {keeps_of_le : ∀ id, base ≤ id → keeps id} :
    (arena.region context.builtins context.program context'.program base keeps past
      keeps_of_le).Laws context context' where
  same_builtins := same_builtins
  disregards := disregards
  handsOn := handsOn
  counting _ := by rw [same_mode]
  texts_part {e part} text inside := by
    have child := Expr.mem_children_of_mem_parts inside
    exact ⟨arena.child text.1 child,
      text.2.of_mem_nodes (Expr.nodes_subset_of_mem_children child part.mem_nodes_self)⟩
  texts_own {layout} admitted e own := ⟨arena.child admitted.1.literal own, admitted.2 e own⟩
  function {site params body} text := by
    obtain ⟨held, alike⟩ := text
    have related := alike site params body (Expr.mem_nodes_self _)
    generalize context'.program.layout? site.id = found at related ⊢
    cases known : context.program.layout? site.id with
    | none =>
      rw [known] at related
      cases related
      exact .none
    | some layout =>
      rw [known] at related
      cases related with
      | some same =>
        have lays := resolves.lays (Program.mem_of_layout? known)
        -- The layout is of the literal itself, whose number it has.
        cases arena.numbered lays.literal held (Program.literal_of_layout? known)
        exact .some ⟨same, lays, fun e own =>
          alike.of_mem_nodes (Expr.nodes_subset_of_mem_children own e.mem_nodes_self)⟩
  bindings {m n v f site labels} right admitted callable placed := by
    have takes := takes_of_callable (fun c held => (admitted c held).1.1) callable
    have calls : arena.CallsAt site labels := fun s here => by
      obtain ⟨callee, actuals, text, labels_eq⟩ := placed s here
      exact ⟨callee, actuals, text.1, labels_eq⟩
    refine (bindings_of_right right.1 takes calls).join ?_ (bindings_of_right right.2 takes calls)
    rintro kept kept' binding ⟨rfl, right'⟩ ⟨same, right''⟩
    exact ⟨same, right', right''⟩

end Arena

end Vectorial
