import WithScope.Proofs.Scope.Resolved

/-!
# Targets where names should be declared

The type of patterns does not keep a target such as `a.b` out of a declaration, and a program with
one there has no table of bindings and no free variables. Such a target counts at the leaf of a pattern that
declares names, wherever the pattern stands, and nowhere else.

* `Node.misplaced` — these targets in the order in which they are come upon: those of a pattern
  before anything that is further inside of the pattern;
* `Program.misplaced_outline` — they are what the outline of a program misplaces;
* `Program.fails_at_misplaced` — the first one is the error of both analyses, and there is none unless
  a pattern declares one.
-/

namespace WithScope

/-- The error that a target is where a name should be declared. -/
def MisplacedTarget.of (target : Expr) : MisplacedTarget := ⟨target.loc.start.offset⟩

/-! ## The first one of an outline -/

mutual

/-- The first target that an outline misplaces is its error. -/
theorem Outline.misplaced?_eq (o : Outline) :
    o.misplaced? = o.misplacedTargets.head?.map MisplacedTarget.of := by
  cases o with
  | occurrence o => cases o <;> rfl
  | scope kind items => exact firstMisplaced?_eq items

theorem firstMisplaced?_eq (items : List Outline) :
    firstMisplaced? items = (misplacedIn items).head?.map MisplacedTarget.of := by
  match items with
  | [] => rfl
  | o :: items =>
    rw [firstMisplaced?, misplacedIn, List.head?_append, Option.map_or, o.misplaced?_eq,
      firstMisplaced?_eq items]

end

/-! ## Nodes -/

namespace Node

/-- The patterns of a node that declare names. -/
def bindingPatterns : Node → List Pat
  | .function (.mk _ _ _ _ params _) | .expr (.arrow _ _ params _) => params
  | .declarator _ (.mk _ p _) => [p]
  | .catchClause (.mk _ param _) => param.toList
  | _ => []

/-- The targets in a node that bind no name where one should be declared: child by child first those
at the leaves of the child, if it is a pattern of the node that declares names, and then those inside
of the child. -/
def misplaced (n : Node) : List Expr :=
  n.children.attach.flatMap fun c => n.declaredTargets c.1 ++ misplaced c.1
termination_by n.size
decreasing_by exact size_lt_of_mem_children c.2

theorem misplaced_eq (n : Node) :
    n.misplaced = n.children.flatMap fun c => n.declaredTargets c ++ c.misplaced := by
  rw [misplaced, List.flatMap_subtype (g := fun c => n.declaredTargets c ++ misplaced c)
    fun _ _ => rfl, List.unattach_attach]

/-- They are what the outline of the node misplaces. -/
theorem misplacedIn_outline (n : Node) (outer : Parent) :
    misplacedIn (n.outline outer) = n.misplaced := by
  induction n using induct generalizing outer with
  | step n ih =>
    obtain ⟨items, hholds⟩ := n.exists_holds outer
    have hitems : misplacedIn items = n.misplaced := by
      -- both go child by child, and to what a child declares before what is inside of it
      rw [hholds.misplaced, targetsInside, misplaced_eq, List.flatMap_def, List.flatMap_def]
      refine congrArg List.flatten (List.map_congr_left fun c hc => ?_)
      rw [ih c hc]
    rw [hholds.outline_eq, enclose]
    cases n.scope? with
    | none => exact hitems
    | some kind => exact (List.append_nil _).trans hitems

/-- What a node declares by its children is what its patterns declare. -/
theorem flatMap_declaredTargets (n : Node) :
    n.children.flatMap n.declaredTargets = n.bindingPatterns.flatMap Pat.memberLeaves := by
  -- all but four kinds of nodes declare nothing, and have no patterns either
  have hnone (hn : n.declares = false) (hp : n.bindingPatterns = []) :
      n.children.flatMap n.declaredTargets = n.bindingPatterns.flatMap Pat.memberLeaves := by
    rw [hp, List.flatMap_nil, List.flatMap_eq_nil_iff]
    exact fun c _ => declaredTargets_eq_nil hn c
  rcases n with e | t | m | k | p | ⟨loc, id, isAsync, isGenerator, params, body⟩ | c | m | v |
    ⟨use, p⟩ | ⟨use, p⟩ | b | d | ⟨kind, ⟨loc, id, value⟩⟩ | cs | c | ⟨loc, param, body⟩ |
    ⟨ofOther, s⟩ | d | s
  case expr =>
    cases e
    case arrow loc isAsync params body =>
      cases body <;> simp [children, Expr.children, ArrowBody.node, declaredTargets, declares,
        bindingPatterns, List.flatMap_map]
    all_goals exact hnone rfl rfl
  case function =>
    simp [children, Func.children, declaredTargets, declares, bindingPatterns, List.flatMap_map]
  case declarator =>
    simp [children, Declarator.children, declaredTargets, declares, bindingPatterns,
      List.flatMap_map]
  case catchClause =>
    cases param with
    | none => exact hnone rfl rfl
    | some p => simp [children, CatchClause.children, declaredTargets, declares, bindingPatterns]
  all_goals exact hnone rfl rfl

/-- A target is misplaced iff a pattern somewhere inside declares it. -/
theorem mem_misplaced {n : Node} {target : Expr} : target ∈ n.misplaced ↔
    ∃ m ∈ n.nodes, ∃ p ∈ m.bindingPatterns, target ∈ p.memberLeaves := by
  induction n using induct with
  | step n ih =>
    have hown : (∃ c ∈ n.children, target ∈ n.declaredTargets c) ↔
        ∃ p ∈ n.bindingPatterns, target ∈ p.memberLeaves := by
      rw [← List.mem_flatMap, flatMap_declaredTargets, List.mem_flatMap]
    rw [misplaced_eq, List.mem_flatMap]
    constructor
    · rintro ⟨c, hc, htarget⟩
      rcases List.mem_append.1 htarget with htarget | htarget
      · exact ⟨n, mem_nodes_self n, hown.1 ⟨c, hc, htarget⟩⟩
      · obtain ⟨m, hm, hpattern⟩ := (ih c hc).1 htarget
        exact ⟨m, mem_nodes_of_mem_children hc hm, hpattern⟩
    · rintro ⟨m, hm, hpattern⟩
      rw [nodes_eq] at hm
      rcases List.mem_cons.1 hm with rfl | hm
      · obtain ⟨c, hc, htarget⟩ := hown.2 hpattern
        exact ⟨c, hc, List.mem_append_left _ htarget⟩
      · obtain ⟨c, hc, hm⟩ := List.mem_flatMap.1 hm
        exact ⟨c, hc, List.mem_append_right _ ((ih c hc).2 ⟨m, hm, hpattern⟩)⟩

end Node

namespace Program

/-- The targets in a program that bind no name where one should be declared. -/
def misplaced (p : Program) : List Expr := p.body.flatMap fun s => (Node.stmt s).misplaced

theorem misplaced_outline (p : Program) : p.outline.misplacedTargets = p.misplaced := by
  rw [outline, Outline.misplacedTargets, Node.statementsOutline_eq .module, Node.outlines,
    misplacedIn_flatMap, List.flatMap_map]
  exact congrArg (List.flatMap · p.body) (funext fun s => Node.misplacedIn_outline _ _)

theorem checkedOutline_eq (p : Program) : p.checkedOutline =
    match p.misplaced with
    | [] => .ok p.outline
    | target :: _ => .error (.of target) := by
  rw [checkedOutline, Outline.misplaced?_eq, misplaced_outline]
  cases p.misplaced <;> rfl

theorem mem_misplaced {p : Program} {target : Expr} : target ∈ p.misplaced ↔
    ∃ n ∈ p.nodes, ∃ q ∈ n.bindingPatterns, target ∈ q.memberLeaves := by
  simp only [misplaced, nodes, List.mem_flatMap, Node.mem_misplaced]
  constructor
  · rintro ⟨s, hs, n, hn, hpattern⟩
    exact ⟨n, ⟨s, hs, hn⟩, hpattern⟩
  · rintro ⟨n, ⟨s, hs, hn⟩, hpattern⟩
    exact ⟨s, hs, n, hn, hpattern⟩

/-- **Declarations without names.** The bindings and the free variables of a tree are found unless a
declared pattern has a target at a leaf that binds no name. Then both analyses fail with the first
such target, where the leaves of a pattern come before the default values and keys inside of it.
Targets of assignments never count. -/
theorem fails_at_misplaced (p : Program) :
    (p.misplaced ≠ [] ↔ ∃ n ∈ p.nodes, ∃ q ∈ n.bindingPatterns, q.memberLeaves ≠ []) ∧
      match p.misplaced with
      | [] => (∃ table, p.bindingTable = .ok table) ∧ ∃ free, p.freeVariables = .ok free
      | target :: _ => ∃ e : MisplacedTarget,
        p.bindingTable = .error e ∧ p.freeVariables = .error e ∧
          e.form = "MemberExpression" ∧ e.offset = target.loc.start.offset := by
  refine ⟨?_, ?_⟩
  · constructor
    · intro hne
      obtain ⟨target, htarget⟩ := List.exists_mem_of_ne_nil _ hne
      obtain ⟨n, hn, q, hq, hleaf⟩ := mem_misplaced.1 htarget
      exact ⟨n, hn, q, hq, List.ne_nil_of_mem hleaf⟩
    · rintro ⟨n, hn, q, hq, hne⟩
      obtain ⟨target, hleaf⟩ := List.exists_mem_of_ne_nil _ hne
      exact List.ne_nil_of_mem (mem_misplaced.2 ⟨n, hn, q, hq, hleaf⟩)
  · rw [freeVariables_eq, bindingTable, events, checkedOutline_eq]
    cases p.misplaced with
    | nil => exact ⟨⟨_, rfl⟩, ⟨_, rfl⟩⟩
    | cons target others => exact ⟨.of target, rfl, rfl, rfl, rfl⟩

/-- An export of a list and a declaration at once, which no text spells, and a shorthand property whose
key is computed: both are walked, the declaration before the list. -/
example :
    let loc : Span := ⟨⟨7, 1, 8⟩, ⟨8, 1, 9⟩⟩
    let x : Ident := ⟨loc, "x"⟩
    let target : Expr := .member loc (.this loc) (.ident x) false
    let arrow : Expr := .arrow loc false [.expr target] (.expr (.this loc))
    let declaration : Stmt := .expr loc (.object loc [.shorthand loc (.computed arrow)])
    let p : Program := ⟨loc, .module,
      [.module (.exportNamed loc [⟨loc, .ident x, .ident x⟩] none (some declaration) [])]⟩
    p.bindingTable = .error ⟨7⟩ ∧ p.freeVariables = .error ⟨7⟩ :=
  ⟨rfl, rfl⟩

end Program

end WithScope
