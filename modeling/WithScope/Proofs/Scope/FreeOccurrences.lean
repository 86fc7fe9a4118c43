import WithScope.Proofs.Scope.Resolved
import WithScope.Wrapper.Basic

/-!
# Free occurrences, node by node

`Program.freeVariables` looks references up in the table of bindings, with the scopes that are open.
Here the same is said of the tree itself, in one pass and without a table: what occurs free in a node
occurs free in one of its children, or is referred to by the node itself, and is not bound by it.
`Node.bound` and `Node.bindsThis` say for each construct what it binds.

* `Node.freeIn_outline` — the outline of a node has the node's free occurrences as its free
  references, and lets out the names that the node offers;
* `Program.freeVariables_perm` — the free variables of a program, with all references to each of
  them, are the program's free occurrences.
-/

namespace WithScope

namespace Node

/-! ## What a node binds -/

/-- The name of the list of arguments, which functions bind without declaring it. -/
def argumentsName : String := "arguments"

/-- The names to which a node gives a meaning for what is inside of it. -/
def bound (n : Node) : List String :=
  match n with
  | .function (.mk _ id _ _ params _) =>
    ownNames id ++ paramNames params ++ n.reached .hoisted ++ [argumentsName]
  | .expr (.arrow _ _ params _) => paramNames params ++ n.reached .hoisted
  | .fieldValue _ | .member (.staticBlock ..) =>
    n.reached .hoisted ++ n.reached .lexical ++ [argumentsName]
  | .class (.mk _ id _ _ _) => ownNames id
  | .block _ | .stmt (.for ..) | .stmt (.forIn ..) | .stmt (.forOf ..) | .caseBlock _ =>
    n.reached .lexical
  | .catchClause (.mk _ param _) => paramNames param.toList
  | _ => []

/-- Whether a node gives `this` a meaning for what is inside of it. -/
def bindsThis : Node → Bool
  | .function _ | .fieldValue _ | .member (.staticBlock ..) => true
  | _ => false

/-- Whether a node gives a reference a meaning. -/
def binds (n : Node) : FreeReference → Bool
  | .ident id => n.bound.contains id.name
  | .this _ => n.bindsThis

/-- The references that occur free in a node, in the order of the text. -/
def freeOccurrences (n : Node) : List FreeReference :=
  (n.references ++ n.children.attach.flatMap fun c => freeOccurrences c.1).filter (!n.binds ·)
termination_by n.size
decreasing_by exact size_lt_of_mem_children c.2

theorem freeOccurrences_eq (n : Node) :
    n.freeOccurrences
      = (n.references ++ n.children.flatMap freeOccurrences).filter (!n.binds ·) := by
  rw [freeOccurrences, List.flatMap_subtype (g := freeOccurrences) fun _ _ => rfl,
    List.unattach_attach]

end Node

/-- The names that a program binds: its variables, functions and classes, and the names of all
imports in it. -/
def Program.bound (p : Program) : List String :=
  p.reached .hoisted ++ p.reached .lexical ++ p.reached .root

/-- Whether a program gives a reference a meaning. -/
def Program.binds (p : Program) : FreeReference → Bool
  | .ident id => p.bound.contains id.name
  | .this _ => false

/-- The references that occur free in a program, in the order of its text. -/
def Program.freeOccurrences (p : Program) : List FreeReference :=
  (p.body.flatMap fun s => (Node.stmt s).freeOccurrences).filter (!p.binds ·)

/-! ## Scopes and references -/

/-- Whether a scope gives a reference a meaning. -/
def Scope.gives (s : Scope) : FreeReference → Bool
  | .ident id => s.binds id.name
  | .this _ => s.kind.bindsThis

/-- A scope gives a meaning to the names that it takes of those that come to it, and to `arguments`
along with `this`. -/
theorem Scope.gives_of (kind : ScopeKind) {items : List Outline} (reached : BindSite → List String)
    (h : ∀ d, d ∈ escapingFrom items ↔ d.name ∈ reached d.site) (id : Ident) :
    (Scope.of kind items).gives (.ident id) ↔
      id.name = Node.argumentsName ∧ kind.bindsThis ∨
        ∃ site, kind.takes site ∧ id.name ∈ reached site := by
  have hnames : id.name ∈ (Scope.of kind items).names ↔
      ∃ site, kind.takes site ∧ id.name ∈ reached site := by
    simp only [of, mem_ascending, List.mem_map, List.mem_filter, h]
    constructor
    · rintro ⟨⟨name, site⟩, ⟨hd, ht⟩, hname⟩
      exact ⟨site, ht, hname ▸ hd⟩
    · rintro ⟨site, ht, hd⟩
      exact ⟨⟨id.name, site⟩, ⟨hd, ht⟩, rfl⟩
  simp only [gives, binds, Bool.or_eq_true, Bool.and_eq_true, decide_eq_true_eq,
    List.contains_iff_mem, hnames]
  rfl

/-- What occurs free inside of scopes is what occurs free at all and is given a meaning by none
of them. -/
theorem Occurrence.free?_eq (scopes : List Scope) (o : Occurrence) :
    (o.free? scopes).toList
      = (o.free? []).toList.filter fun r => !scopes.any (·.gives r) := by
  cases o with
  | declaration | misplaced => rfl
  | reference id role parent =>
    by_cases h : role.isValue = true ∧ id.name ≠ "undefined"
    · cases hs : scopes.any (·.binds id.name) <;> simp_all [free?, Scope.gives]
    · simp [free?, h]
  | this loc => cases hs : scopes.any (·.kind.bindsThis) <;> simp_all [free?, Scope.gives]

mutual

theorem Outline.free_eq_filter (scopes : List Scope) (o : Outline) :
    o.free scopes = (o.free []).filter fun r => !scopes.any (·.gives r) := by
  cases o with
  | occurrence o => exact o.free?_eq scopes
  | scope kind items =>
    rw [Outline.free, Outline.free, freeIn_eq_filter (_ :: scopes), freeIn_eq_filter [_],
      List.filter_filter]
    refine congrArg (List.filter · _) (funext fun r => ?_)
    simp [Bool.and_comm]

/-- Scopes around outlines take those of the free references away that they give a meaning. -/
theorem freeIn_eq_filter (scopes : List Scope) (items : List Outline) :
    freeIn scopes items = (freeIn [] items).filter fun r => !scopes.any (·.gives r) := by
  match items with
  | [] => rfl
  | o :: items =>
    rw [freeIn, freeIn, o.free_eq_filter scopes, freeIn_eq_filter scopes items,
      List.filter_append]

end

namespace Node

/-! ## The outline of a node -/

variable {outer : Parent}

/-- What a node binds is what its scope holds, and `arguments` along with `this`. -/
theorem bound_eq (n : Node) :
    n.bound = n.localNames ++ if n.bindsThis then [argumentsName] else [] := by
  rcases n with e | t | m | k | p | ⟨loc, id, isAsync, isGenerator, params, body⟩ |
    ⟨loc, id, superClass, bodyLoc, members⟩ | m | v | ⟨use, p⟩ | ⟨use, p⟩ | b | d | d | cs | c |
    ⟨loc, param, body⟩ | ⟨ofOther, s⟩ | d | s
  case function | fieldValue => rfl
  case expr => cases e <;> exact (List.append_nil _).symm
  case member => cases m <;> rfl
  case stmt => cases s <;> exact (List.append_nil _).symm
  all_goals exact (List.append_nil _).symm

/-- A node that opens no scope binds nothing. -/
theorem binds_eq_false {n : Node} (h : n.scope? = none) (r : FreeReference) : n.binds r = false := by
  rcases n with e | t | m | k | p | f | c | m | v | ⟨use, p⟩ | ⟨use, p⟩ | b | d | d | cs | c | c |
    ⟨ofOther, s⟩ | d | s
  case expr => cases e <;> first | (cases r <;> rfl) | cases h
  case member => cases m <;> first | (cases r <;> rfl) | cases h
  case stmt => cases s <;> first | (cases r <;> rfl) | cases h
  all_goals first | (cases r <;> rfl) | cases h

/-- A node gives `this` a meaning iff the scope that it opens does. -/
theorem bindsThis_eq {n : Node} {kind : ScopeKind} (h : n.scope? = some kind) :
    n.bindsThis = kind.bindsThis := by
  rcases n with e | t | m | k | p | f | c | m | v | ⟨use, p⟩ | ⟨use, p⟩ | b | d | d | cs | c | c |
    ⟨ofOther, s⟩ | d | s
  case expr =>
    cases e <;> cases h
    rfl
  case member =>
    cases m <;> cases h
    rfl
  case stmt => cases s <;> cases h <;> rfl
  all_goals cases h <;> rfl

/-- A node binds the names that it is reached by and that its scope takes, and `arguments` along with
`this`. -/
theorem mem_bound {n : Node} {kind : ScopeKind} (h : n.scope? = some kind) {name : String} :
    name ∈ n.bound ↔ name = argumentsName ∧ kind.bindsThis ∨
      ∃ site, kind.takes site ∧ name ∈ n.reached site := by
  rw [bound_eq, List.mem_append, mem_localNames h, bindsThis_eq h, or_comm]
  cases kind.bindsThis <;> simp

/-- The scope of a node gives meanings to what the node binds. -/
theorem Holds.gives_eq {n : Node} {items : List Outline} (h : n.Holds outer items)
    {kind : ScopeKind} (hk : n.scope? = some kind) (r : FreeReference) :
    (Scope.of kind items).gives r = n.binds r := by
  cases r with
  | this loc => exact (bindsThis_eq hk).symm
  | ident id =>
    rw [Bool.eq_iff_iff, binds, List.contains_iff_mem, mem_bound hk]
    exact Scope.gives_of kind (fun site => n.reached site) (fun _ => h.mem_escapingFrom) id

/-- The references that are free in the outline of a node are those that occur free in the node. -/
theorem freeIn_outline {n : Node} {outer : Parent} :
    freeIn [] (n.outline outer) = n.freeOccurrences := by
  induction n using induct generalizing outer with
  | step n ih =>
    obtain ⟨items, h⟩ := n.exists_holds outer
    have hi : freeIn [] items = n.references ++ n.children.flatMap freeOccurrences := by
      rw [h.free, outlines, freeIn_flatMap, List.flatMap, List.flatMap,
        List.map_congr_left fun c hc => ih c hc]
    rw [h.outline_eq, enclose, freeOccurrences_eq, ← hi]
    cases hk : n.scope? with
    | none =>
      refine (List.filter_eq_self.2 fun r _ => ?_).symm
      rw [binds_eq_false hk, Bool.not_false]
    | some kind =>
      simp only [freeIn, Outline.free, List.append_nil]
      rw [freeIn_eq_filter]
      refine congrArg (List.filter · _) (funext fun r => ?_)
      rw [List.any_cons, List.any_nil, Bool.or_false, h.gives_eq hk]

end Node

namespace Program

/-! ## Programs -/

/-- The scope of a program gives meanings to what the program binds. -/
theorem gives_eq (p : Program) (r : FreeReference) :
    (Scope.of .program (statementsOutline p.body)).gives r = p.binds r := by
  cases r with
  | this loc => rfl
  | ident id =>
    rw [Bool.eq_iff_iff, binds, List.contains_iff_mem, Scope.gives_of .program
      (fun site => p.reached site) (fun _ => p.mem_escapingFrom_body), Node.exists_site,
      reached_current, bound]
    simp [ScopeKind.takes, ScopeKind.isFunctionLike, ScopeKind.isBlockScope, ScopeKind.bindsThis]

/-- The references that are free in the outline of a program are those that occur free in it. -/
theorem free_outline (p : Program) : p.outline.free [] = p.freeOccurrences := by
  have h : freeIn [] (statementsOutline p.body)
      = p.body.flatMap fun s => (Node.stmt s).freeOccurrences := by
    rw [Node.statementsOutline_eq .module, Node.outlines, List.flatMap_map, freeIn_flatMap]
    exact congrArg (List.flatMap · p.body) (funext fun s => Node.freeIn_outline)
  rw [outline, Outline.free, freeIn_eq_filter, h, freeOccurrences]
  refine congrArg (List.filter · _) (funext fun r => ?_)
  rw [List.any_cons, List.any_nil, Bool.or_false, gives_eq]

end Program

/-! ## Free variables -/

/-- References by the variable they refer to are the same references. -/
theorem flatMap_filter_name_perm {names : List String} (hn : names.Nodup)
    {references : List FreeReference} (h : ∀ r ∈ references, r.name ∈ names) :
    (names.flatMap fun name => references.filter (·.name = name)).Perm references := by
  induction names generalizing references with
  | nil =>
    obtain rfl : references = [] := List.eq_nil_iff_forall_not_mem.2 fun r hr =>
      List.not_mem_nil (h r hr)
    exact .nil
  | cons name names ih =>
    obtain ⟨hname, hnames⟩ := List.nodup_cons.1 hn
    -- the references to the other variables, which the first group leaves
    let others := references.filter fun r => !decide (r.name = name)
    have hfilter : ∀ other ∈ names,
        others.filter (·.name = other) = references.filter (·.name = other) := by
      intro other hother
      rw [List.filter_filter]
      refine List.filter_congr fun r _ => ?_
      by_cases hr : r.name = other
      · have : r.name ≠ name := by rintro rfl; exact hname (hr ▸ hother)
        simp [hr, hr ▸ this]
      · simp [hr]
    have hothers : (names.flatMap fun other => others.filter (·.name = other)).Perm others := by
      refine ih hnames fun r hr => ?_
      obtain ⟨hr, hne⟩ := List.mem_filter.1 hr
      exact (List.mem_cons.1 (h r hr)).resolve_left (by simpa using hne)
    rw [List.flatMap, List.map_congr_left hfilter, ← List.flatMap] at hothers
    rw [List.flatMap_cons]
    exact (hothers.append_left _).trans (List.filter_append_perm _ _)

/-- The free variables of a program, with all references to each of them, are the references that
occur free in it. -/
theorem Program.freeVariables_perm {p : Program} {vars : List FreeVariable}
    (h : p.freeVariables = .ok vars) :
    (vars.flatMap fun v => v.references.map (v.name, ·)).Perm
      (p.freeOccurrences.map fun r => (r.name, r)) := by
  have hv : vars = groupByName p.freeOccurrences := by
    rw [← p.free_outline]
    rw [freeVariables_eq, checkedOutline] at h
    split at h
    · cases h
    · exact (Except.ok.inj h).symm
  have hgroup : (vars.flatMap fun v => v.references.map (v.name, ·))
      = ((ascending (p.freeOccurrences.map FreeReference.name)).flatMap fun name =>
          p.freeOccurrences.filter (·.name = name)).map fun r => (r.name, r) := by
    rw [hv, groupByName, List.flatMap_map, List.map_flatMap]
    refine congrArg (List.flatMap · _) (funext fun name => List.map_congr_left fun r hr => ?_)
    rw [of_decide_eq_true (List.mem_filter.1 hr).2]
  rw [hgroup]
  refine (flatMap_filter_name_perm (nodup_ascending _) fun r hr => ?_).map _
  exact mem_ascending.2 (List.mem_map_of_mem hr)

/-- A variable that is hoisted out of a block, names that stay in their blocks, functions and `catch`
clauses, and `this` and `arguments` inside and outside of functions. -/
theorem Program.freeVariables_perm_nested :
    ∃ p vars, parse fragmentOptions ("\x7b var a = y; let b = a; const c = b; \x7d a(b, c); " ++
        "function f(d) \x7b let g = d; return (e) => g(e, this, arguments, d) \x7d " ++
        "try \x7b f(this, arguments) \x7d catch (h) \x7b h(g); let i; \x7d h(d, i)").toList = .ok p ∧
      p.freeVariables = .ok vars ∧
      vars.map (fun v => (v.name, v.references.length)) = [("arguments", 1), ("b", 1), ("c", 1),
        ("d", 1), ("g", 1), ("h", 1), ("i", 1), ("this", 1), ("y", 1)] ∧
      (vars.flatMap fun v => v.references.map (v.name, ·)).Perm
        (p.freeOccurrences.map fun r => (r.name, r)) := by
  have hread : (parse fragmentOptions ("\x7b var a = y; let b = a; const c = b; \x7d a(b, c); " ++
        "function f(d) \x7b let g = d; return (e) => g(e, this, arguments, d) \x7d " ++
        "try \x7b f(this, arguments) \x7d catch (h) \x7b h(g); let i; \x7d h(d, i)").toList
      ).toOption.any fun p => p.freeVariables.toOption.any fun vars =>
        vars.map (fun v => (v.name, v.references.length)) = [("arguments", 1), ("b", 1), ("c", 1),
          ("d", 1), ("g", 1), ("h", 1), ("i", 1), ("this", 1), ("y", 1)] := by decide +kernel
  obtain ⟨p, hp, hfree⟩ := (Option.any_eq_true ..).1 hread
  obtain ⟨vars, hvars, hnames⟩ := (Option.any_eq_true ..).1 hfree
  exact ⟨p, vars, eq_ok_of_toOption hp, eq_ok_of_toOption hvars, of_decide_eq_true hnames,
    freeVariables_perm (eq_ok_of_toOption hvars)⟩

end WithScope
