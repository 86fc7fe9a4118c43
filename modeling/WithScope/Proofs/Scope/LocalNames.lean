import WithScope.Proofs.Scope.Holds

/-!
# The names that scopes hold

A scope holds the names that it takes of those that come to it. What this comes to differs from
construct to construct: `Node.localNames` says it for each of them in terms of what the construct
declares itself and of what comes to it from inside, and `Node.mem_localNames` that these are the
names that its scope takes.
-/

namespace WithScope

/-- The names that come to a program on their way to where they bind. -/
def Program.reached (site : BindSite) (p : Program) : List String :=
  p.body.flatMap fun s => (Node.stmt s).offered site

namespace Node

/-- The names that the scope of a node holds. Functions hold their own name, the names at the leaves
of their parameters, and the variables, functions and classes in them; blocks and loops hold what
`let` and `const` declare in them. -/
def localNames (n : Node) : List String :=
  match n with
  | .function (.mk _ id _ _ params _) => ownNames id ++ paramNames params ++ n.reached .hoisted
  | .expr (.arrow _ _ params _) => paramNames params ++ n.reached .hoisted
  | .fieldValue _ | .member (.staticBlock ..) => n.reached .hoisted ++ n.reached .lexical
  | .class (.mk _ id _ _ _) => ownNames id
  | .block _ | .stmt (.for ..) | .stmt (.forIn ..) | .stmt (.forOf ..) | .caseBlock _ =>
    n.reached .lexical
  | .catchClause (.mk _ param _) => paramNames param.toList
  | _ => []

variable {outer : Parent}

/-- What escapes from the outline of a node is what the node offers. -/
theorem mem_escapingFrom_outline {n : Node} {outer : Parent} {d : Declared} :
    d ∈ escapingFrom (n.outline outer) ↔ d.name ∈ n.offered d.site := by
  induction n using induct generalizing outer d with
  | step n ih =>
    obtain ⟨items, h⟩ := n.exists_holds outer
    have hr : d ∈ escapingFrom items ↔ d.name ∈ n.reached d.site := by
      rw [h.escaping, reached, List.mem_append, outlines, escapingFrom_flatMap, List.mem_flatMap,
        List.mem_flatMap]
      exact or_congr_right (exists_congr fun c => and_congr_right fun hc => ih c hc)
    rw [h.outline_eq, enclose, offered_eq, keeps]
    cases n.scope? with
    | none => exact hr
    | some kind =>
      simp only [escapingFrom, Outline.escaping, List.append_nil, List.mem_filter, hr,
        Option.any_some]
      by_cases hk : kind.takes d.site <;> simp [hk]

/-- What escapes from the items that a node holds has come to the node. -/
theorem Holds.mem_escapingFrom {n : Node} {items : List Outline} (h : n.Holds outer items)
    {d : Declared} : d ∈ escapingFrom items ↔ d.name ∈ n.reached d.site := by
  rw [h.escaping, reached, List.mem_append, outlines, escapingFrom_flatMap, List.mem_flatMap,
    List.mem_flatMap]
  exact or_congr_right (exists_congr fun c => and_congr_right fun _ => mem_escapingFrom_outline)

/-- The parameters and the body of a function let no `let` or `const` out. -/
theorem reached_lexical_function (f : Func) : (function f).reached .lexical = [] := by
  obtain ⟨loc, id, isAsync, isGenerator, params, body⟩ := f
  refine reached_eq_nil rfl fun c hc => ?_
  simp only [children, Func.children, List.mem_append, List.mem_map, List.mem_singleton] at hc
  rcases hc with ⟨p, -, rfl⟩ | rfl
  · exact offered_eq_nil_of_isOperand (.inr rfl) _ rfl
  · exact offered_of_keeps rfl

/-- The parameters and the body of an arrow function let no `let` or `const` out. -/
theorem reached_lexical_arrow (loc : Span) (isAsync : Bool) (params : List Pat) (body : ArrowBody) :
    (expr (.arrow loc isAsync params body)).reached .lexical = [] := by
  refine reached_eq_nil rfl fun c hc => ?_
  simp only [children, Expr.children, List.mem_append, List.mem_map, List.mem_singleton] at hc
  rcases hc with ⟨p, -, rfl⟩ | rfl
  · exact offered_eq_nil_of_isOperand (.inr rfl) _ rfl
  · cases body with
    | block => exact offered_of_keeps rfl
    | expr => exact offered_eq_nil_of_isOperand (.inr rfl) _ rfl

/-- A statement about some site is one about the four of them. -/
theorem exists_site {P : BindSite → Prop} :
    (∃ site, P site) ↔ P .hoisted ∨ P .lexical ∨ P .current ∨ P .root :=
  ⟨by rintro ⟨_ | _ | _ | _, h⟩ <;> simp [h], by grind⟩

section

attribute [local simp] exists_site ScopeKind.takes ScopeKind.isFunctionLike ScopeKind.isBlockScope
  reached_current localNames

/-- The scope of a node holds the names that the node is reached by and that the scope takes. -/
theorem mem_localNames {n : Node} {kind : ScopeKind} (h : n.scope? = some kind) {name : String} :
    name ∈ n.localNames ↔ ∃ site, kind.takes site ∧ name ∈ n.reached site := by
  rcases n with e | t | m | k | p | ⟨loc, id, isAsync, isGenerator, params, body⟩ |
    ⟨loc, id, superClass, bodyLoc, members⟩ | m | v | ⟨use, p⟩ | ⟨use, p⟩ | b | d | d | cs | c |
    ⟨loc, param, body⟩ | ⟨ofOther, s⟩ | d | s
  case function =>
    cases h
    simp [reached_lexical_function, declared]
    grind
  case expr =>
    cases e <;> cases h
    simp [reached_lexical_arrow, declared]
    grind
  case fieldValue =>
    cases h
    simp [declared]
  case member =>
    cases m <;> cases h
    simp [declared]
  case «class» =>
    cases h
    simp [declared]
  case block =>
    cases h
    simp [declared]
  case catchClause =>
    cases h
    simp [declared]
  case caseBlock =>
    cases h
    simp [declared]
  case stmt => cases s <;> cases h <;> simp [declared]
  all_goals cases h

end

end Node

namespace Program

/-- No name that binds where it stands comes out of the statements of a program. -/
theorem reached_current (p : Program) : p.reached .current = [] :=
  List.flatMap_eq_nil_iff.2 fun _ _ => Node.offered_current _

/-- What escapes from the statements of a program has come to the program. -/
theorem mem_escapingFrom_body {p : Program} {d : Declared} :
    d ∈ escapingFrom (statementsOutline p.body) ↔ d.name ∈ p.reached d.site := by
  rw [Node.statementsOutline_eq .module, Node.outlines, List.flatMap_map, escapingFrom_flatMap,
    List.mem_flatMap, reached, List.mem_flatMap]
  exact exists_congr fun s => and_congr_right fun _ => Node.mem_escapingFrom_outline

end Program

end WithScope
