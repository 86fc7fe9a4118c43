import WithScope.Proofs.Tree.Node
import WithScope.Syntax.Outline

/-!
# The names that are reached from a node

A name is declared by one node and bound by another one around it. `Node.declared` are the names
that a node declares itself, `Node.reached` those that are declared in it and still on their way out
when they come to it: what a node inside of it takes (`Node.keeps`) is not reached.

* `Node.offered_eq_nil_of_isOperand` — expressions, patterns and all that they are made of declare
  nothing for a scope around them, imports apart;
* `Node.offered_current` — a name that binds where it stands never comes out.
-/

namespace WithScope

/-! ## The names in patterns -/

mutual

/-- The names at the leaves of a pattern. -/
def Pat.names : Pat → List String
  | .ident id => [id.name]
  | .expr _ => []
  | .array _ elements => elementNames elements
  | .object _ properties => propertyNames properties
  | .rest _ argument => argument.names
  | .assign _ left _ => left.names

/-- The names at the leaves of a property of an object pattern. -/
def PatProperty.names : PatProperty → List String
  | .keyValue _ _ value => value.names
  | .shorthand _ id _ => [id.name]
  | .rest _ argument => argument.names

/-- The names at the leaves of the elements of an array pattern. -/
def elementNames : List (Option Pat) → List String
  | [] => []
  | none :: elements => elementNames elements
  | some p :: elements => p.names ++ elementNames elements

/-- The names at the leaves of the properties of an object pattern. -/
def propertyNames : List PatProperty → List String
  | [] => []
  | p :: properties => p.names ++ propertyNames properties

end

mutual

/-- The targets at the leaves of a pattern that bind no name. -/
def Pat.memberLeaves : Pat → List Expr
  | .ident _ => []
  | .expr target => [target]
  | .array _ elements => elementMemberLeaves elements
  | .object _ properties => propertyMemberLeaves properties
  | .rest _ argument => argument.memberLeaves
  | .assign _ left _ => left.memberLeaves

/-- The targets at the leaves of a property of an object pattern that bind no name. -/
def PatProperty.memberLeaves : PatProperty → List Expr
  | .keyValue _ _ value => value.memberLeaves
  | .shorthand .. => []
  | .rest _ argument => argument.memberLeaves

/-- The targets at the leaves of the elements of an array pattern that bind no name. -/
def elementMemberLeaves : List (Option Pat) → List Expr
  | [] => []
  | none :: elements => elementMemberLeaves elements
  | some p :: elements => p.memberLeaves ++ elementMemberLeaves elements

/-- The targets at the leaves of the properties of an object pattern that bind no name. -/
def propertyMemberLeaves : List PatProperty → List Expr
  | [] => []
  | p :: properties => p.memberLeaves ++ propertyMemberLeaves properties

end

/-- The name of a function or class as a list. -/
def ownNames (id : Option Ident) : List String :=
  id.toList.map Ident.name

/-- The names at the leaves of parameters. -/
def paramNames (params : List Pat) : List String :=
  params.flatMap Pat.names

namespace Node

/-! ## Scopes -/

/-- The scope that a node opens, if it opens one. -/
def scope? : Node → Option ScopeKind
  | .function _ => some .function
  | .expr (.arrow ..) => some .arrow
  | .fieldValue _ | .member (.staticBlock ..) => some .classInit
  | .class _ => some .class
  | .block _ => some .block
  | .catchClause _ => some .catch
  | .stmt (.for ..) | .stmt (.forIn ..) | .stmt (.forOf ..) => some .loop
  | .caseBlock _ => some .switch
  | _ => none

/-- Whether a name that binds at `site` stops at a node. -/
def keeps (site : BindSite) (n : Node) : Bool :=
  n.scope?.any (·.takes site)

/-! ## Declarations -/

/-- The names that a node declares itself and that bind at `site`. A node that opens a scope
declares them for this scope, and any other node for the scopes around it: `var`, functions and
classes bind at the nearest function, `let` and `const` at the nearest block. -/
def declared : BindSite → Node → List String
  | .current, .function (.mk _ id _ _ params _) => ownNames id ++ paramNames params
  | .current, .expr (.arrow _ _ params _) => paramNames params
  | .current, .class (.mk _ id _ _ _) => ownNames id
  | .current, .catchClause (.mk _ param _) => paramNames param.toList
  | .hoisted, .stmt (.function f) | .hoisted, .module (.exportDefault _ (.function f)) =>
    ownNames f.id
  | .hoisted, .stmt (.class c) | .hoisted, .module (.exportDefault _ (.class c)) => ownNames c.id
  | .root, .module (.importFrom _ specifiers _ _) => specifiers.map (·.localName.name)
  | .hoisted, .declarator .var (.mk _ id _) => id.names
  | .lexical, .declarator .let (.mk _ id _) | .lexical, .declarator .const (.mk _ id _) => id.names
  | _, _ => []

/-- The names that come out of a node on their way to where they bind. -/
def offered (site : BindSite) (n : Node) : List String :=
  if n.keeps site then []
  else n.declared site ++ n.children.attach.flatMap fun c => offered site c.1
termination_by n.size
decreasing_by exact size_lt_of_mem_children c.2

/-- The names that come to a node on their way to where they bind, from it or from inside of it. -/
def reached (site : BindSite) (n : Node) : List String :=
  n.declared site ++ n.children.flatMap (offered site)

theorem offered_eq (site : BindSite) (n : Node) :
    n.offered site = if n.keeps site then [] else n.reached site := by
  rw [offered, reached, List.flatMap_subtype (g := offered site) fun _ _ => rfl,
    List.unattach_attach]

theorem offered_of_keeps {site : BindSite} {n : Node} (h : n.keeps site) :
    n.offered site = [] := by
  rw [offered_eq, if_pos h]

theorem offered_of_not_keeps {site : BindSite} {n : Node} (h : n.keeps site = false) :
    n.offered site = n.reached site := by
  rw [offered_eq, if_neg (by simp [h])]

/-- A node without declarations of its own is reached by what comes out of its children. -/
theorem reached_eq_nil {site : BindSite} {n : Node} (h : n.declared site = [])
    (hc : ∀ c ∈ n.children, c.offered site = []) : n.reached site = [] := by
  rw [reached, h, List.nil_append, List.flatMap_eq_nil_iff]
  exact hc

/-- Only scopes declare names that bind where they stand. -/
theorem declared_current_eq_nil {n : Node} (h : n.keeps .current = false) :
    n.declared .current = [] := by
  rcases n with e | t | m | k | p | f | c | m | v | ⟨use, p⟩ | ⟨use, p⟩ | b | d |
    ⟨kind, ⟨loc, id, value⟩⟩ | cs | c | c | ⟨ofOther, s⟩ | d | s
  case function => simp [keeps, scope?, ScopeKind.takes] at h
  case «class» => simp [keeps, scope?, ScopeKind.takes] at h
  case catchClause => simp [keeps, scope?, ScopeKind.takes] at h
  case expr => cases e <;> first | rfl | simp [keeps, scope?, ScopeKind.takes] at h
  case declarator => cases kind <;> rfl
  all_goals rfl

/-- No name that binds where it stands comes out of a node. -/
theorem offered_current (n : Node) : n.offered .current = [] := by
  induction n using induct with
  | step n ih =>
    cases h : n.keeps .current with
    | true => exact offered_of_keeps h
    | false =>
      rw [offered_of_not_keeps h]
      exact reached_eq_nil (declared_current_eq_nil h) ih

/-- The names that bind at a node itself are the ones that it declares. -/
theorem reached_current (n : Node) : n.reached .current = n.declared .current := by
  rw [reached, List.flatMap_eq_nil_iff.2 fun c _ => offered_current c, List.append_nil]

/-! ## Expressions -/

/-- Whether a node is an expression or a pattern, or can only stand inside of one. -/
def isOperand : Node → Bool
  | .expr _ | .template _ | .memberName _ | .key _ | .property _ | .function _ | .class _
  | .member _ | .fieldValue _ | .pat .. | .patProperty .. => true
  | _ => false

/-- An operand declares nothing for the functions and blocks around it. -/
theorem declared_eq_nil_of_isOperand {site : BindSite} (hs : site = .hoisted ∨ site = .lexical)
    {n : Node} (hn : n.isOperand) : n.declared site = [] := by
  rcases hs with rfl | rfl <;> cases n <;> first | rfl | cases hn

/-- An operand that lets names of functions and blocks out holds operands alone. -/
theorem isOperand_of_mem_children {site : BindSite} (hs : site = .hoisted ∨ site = .lexical)
    {c n : Node} (hn : n.isOperand) (h : n.keeps site = false) (hc : c ∈ n.children) :
    c.isOperand := by
  have h : n.scope? ≠ some .function ∧ n.scope? ≠ some .arrow ∧ n.scope? ≠ some .classInit := by
    rcases hs with rfl | rfl <;>
      refine ⟨?_, ?_, ?_⟩ <;> intro hk <;> rw [keeps, hk] at h <;> cases h
  rcases n with e | ⟨loc, quasis, es⟩ | m | k | p | f | ⟨loc, id, superClass, bodyLoc, members⟩ |
    m | v | ⟨use, p⟩ | ⟨use, p⟩ | b | d | d | cs | c | c | ⟨ofOther, s⟩ | d | s
  case expr =>
    cases e
    case arrow => exact absurd rfl h.2.1
    all_goals simp [children, Expr.children] at hc
    all_goals grind [isOperand]
  case template => simp [children, Template.children] at hc; grind [isOperand]
  case memberName => cases m <;> simp [children, MemberName.children] at hc; grind [isOperand]
  case key => cases k <;> simp [children, Key.children] at hc; grind [isOperand]
  case property =>
    rcases p with _ | ⟨loc, ⟨id⟩ | _⟩ | _ | _ <;> simp [children, Property.children] at hc <;>
      grind [isOperand]
  case function => exact absurd rfl h.1
  case «class» => simp [children, Class.children] at hc; grind [isOperand]
  case member =>
    cases m
    case staticBlock => exact absurd rfl h.2.2
    all_goals simp [children, Member.children] at hc
    all_goals grind [isOperand]
  case fieldValue => exact absurd rfl h.2.2
  case pat => cases p <;> simp [children, Pat.children] at hc <;> grind [isOperand]
  case patProperty => cases p <;> simp [children, PatProperty.children] at hc <;> grind [isOperand]
  all_goals cases hn

/-- No declaration comes out of an operand, imports apart. -/
theorem offered_eq_nil_of_isOperand {site : BindSite} (hs : site = .hoisted ∨ site = .lexical)
    (n : Node) : n.isOperand → n.offered site = [] := by
  induction n using induct with
  | step n ih =>
    intro hn
    cases h : n.keeps site with
    | true => exact offered_of_keeps h
    | false =>
      rw [offered_of_not_keeps h]
      refine reached_eq_nil (declared_eq_nil_of_isOperand hs hn) fun c hc => ?_
      exact ih c hc (isOperand_of_mem_children hs hn h hc)

end Node

end WithScope
