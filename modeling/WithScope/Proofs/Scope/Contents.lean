import WithScope.Proofs.Scope.Parts
import WithScope.Proofs.Scope.Reached
import WithScope.Syntax.Cover

/-!
# Outlines of nodes

The outline of a node consists of what the node itself refers to and declares, of the outlines of its
children, and of a scope around them if the node opens one (`Node.enclose`). Of an outline, only its
free references, the declarations that escape from it, the targets that it misplaces and the scopes
that are opened in it matter to the scopes around: here they are split along the outline.
-/

namespace WithScope

/-! ## Nodes -/

namespace Node

/-- The outline of a node that `parent` holds. -/
def outline (parent : Parent) : Node → List Outline
  | .expr e => e.outline parent
  | .template t => t.outline parent
  | .memberName m => m.outline parent
  | .key k => k.outline parent
  | .property p => p.outline
  | .function f => f.outline
  | .class c => c.outline
  | .member m => m.outline
  | .fieldValue value => [.scope .classInit (value.outline .classMember)]
  | .pat use p => p.outline use parent
  | .patProperty use p => p.outline use
  | .block b => b.outline
  | .varDecl d => d.outline
  | .declarator kind d => d.outline kind.site
  | .caseBlock cases => [.scope .switch (casesOutline cases)]
  | .switchCase c => casesOutline [c]
  | .catchClause c => catchOutline (some c)
  | .exportSpecifier ofOther s => s.outline parent ofOther
  | .module d => d.outline
  | .stmt s => s.outline

/-- What the children of a node have as their parent, if `outer` holds the node. -/
def asParent (outer : Parent) : Node → Parent
  | .expr (.spread ..) | .property (.spread ..) => .spread
  | .expr (.arrow ..) => .arrow
  | .expr e => .expr e
  | .template _ | .memberName _ | .key _ | .block _ | .varDecl _ | .caseBlock _
  | .exportSpecifier .. => outer
  | .property _ => .property
  | .function _ => .function
  | .class _ => .class
  | .member _ | .fieldValue _ => .classMember
  | .pat use p => .pat p use
  | .patProperty use _ => .patProperty use
  | .declarator .. => .declarator
  | .switchCase _ => .switchCase
  | .catchClause _ => .catch
  | .module _ => .module
  | .stmt s => .stmt s

/-- The outlines of nodes in a row. -/
def outlines (parent : Parent) (ns : List Node) : List Outline :=
  ns.flatMap (outline parent)

@[simp] theorem outlines_nil (parent : Parent) : outlines parent [] = [] := rfl

@[simp] theorem outlines_cons (parent : Parent) (n : Node) (ns : List Node) :
    outlines parent (n :: ns) = n.outline parent ++ outlines parent ns := rfl

@[simp] theorem outlines_append (parent : Parent) (ms ns : List Node) :
    outlines parent (ms ++ ns) = outlines parent ms ++ outlines parent ns :=
  List.flatMap_append

/-- A variable that is referred to; `undefined` is none. -/
def referenceTo (id : Ident) : List FreeReference :=
  if id.name = "undefined" then [] else [.ident id]

/-- What a node itself refers to. -/
def references : Node → List FreeReference
  | .expr (.ident id) | .property (.shorthand _ (.ident id)) | .pat .assignment (.ident id)
  | .patProperty .assignment (.shorthand _ id _) => referenceTo id
  | .expr (.this loc) => [.this loc]
  | .exportSpecifier false ⟨_, .ident id, _⟩ => referenceTo id
  | _ => []

/-- Whether a node declares the names of the patterns directly inside of it. -/
def declares : Node → Bool
  | .function _ | .expr (.arrow ..) | .declarator .. | .catchClause (.mk _ (some _) _) => true
  | _ => false

/-- The targets that bind no name among what a node declares by one of its children. -/
def declaredTargets (n : Node) : Node → List Expr
  | .pat .binding p => if n.declares then p.memberLeaves else []
  | _ => []

/-- The targets that bind no name where one should be declared, in a node with the given outer
parent: of each child those that the node declares, and then those further inside. -/
def targetsInside (outer : Parent) (n : Node) : List Expr :=
  n.children.flatMap fun c => n.declaredTargets c ++ misplacedIn (c.outline (n.asParent outer))

/-- A node that declares nothing declares no targets. -/
theorem declaredTargets_eq_nil {n : Node} (h : n.declares = false) (c : Node) :
    n.declaredTargets c = [] := by
  unfold declaredTargets
  split
  · rw [h]
    rfl
  · rfl

/-- A node's outline, given what it holds. -/
def enclose (n : Node) (items : List Outline) : List Outline :=
  match n.scope? with
  | some kind => [.scope kind items]
  | none => items

/-! ## Lists of constructs -/

section

variable (parent : Parent)

/-- The outline of expressions is that of their nodes in a row. -/
theorem expressionsOutline_eq (es : List Expr) :
    expressionsOutline parent es = outlines parent (es.map .expr) := by
  induction es with
  | nil => rfl
  | cons e es ih => rw [expressionsOutline, ih]; rfl

/-- An expression that is left out has no outline. -/
theorem optionOutline_eq (o : Option Expr) :
    optionOutline parent o = outlines parent (o.toList.map .expr) := by
  cases o with
  | none => rfl
  | some e => exact (List.append_nil _).symm

/-- Elements that are left out have no outline. -/
theorem elementsOutline_eq (es : List (Option Expr)) :
    elementsOutline parent es = outlines parent (es.filterMap fun e => e.map .expr) := by
  induction es with
  | nil => rfl
  | cons e es ih => cases e <;> rw [elementsOutline, ih] <;> rfl

/-- The outline of properties is that of their nodes in a row. -/
theorem propertiesOutline_eq (ps : List Property) :
    propertiesOutline ps = outlines parent (ps.map .property) := by
  induction ps with
  | nil => rfl
  | cons p ps ih => rw [propertiesOutline, ih]; rfl

/-- The outline of the elements of a class is that of their nodes in a row. -/
theorem membersOutline_eq (ms : List Member) :
    membersOutline ms = outlines parent (ms.map .member) := by
  induction ms with
  | nil => rfl
  | cons m ms ih => rw [membersOutline, ih]; rfl

/-- Elements that are left out of a pattern have no outline. -/
theorem patElementsOutline_eq (use : PatUse) (ps : List (Option Pat)) :
    patElementsOutline use parent ps
      = outlines parent (ps.filterMap fun p => p.map (.pat use)) := by
  induction ps with
  | nil => rfl
  | cons p ps ih => cases p <;> rw [patElementsOutline, ih] <;> rfl

/-- The outline of the properties of a pattern is that of their nodes in a row. -/
theorem patPropertiesOutline_eq (use : PatUse) (ps : List PatProperty) :
    patPropertiesOutline use ps = outlines parent (ps.map (.patProperty use)) := by
  induction ps with
  | nil => rfl
  | cons p ps ih => rw [patPropertiesOutline, ih]; rfl

/-- All declarators of a declaration declare at the same site. -/
theorem declaratorsOutline_eq (kind : VarKind) (ds : List Declarator) :
    declaratorsOutline kind.site ds = outlines parent (ds.map (.declarator kind)) := by
  induction ds with
  | nil => rfl
  | cons d ds ih => rw [declaratorsOutline, ih]; rfl

/-- The outline of clauses is that of their nodes in a row. -/
theorem casesOutline_eq (cs : List SwitchCase) :
    casesOutline cs = outlines parent (cs.map .switchCase) := by
  induction cs with
  | nil => rfl
  | cons c cs ih =>
    obtain ⟨loc, test, consequent⟩ := c
    rw [casesOutline, ih, List.map_cons, outlines_cons, outline, casesOutline, casesOutline,
      List.append_nil]

/-- The outline of statements is that of their nodes in a row. -/
theorem statementsOutline_eq (body : List Stmt) :
    statementsOutline body = outlines parent (body.map .stmt) := by
  induction body with
  | nil => rfl
  | cons s body ih => rw [statementsOutline, ih]; rfl

/-- What stands after `else` may be left out. -/
theorem elseOutline_eq (s : Option Stmt) :
    elseOutline s = outlines parent (s.toList.map .stmt) := by
  cases s with
  | none => rfl
  | some s => exact (List.append_nil _).symm

/-- A `catch` clause may be left out. -/
theorem catchOutline_eq (c : Option CatchClause) :
    catchOutline c = outlines parent (c.toList.map .catchClause) := by
  cases c with
  | none => rfl
  | some c => exact (List.append_nil _).symm

/-- What stands after `finally` may be left out. -/
theorem blockOutline_eq (b : Option Block) :
    blockOutline b = outlines parent (b.toList.map .block) := by
  cases b with
  | none => rfl
  | some b => exact (List.append_nil _).symm

/-- The entries of an export list are nodes of their own. -/
theorem exportListOutline_eq (ofOther : Bool) (specifiers : List ExportSpecifier) :
    specifiers.flatMap (ExportSpecifier.outline parent ofOther)
      = outlines parent (specifiers.map (.exportSpecifier ofOther)) := by
  rw [outlines, List.flatMap_map]
  rfl

/-- What a loop begins with may be left out. -/
theorem initOutline_eq (init : Option ForInit) :
    initOutline parent init = outlines parent (init.toList.map ForInit.node) := by
  rcases init with _ | ⟨d⟩ | ⟨e⟩
  · rfl
  · exact (List.append_nil _).symm
  · exact (List.append_nil _).symm

/-- The target of a loop is a declaration or a pattern. -/
theorem outline_forTarget (target : ForTarget) :
    target.outline parent = target.node.outline parent := by
  cases target <;> rfl

end

end Node

/-! ## What is free and what escapes -/

/-- A name is free where it is mentioned as a value, unless something binds it. -/
theorem freeIn_mention (parent : Parent) (role : Role) (id : Ident) (items : List Outline) :
    freeIn [] (mention parent role id :: items)
      = (if role.isValue then Node.referenceTo id else []) ++ freeIn [] items := by
  by_cases h : id.name = "undefined" <;> cases hr : role.isValue <;>
    simp [freeIn, mention, Outline.free, Occurrence.free?, Node.referenceTo, h, hr]

/-- Names that bind at `site`, as they escape from an outline. -/
def declaredAt (site : BindSite) (names : List String) : List Declared :=
  names.map fun name => ⟨name, site⟩

@[simp] theorem mem_declaredAt {d : Declared} {site : BindSite} {names : List String} :
    d ∈ declaredAt site names ↔ d.site = site ∧ d.name ∈ names := by
  obtain ⟨name, site'⟩ := d
  simp only [declaredAt, List.mem_map, Declared.mk.injEq]
  grind

@[simp] theorem declaredAt_append (site : BindSite) (xs ys : List String) :
    declaredAt site (xs ++ ys) = declaredAt site xs ++ declaredAt site ys :=
  List.map_append

mutual

/-- Declarations refer to nothing. -/
theorem freeIn_declarations (site : BindSite) (p : Pat) : freeIn [] (p.declarations site) = [] := by
  cases p with
  | ident id => rfl
  | expr target => rfl
  | array loc elements => exact freeIn_elementDeclarations site elements
  | object loc properties => exact freeIn_propertyDeclarations site properties
  | rest loc argument => exact freeIn_declarations site argument
  | assign loc left right => exact freeIn_declarations site left

/-- Declaring a name is no reference to it. -/
theorem freeIn_patProperty (site : BindSite) (p : PatProperty) :
    freeIn [] (p.declarations site) = [] := by
  cases p with
  | keyValue loc key value => exact freeIn_declarations site value
  | shorthand loc id value => rfl
  | rest loc argument => exact freeIn_declarations site argument

/-- As `freeIn_patProperty`, for the elements of a pattern. -/
theorem freeIn_elementDeclarations (site : BindSite) (es : List (Option Pat)) :
    freeIn [] (elementDeclarations site es) = [] := by
  match es with
  | [] => rfl
  | none :: es => exact freeIn_elementDeclarations site es
  | some p :: es =>
    rw [elementDeclarations, freeIn_append, freeIn_declarations site p,
      freeIn_elementDeclarations site es, List.append_nil]

/-- As `freeIn_patProperty`, for the properties of a pattern. -/
theorem freeIn_propertyDeclarations (site : BindSite) (ps : List PatProperty) :
    freeIn [] (propertyDeclarations site ps) = [] := by
  match ps with
  | [] => rfl
  | p :: ps =>
    rw [propertyDeclarations, freeIn_append, freeIn_patProperty site p,
      freeIn_propertyDeclarations site ps, List.append_nil]

end

mutual

/-- A pattern declares the names at its leaves. -/
theorem escapingFrom_declarations (site : BindSite) (p : Pat) :
    escapingFrom (p.declarations site) = declaredAt site p.names := by
  cases p with
  | ident id => rfl
  | expr target => rfl
  | array loc elements => exact escapingFrom_elementDeclarations site elements
  | object loc properties => exact escapingFrom_propertyDeclarations site properties
  | rest loc argument => exact escapingFrom_declarations site argument
  | assign loc left right => exact escapingFrom_declarations site left

/-- The names in a property are declared at the site of the whole pattern. -/
theorem escapingFrom_patProperty (site : BindSite) (p : PatProperty) :
    escapingFrom (p.declarations site) = declaredAt site p.names := by
  cases p with
  | keyValue loc key value => exact escapingFrom_declarations site value
  | shorthand loc id value => rfl
  | rest loc argument => exact escapingFrom_declarations site argument

/-- The names in the elements are declared at the site of the whole pattern. -/
theorem escapingFrom_elementDeclarations (site : BindSite) (es : List (Option Pat)) :
    escapingFrom (elementDeclarations site es) = declaredAt site (elementNames es) := by
  match es with
  | [] => rfl
  | none :: es => exact escapingFrom_elementDeclarations site es
  | some p :: es =>
    rw [elementDeclarations, escapingFrom_append, escapingFrom_declarations site p,
      escapingFrom_elementDeclarations site es, elementNames, declaredAt_append]

/-- The names in the properties are declared at the site of the whole pattern. -/
theorem escapingFrom_propertyDeclarations (site : BindSite) (ps : List PatProperty) :
    escapingFrom (propertyDeclarations site ps) = declaredAt site (propertyNames ps) := by
  match ps with
  | [] => rfl
  | p :: ps =>
    rw [propertyDeclarations, escapingFrom_append, escapingFrom_patProperty site p,
      escapingFrom_propertyDeclarations site ps, propertyNames, declaredAt_append]

end

mutual

/-- The declarations of a pattern misplace the targets at its leaves. -/
theorem misplaced_declarations (site : BindSite) (p : Pat) :
    misplacedIn (p.declarations site) = p.memberLeaves := by
  cases p with
  | ident id => rfl
  | expr target => rfl
  | array loc elements => exact misplaced_elementDeclarations site elements
  | object loc properties => exact misplaced_propertyDeclarations site properties
  | rest loc argument => exact misplaced_declarations site argument
  | assign loc left right => exact misplaced_declarations site left

/-- A property misplaces the targets in it that bind no name. -/
theorem misplaced_patProperty (site : BindSite) (p : PatProperty) :
    misplacedIn (p.declarations site) = p.memberLeaves := by
  cases p with
  | keyValue loc key value => exact misplaced_declarations site value
  | shorthand loc id value => rfl
  | rest loc argument => exact misplaced_declarations site argument

/-- The elements misplace the targets in them that bind no name. -/
theorem misplaced_elementDeclarations (site : BindSite) (es : List (Option Pat)) :
    misplacedIn (elementDeclarations site es) = elementMemberLeaves es := by
  match es with
  | [] => rfl
  | none :: es => exact misplaced_elementDeclarations site es
  | some p :: es =>
    rw [elementDeclarations, misplacedIn_append, misplaced_declarations site p,
      misplaced_elementDeclarations site es, elementMemberLeaves]

/-- The properties misplace the targets in them that bind no name. -/
theorem misplaced_propertyDeclarations (site : BindSite) (ps : List PatProperty) :
    misplacedIn (propertyDeclarations site ps) = propertyMemberLeaves ps := by
  match ps with
  | [] => rfl
  | p :: ps =>
    rw [propertyDeclarations, misplacedIn_append, misplaced_patProperty site p,
      misplaced_propertyDeclarations site ps, propertyMemberLeaves]

end

/-! ## Scopes -/

mutual

/-- Declarations open no scopes. -/
theorem openedIn_declarations (site : BindSite) (p : Pat) : openedIn (p.declarations site) = [] := by
  cases p with
  | ident id => rfl
  | expr target => rfl
  | array loc elements => exact openedIn_elementDeclarations site elements
  | object loc properties => exact openedIn_propertyDeclarations site properties
  | rest loc argument => exact openedIn_declarations site argument
  | assign loc left right => exact openedIn_declarations site left

/-- Declarations open no scope. -/
theorem openedIn_patProperty (site : BindSite) (p : PatProperty) :
    openedIn (p.declarations site) = [] := by
  cases p with
  | keyValue loc key value => exact openedIn_declarations site value
  | shorthand loc id value => rfl
  | rest loc argument => exact openedIn_declarations site argument

/-- As `openedIn_patProperty`, for the elements of a pattern. -/
theorem openedIn_elementDeclarations (site : BindSite) (es : List (Option Pat)) :
    openedIn (elementDeclarations site es) = [] := by
  match es with
  | [] => rfl
  | none :: es => exact openedIn_elementDeclarations site es
  | some p :: es =>
    rw [elementDeclarations, openedIn_append, openedIn_declarations site p,
      openedIn_elementDeclarations site es, List.append_nil]

/-- As `openedIn_patProperty`, for the properties of a pattern. -/
theorem openedIn_propertyDeclarations (site : BindSite) (ps : List PatProperty) :
    openedIn (propertyDeclarations site ps) = [] := by
  match ps with
  | [] => rfl
  | p :: ps =>
    rw [propertyDeclarations, openedIn_append, openedIn_patProperty site p,
      openedIn_propertyDeclarations site ps, List.append_nil]

end

end WithScope
