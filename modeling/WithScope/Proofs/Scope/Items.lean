import WithScope.Proofs.Scope.Contents

/-!
# The items of an outline

A node lists what it holds itself, and then what its children hold, each after the names that it
declares as a pattern of the node. `Node.items` is that list, and `Node.outline_eq` says that it is the
outline of every node, besides the scope around it.
-/

namespace WithScope

namespace Node

/-! ## What a node holds itself -/

/-- The identifiers that a node holds itself, and what they do there. -/
def names : Node → List (Ident × Role)
  | .expr (.ident id) => [(id, .operand)]
  | .expr (.metaProperty _ word name) => [(word, .metaName), (name, .metaName)]
  | .memberName (.ident id) => [(id, .memberName)]
  | .key (.ident id) => [(id, .key)]
  | .property (.shorthand _ (.ident id)) => [(id, .shorthand)]
  | .function (.mk _ id _ _ _ _) | .class (.mk _ id _ _ _) => id.toList.map fun id => (id, .ownName)
  | .pat use (.ident id) | .patProperty use (.shorthand _ id _) => [(id, .leaf use)]
  | .module (.importFrom _ specifiers _ _) => specifiers.map fun s => (s.localName, .importLocal)
  | .exportSpecifier ofOther ⟨_, .ident id, _⟩ => [(id, .exportLocal ofOther)]
  | .stmt (.break _ label) | .stmt (.continue _ label) => label.toList.map fun id => (id, .label)
  | .stmt (.labeled _ label _) => [(label, .label)]
  | _ => []

/-- Where the identifiers of a node bind, if it declares them. -/
def nameSite? : Node → Option BindSite
  | .function _ | .class _ => some .current
  | .module (.importFrom ..) => some .root
  | _ => none

/-- The name of the function or class that a node declares for the scopes around it. -/
def hoisted : Node → Option Ident
  | .stmt (.function f) | .module (.exportDefault _ (.function f)) => f.id
  | .stmt (.class c) | .module (.exportDefault _ (.class c)) => c.id
  | _ => none

/-- Where a node says `this`. -/
def this? : Node → Option Span
  | .expr (.this loc) => some loc
  | _ => none

/-- Whether what a node holds counts as held by the node around it. -/
def passes : Node → Bool
  | .expr (.ident _) | .pat _ (.ident _) | .template _ | .memberName _ | .key _ | .fieldValue _
  | .block _ | .varDecl _ | .caseBlock _ | .exportSpecifier .. => true
  | _ => false

/-- What an identifier of a node does. -/
def nameItems (n : Node) (parent : Parent) (name : Ident × Role) : List Outline :=
  n.nameSite?.toList.map (declaration · name.1) ++ [mention parent name.2 name.1]

/-- What a node holds besides its children. -/
def ownItems (outer : Parent) (n : Node) : List Outline :=
  n.this?.toList.map (fun loc => .occurrence (.this loc)) ++ declareName .hoisted n.hoisted
    ++ n.names.flatMap (n.nameItems (if n.passes then outer else n.asParent outer))

/-! ## What a node declares by its children -/

/-- Where the patterns of a node bind, if it declares their names. -/
def patternSite? : Node → Option BindSite
  | .function _ | .expr (.arrow ..) | .catchClause _ => some .current
  | .declarator kind _ => some kind.site
  | _ => none

/-- The names that a node declares by one of its children. -/
def declarationsBy (n : Node) : Node → List Outline
  | .pat .binding p => n.patternSite?.toList.flatMap p.declarations
  | _ => []

/-- What a node holds. -/
def items (outer : Parent) (n : Node) : List Outline :=
  n.ownItems outer
    ++ n.children.flatMap fun c => n.declarationsBy c ++ c.outline (n.asParent outer)

theorem declarationsBy_eq_nil {n : Node} (h : n.patternSite? = none) (c : Node) :
    n.declarationsBy c = [] := by
  unfold declarationsBy
  rw [h]
  split <;> rfl

theorem declarationsBy_pat {n : Node} {site : BindSite} (h : n.patternSite? = some site) (p : Pat) :
    n.declarationsBy (.pat .binding p) = p.declarations site := by
  rw [declarationsBy, h, Option.toList_some, List.flatMap_singleton]

theorem items_eq {n : Node} (h : n.patternSite? = none) (outer : Parent) :
    n.items outer = n.ownItems outer ++ outlines (n.asParent outer) n.children := by
  simp only [items, declarationsBy_eq_nil h, List.nil_append]
  rfl

theorem paramsOutline_eq (parent : Parent) (ps : List Pat) :
    paramsOutline parent ps =
      ps.flatMap fun p => p.declarations .current ++ p.outline .binding parent := by
  induction ps with
  | nil => rfl
  | cons p ps ih => rw [paramsOutline, ih, List.flatMap_cons]

/-! ## Each construct -/

variable (outer : Parent)

theorem outline_expr (e : Expr) : (expr e).outline outer = (expr e).enclose ((expr e).items outer) := by
  cases e
  case arrow loc isAsync params body =>
    cases body <;>
      simp [outline, Expr.outline, enclose, scope?, items, ownItems, this?, hoisted, names, declareName,
        children, Expr.children, ArrowBody.node, ArrowBody.outline, declarationsBy, patternSite?,
        asParent, paramsOutline_eq, List.flatMap_map]
  case object loc properties =>
    rw [items_eq rfl]
    exact propertiesOutline_eq (.expr (.object loc properties)) properties
  case ident | this | metaProperty => rfl
  all_goals
    rw [items_eq rfl]
    simp only [outline, children, Expr.outline, Expr.children, asParent, outlines_cons,
      outlines_nil, List.append_nil, expressionsOutline_eq, elementsOutline_eq, optionOutline_eq,
      List.append_assoc]
    try rfl

theorem outline_pat (use : PatUse) (p : Pat) :
    (pat use p).outline outer = (pat use p).enclose ((pat use p).items outer) := by
  rw [items_eq rfl]
  cases p
  case object loc properties =>
    exact patPropertiesOutline_eq (.pat (.object loc properties) use) use properties
  case ident => rfl
  all_goals
    simp only [outline, children, Pat.outline, Pat.children, asParent, outlines_cons,
      outlines_nil, List.append_nil, patElementsOutline_eq]
    rfl

theorem outline_module (d : ModuleDecl) :
    (module d).outline outer = (module d).enclose ((module d).items outer) := by
  rw [items_eq rfl]
  rcases d with ⟨loc, specifiers, source, attributes⟩ |
    ⟨loc, specifiers, source, declaration, attributes⟩ | ⟨loc, f | c | e⟩ | _
  case importFrom =>
    simp [outline, ModuleDecl.outline, enclose, scope?, ownItems, this?, hoisted, names, nameSite?,
      nameItems, declareName, children, ModuleDecl.children, passes, asParent, List.flatMap_map]
    rfl
  case exportNamed =>
    rw [outline, ModuleDecl.outline, elseOutline_eq .module, exportListOutline_eq]
    simp only [children, ModuleDecl.children, outlines_append]
    rfl
  case exportDefault.function | exportDefault.class =>
    simp [outline, ModuleDecl.outline, DefaultExport.outline, enclose, scope?, ownItems, this?, hoisted,
      names, children, ModuleDecl.children, DefaultExport.node]
  all_goals first | rfl | exact (List.append_nil _).symm

theorem outline_stmt (s : Stmt) : (stmt s).outline outer = (stmt s).enclose ((stmt s).items outer) := by
  rw [items_eq rfl]
  cases s
  case function | «class» =>
    simp [outline, Stmt.outline, enclose, scope?, ownItems, this?, hoisted, names, children,
      Stmt.children]
  case «break» loc label => cases label <;> rfl
  case «continue» loc label => cases label <;> rfl
  case labeled loc label body => exact congrArg _ (List.append_nil _).symm
  case «if» loc test consequent alternate =>
    rw [outline, Stmt.outline, elseOutline_eq (.stmt (.if loc test consequent alternate)),
      List.append_assoc]
    rfl
  case «try» loc body handler finalizer =>
    rw [outline, Stmt.outline, catchOutline_eq (.stmt (.try loc body handler finalizer)),
      blockOutline_eq (.stmt (.try loc body handler finalizer)), List.append_assoc,
      ← outlines_append]
    rfl
  all_goals
    simp only [outline, children, Stmt.outline, Stmt.children, asParent, outlines_cons,
      outlines_nil, outlines_append, List.append_nil, optionOutline_eq, initOutline_eq,
      outline_forTarget, List.append_assoc]
    rfl

/-- The outline of a node consists of its items. -/
theorem outline_eq (n : Node) : n.outline outer = n.enclose (n.items outer) := by
  cases n with
  | expr e => exact outline_expr outer e
  | template t =>
    obtain ⟨loc, quasis, es⟩ := t
    rw [items_eq rfl]
    exact expressionsOutline_eq outer es
  | memberName m =>
    rw [items_eq rfl]
    cases m <;> first | rfl | exact (List.append_nil _).symm
  | key k =>
    rw [items_eq rfl]
    cases k <;> first | rfl | exact (List.append_nil _).symm
  | property p =>
    rw [items_eq rfl]
    cases p with
    | value | method => exact congrArg _ (List.append_nil _).symm
    | shorthand loc key => cases key <;> first | rfl | exact (List.append_nil _).symm
    | spread => exact (List.append_nil _).symm
  | function f =>
    obtain ⟨loc, id, isAsync, isGenerator, params, body⟩ := f
    cases id <;>
      simp [outline, Func.outline, enclose, scope?, items, ownItems, this?, hoisted, names,
        nameSite?, nameItems, ownName, declareName, children, Func.children, declarationsBy,
        patternSite?, asParent, passes, paramsOutline_eq, List.flatMap_map]
  | «class» c =>
    obtain ⟨loc, id, superClass, bodyLoc, members⟩ := c
    rw [items_eq rfl, outline, Class.outline, optionOutline_eq, membersOutline_eq .class,
      List.append_assoc, ← outlines_append]
    cases id <;> rfl
  | member m =>
    rw [items_eq rfl]
    cases m with
    | method => exact congrArg _ (List.append_nil _).symm
    | field loc isStatic key value =>
      cases value with
      | none => exact (List.append_nil _).symm
      | some => exact congrArg _ (List.append_nil _).symm
    | staticBlock loc body =>
      rw [outline, Member.outline, statementsOutline_eq .classMember]
      rfl
  | fieldValue value =>
    rw [items_eq rfl, outline, ← List.append_nil (value.outline .classMember)]
    rfl
  | pat use p => exact outline_pat outer use p
  | patProperty use p =>
    rw [items_eq rfl]
    cases p with
    | keyValue => exact congrArg _ (List.append_nil _).symm
    | shorthand loc id value => exact congrArg _ (optionOutline_eq _ value)
    | rest => exact (List.append_nil _).symm
  | block b =>
    obtain ⟨loc, body⟩ := b
    rw [items_eq rfl, outline, Block.outline, statementsOutline_eq outer]
    rfl
  | varDecl d =>
    obtain ⟨loc, kind, ds⟩ := d
    rw [items_eq rfl]
    exact declaratorsOutline_eq outer kind ds
  | declarator kind d =>
    obtain ⟨loc, id, value⟩ := d
    simp [outline, Declarator.outline, optionOutline_eq, outlines, enclose, scope?, items, ownItems,
      this?, hoisted, names, declareName, children, Declarator.children, declarationsBy, patternSite?,
      asParent, List.flatMap_map]
  | caseBlock cases =>
    rw [items_eq rfl, outline, casesOutline_eq outer]
    rfl
  | switchCase c =>
    obtain ⟨loc, test, consequent⟩ := c
    rw [items_eq rfl, outline, casesOutline, casesOutline, List.append_nil, optionOutline_eq,
      statementsOutline_eq .switchCase, ← outlines_append]
    rfl
  | catchClause c =>
    obtain ⟨loc, param, body⟩ := c
    have hown : (catchClause (.mk loc param body)).ownItems outer = [] := rfl
    rw [items, hown, List.nil_append]
    cases param with
    | none =>
      simp only [children, CatchClause.children, Option.toList_none, List.map_nil, List.nil_append,
        List.flatMap_cons, List.flatMap_nil, List.append_nil]
      rfl
    | some p =>
      simp only [children, CatchClause.children, Option.toList_some, List.map_cons, List.map_nil,
        List.cons_append, List.nil_append, List.flatMap_cons, List.flatMap_nil, List.append_nil]
      rw [declarationsBy_pat rfl]
      rfl
  | exportSpecifier ofOther s =>
    rw [items_eq rfl]
    obtain ⟨loc, ⟨id⟩ | ⟨lit⟩, exported⟩ := s <;> rfl
  | module d => exact outline_module outer d
  | stmt s => exact outline_stmt outer s

end Node

end WithScope
