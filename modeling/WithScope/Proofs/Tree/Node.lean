import WithScope.Scope.Outline
import WithScope.Syntax.Location

/-!
# The nodes of a tree

The types of the tree contain each other, so a statement about all of them at once would have to be
made for each of them. A `Node` is a construct of any of these types, and `Node.children` are the
constructs directly inside of it, in the order of the text. Two nodes stand for something that is no
type of the tree: the value of a class field and the clauses of a `switch` are scopes of their own. A
name in an export list is a node because it comes after the declaration.

* `Node.size_lt_of_mem_children` — a child is smaller than what holds it;
* `Node.induct` — hence what holds of a node if it holds of its children holds of all nodes;
* `Node.All` — a property of all nodes of a tree, which a node has iff it has the property itself
  and its children have it.
-/

namespace WithScope

/-- A construct of a program. Patterns know whether they declare names. -/
inductive Node
  | expr (e : Expr)
  | template (t : Template)
  | memberName (m : MemberName)
  | key (k : Key)
  | property (p : Property)
  | function (f : Func)
  | «class» (c : Class)
  | member (m : Member)
  /-- the value of a class field -/
  | fieldValue (value : Expr)
  | pat (use : PatUse) (p : Pat)
  | patProperty (use : PatUse) (p : PatProperty)
  | block (b : Block)
  | varDecl (d : VarDecl)
  | declarator (kind : VarKind) (d : Declarator)
  /-- the clauses of a `switch` -/
  | caseBlock (cases : List SwitchCase)
  | switchCase (c : SwitchCase)
  | catchClause (c : CatchClause)
  /-- a name in an export list, which may belong to another module -/
  | exportSpecifier (ofOther : Bool) (s : ExportSpecifier)
  | module (d : ModuleDecl)
  | stmt (s : Stmt)

/-! ## Children -/

/-- The body of an arrow function as a node. -/
def ArrowBody.node : ArrowBody → Node
  | .block body => .block body
  | .expr value => .expr value

/-- What a `for` loop begins with, as a node. -/
def ForInit.node : ForInit → Node
  | .decl d => .varDecl d
  | .expr e => .expr e

/-- What a loop over values assigns to, as a node. -/
def ForTarget.node : ForTarget → Node
  | .decl d => .varDecl d
  | .pat p => .pat .assignment p

/-- What is exported by default, as a node. -/
def DefaultExport.node : DefaultExport → Node
  | .function f => .function f
  | .class c => .class c
  | .expr e => .expr e

/-- The nodes directly inside of an expression. -/
def Expr.children : Expr → List Node
  | .null _ | .bool .. | .number _ | .string _ | .bigInt .. | .regExp .. | .ident _ | .this _
  | .super _ | .metaProperty .. => []
  | .template t => [.template t]
  | .array _ elements => elements.filterMap fun e => e.map .expr
  | .object _ properties => properties.map .property
  | .paren _ e => [.expr e]
  | .function f => [.function f]
  | .arrow _ _ params body => params.map (.pat .binding) ++ [body.node]
  | .class c => [.class c]
  | .unary _ _ argument | .update _ _ _ argument | .spread _ argument | .await _ argument =>
    [.expr argument]
  | .binary _ _ left right | .logical _ _ left right => [.expr left, .expr right]
  | .conditional _ test consequent alternate => [.expr test, .expr consequent, .expr alternate]
  | .assign _ _ left right => [.pat .assignment left, .expr right]
  | .sequence _ items => items.map .expr
  | .member _ e name _ => [.expr e, .memberName name]
  | .call _ callee arguments _ | .new _ callee arguments => .expr callee :: arguments.map .expr
  | .taggedTemplate _ tag quasi => [.expr tag, .template quasi]
  | .yield _ _ argument => argument.toList.map .expr
  | .importCall _ source options => .expr source :: options.toList.map .expr
  | .privateIn _ _ right => [.expr right]

/-- The nodes directly inside of a template. -/
def Template.children : Template → List Node
  | .mk _ _ expressions => expressions.map .expr

/-- The nodes directly inside of the name in a member access. -/
def MemberName.children : MemberName → List Node
  | .ident _ | .privateName _ => []
  | .computed e => [.expr e]

/-- The nodes directly inside of a key. -/
def Key.children : Key → List Node
  | .ident _ | .privateName _ | .string _ | .number _ => []
  | .computed e => [.expr e]

/-- The nodes directly inside of a property of an object literal. -/
def Property.children : Property → List Node
  | .value _ key e => [.key key, .expr e]
  | .shorthand _ (.ident _) => []
  | .shorthand _ key => [.key key]
  | .method _ _ key f => [.key key, .function f]
  | .spread _ argument => [.expr argument]

/-- The nodes directly inside of a function. -/
def Func.children : Func → List Node
  | .mk _ _ _ _ params body => params.map (.pat .binding) ++ [.block body]

/-- The nodes directly inside of a class. -/
def Class.children : Class → List Node
  | .mk _ _ superClass _ members => superClass.toList.map .expr ++ members.map .member

/-- The nodes directly inside of an element of a class. -/
def Member.children : Member → List Node
  | .method _ _ _ key value => [.key key, .function value]
  | .field _ _ key value => .key key :: value.toList.map .fieldValue
  | .staticBlock _ body => body.map .stmt

/-- The nodes directly inside of a pattern. -/
def Pat.children (use : PatUse) : Pat → List Node
  | .ident _ => []
  | .array _ elements => elements.filterMap fun p => p.map (.pat use)
  | .object _ properties => properties.map (.patProperty use)
  | .rest _ argument => [.pat use argument]
  | .assign _ left right => [.pat use left, .expr right]
  | .expr target => [.expr target]

/-- The nodes directly inside of a property of an object pattern. -/
def PatProperty.children (use : PatUse) : PatProperty → List Node
  | .keyValue _ key value => [.key key, .pat use value]
  | .shorthand _ _ value => value.toList.map .expr
  | .rest _ argument => [.pat use argument]

/-- The nodes directly inside of a variable declaration. -/
def VarDecl.children : VarDecl → List Node
  | .mk _ kind declarators => declarators.map (.declarator kind)

/-- The nodes directly inside of a declared pattern with its initial value. -/
def Declarator.children : Declarator → List Node
  | .mk _ id value => .pat .binding id :: value.toList.map .expr

/-- The nodes directly inside of a clause of a `switch`. -/
def SwitchCase.children : SwitchCase → List Node
  | .mk _ test consequent => test.toList.map .expr ++ consequent.map .stmt

/-- The nodes directly inside of a `catch` clause. -/
def CatchClause.children : CatchClause → List Node
  | .mk _ param body => param.toList.map (.pat .binding) ++ [.block body]

/-- The nodes directly inside of an import or export. -/
def ModuleDecl.children : ModuleDecl → List Node
  | .importFrom .. | .exportAll .. => []
  | .exportNamed _ specifiers source declaration _ =>
    declaration.toList.map .stmt ++ specifiers.map (.exportSpecifier source.isSome)
  | .exportDefault _ value => [value.node]

/-- The nodes directly inside of a statement. -/
def Stmt.children : Stmt → List Node
  | .block b => [.block b]
  | .varDecl d => [.varDecl d]
  | .function f => [.function f]
  | .class c => [.class c]
  | .expr _ e | .throw _ e => [.expr e]
  | .if _ test consequent alternate =>
    .expr test :: .stmt consequent :: alternate.toList.map .stmt
  | .for _ init test update body =>
    init.toList.map ForInit.node ++ test.toList.map .expr ++ update.toList.map .expr
      ++ [.stmt body]
  | .forIn _ left right body | .forOf _ _ left right body => [left.node, .expr right, .stmt body]
  | .while _ test body | .with _ test body => [.expr test, .stmt body]
  | .doWhile _ body test => [.stmt body, .expr test]
  | .switch _ discriminant cases => [.expr discriminant, .caseBlock cases]
  | .try _ body handler finalizer =>
    .block body :: (handler.toList.map .catchClause ++ finalizer.toList.map .block)
  | .return _ argument => argument.toList.map .expr
  | .labeled _ _ body => [.stmt body]
  | .break .. | .continue .. | .debugger _ | .empty _ => []
  | .module d => [.module d]

namespace Node

/-- The nodes directly inside of a node, in the order of the text. -/
def children : Node → List Node
  | .expr e => e.children
  | .template t => t.children
  | .memberName m => m.children
  | .key k => k.children
  | .property p => p.children
  | .function f => f.children
  | .class c => c.children
  | .member m => m.children
  | .fieldValue value => [.expr value]
  | .pat use p => p.children use
  | .patProperty use p => p.children use
  | .block b => b.body.map .stmt
  | .varDecl d => d.children
  | .declarator _ d => d.children
  | .caseBlock cases => cases.map .switchCase
  | .switchCase c => c.children
  | .catchClause c => c.children
  | .exportSpecifier .. => []
  | .module d => d.children
  | .stmt s => s.children

/-! ## Induction -/

/-- The size of a node. A scope that is no type of the tree is larger than what it holds. -/
noncomputable def size : Node → Nat
  | .expr e => sizeOf e
  | .template t => sizeOf t
  | .memberName m => sizeOf m
  | .key k => sizeOf k
  | .property p => sizeOf p
  | .function f => sizeOf f
  | .class c => sizeOf c
  | .member m => sizeOf m
  | .fieldValue value => sizeOf value + 1
  | .pat _ p => sizeOf p
  | .patProperty _ p => sizeOf p
  | .block b => sizeOf b
  | .varDecl d => sizeOf d
  | .declarator _ d => sizeOf d
  | .caseBlock cases => sizeOf cases
  | .switchCase c => sizeOf c
  | .catchClause c => sizeOf c
  | .exportSpecifier _ s => sizeOf s
  | .module d => sizeOf d
  | .stmt s => sizeOf s

/-- Lists of options are larger than what their options hold. -/
theorem sizeOf_lt_of_some_mem {α : Type} [SizeOf α] {a : α} {as : List (Option α)}
    (h : some a ∈ as) : sizeOf a < sizeOf as := by
  have := List.sizeOf_lt_of_mem h
  simp only [Option.some.sizeOf_spec] at this
  omega

section

attribute [local simp] size children Option.map_eq_some_iff
attribute [local grind =] size

theorem size_arrowBody (body : ArrowBody) : sizeOf body = body.node.size + 1 := by
  cases body <;> simp [ArrowBody.node] <;> omega

theorem size_forInit (init : ForInit) : sizeOf init = init.node.size + 1 := by
  cases init <;> simp [ForInit.node] <;> omega

theorem size_forTarget (target : ForTarget) : sizeOf target = target.node.size + 1 := by
  cases target <;> simp [ForTarget.node] <;> omega

theorem size_defaultExport (value : DefaultExport) : sizeOf value = value.node.size + 1 := by
  cases value <;> simp [DefaultExport.node] <;> omega

attribute [local grind →] List.sizeOf_lt_of_mem sizeOf_lt_of_some_mem
attribute [local grind =] size_arrowBody size_forInit size_forTarget size_defaultExport

/-- A child is smaller than what holds it. -/
theorem size_lt_of_mem_children {c n : Node} (h : c ∈ n.children) : c.size < n.size := by
  rcases n with e | ⟨loc, quasis, es⟩ | m | k | p | ⟨loc, id, isAsync, isGenerator, params, body⟩ |
    ⟨loc, id, superClass, bodyLoc, members⟩ | m | value | ⟨use, p⟩ | ⟨use, p⟩ | ⟨loc, body⟩ |
    ⟨loc, kind, ds⟩ | ⟨kind, ⟨loc, id, value⟩⟩ | cases | ⟨loc, test, consequent⟩ |
    ⟨loc, param, body⟩ | ⟨ofOther, s⟩ | d | s
  case expr => cases e <;> simp [Expr.children] at h <;> grind
  case template => simp [Template.children] at h; grind
  case memberName => cases m <;> simp [MemberName.children] at h; grind
  case key => cases k <;> simp [Key.children] at h; grind
  case property =>
    rcases p with _ | ⟨loc, ⟨id⟩ | _⟩ | _ | _ <;> simp [Property.children] at h <;> grind
  case function => simp [Func.children] at h; grind
  case «class» => simp [Class.children] at h; grind
  case member => cases m <;> simp [Member.children] at h <;> grind
  case fieldValue => simp at h; grind
  case pat => cases p <;> simp [Pat.children] at h <;> grind
  case patProperty => cases p <;> simp [PatProperty.children] at h <;> grind
  case block => simp [Block.body] at h; grind
  case varDecl => simp [VarDecl.children] at h; grind
  case declarator => simp [Declarator.children] at h; grind
  case caseBlock => simp at h; grind
  case switchCase => simp [SwitchCase.children] at h; grind
  case catchClause => simp [CatchClause.children] at h; grind
  case exportSpecifier => cases h
  case module => cases d <;> simp [ModuleDecl.children] at h <;> grind
  case stmt => cases s <;> simp [Stmt.children] at h <;> grind

end

/-- What holds of every node whose children it holds of, holds of every node. -/
theorem induct {P : Node → Prop} (step : ∀ n, (∀ c ∈ n.children, P c) → P n) (n : Node) : P n :=
  step n fun c _ => induct step c
termination_by n.size
decreasing_by exact size_lt_of_mem_children ‹_›

/-- What a property of nodes is for whole trees: each node in the tree has it. -/
inductive All (P : Node → Prop) : Node → Prop
  | intro {n : Node} (here : P n) (below : ∀ c ∈ n.children, All P c) : All P n

theorem all_iff {P : Node → Prop} {n : Node} : n.All P ↔ P n ∧ ∀ c ∈ n.children, c.All P :=
  ⟨fun ⟨here, below⟩ => ⟨here, below⟩, fun ⟨here, below⟩ => ⟨here, below⟩⟩

theorem All.mono {P Q : Node → Prop} (h : ∀ n, P n → Q n) {n : Node} (hn : n.All P) : n.All Q := by
  induction hn with
  | intro here _ ih => exact .intro (h _ here) ih

end Node

/-! ## Lists of children -/

/-- What holds of the items that are there holds of their nodes. -/
theorem forall_mem_elements {α : Type} {f : α → Node} {Q : Node → Prop}
    {elements : List (Option α)} (h : ∀ a, some a ∈ elements → Q (f a)) :
    ∀ c ∈ elements.filterMap (·.map f), Q c := by
  intro c hc
  obtain ⟨element, he, hc⟩ := List.mem_filterMap.1 hc
  obtain ⟨a, rfl, rfl⟩ := Option.map_eq_some_iff.1 hc
  exact h a he

theorem mem_elements {α : Type} {f : α → Node} {elements : List (Option α)} {a : α}
    (h : some a ∈ elements) : f a ∈ elements.filterMap (·.map f) :=
  List.mem_filterMap.2 ⟨some a, h, rfl⟩

theorem forall_mem_toList {α : Type} {f : α → Node} {Q : Node → Prop} {option : Option α}
    (h : ∀ a ∈ option, Q (f a)) : ∀ c ∈ option.toList.map f, Q c :=
  List.forall_mem_map.2 fun a ha => h a (Option.mem_toList.1 ha)

end WithScope
