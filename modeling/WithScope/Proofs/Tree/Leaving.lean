import WithScope.Proofs.Tree.Located
import WithScope.Proofs.Tree.Node
import WithScope.Wrapper.Returns

/-!
# The returns that leave a node

`Node.leaving` are the `return` statements in a tree that are inside of no function, arrow function
or class of it, found by going down from each node to its children. `Stmt.returns` finds returns by
going down only where statements can be: statements in statements.

* `Stmt.Direct` — both find the same. There is one lemma for each statement that holds others;
* `Stmt.row_returns` — the returns in a statement stand one after the other, inside of the statement.
-/

namespace WithScope

/-! ## Going down everywhere -/

namespace Node

/-- Whether a return inside of a node would not leave it. -/
def isCode : Node → Bool
  | .function _ | .class _ | .expr (.arrow ..) => true
  | _ => false

/-- The return that a node is, if it is one. -/
def ownReturn : Node → List Return
  | .stmt (.return loc argument) => [⟨loc, argument⟩]
  | _ => []

/-- The returns in a node that leave it, in the order of the text. -/
def leaving (n : Node) : List Return :=
  if n.isCode then [] else n.ownReturn ++ n.children.attach.flatMap fun c => leaving c.1
termination_by n.size
decreasing_by exact size_lt_of_mem_children c.2

/-- Code of its own keeps its returns; any other node has its own return and those of its children.
-/
theorem leaving_eq (n : Node) :
    n.leaving = if n.isCode then [] else n.ownReturn ++ n.children.flatMap leaving := by
  rw [leaving, List.flatMap_subtype (g := leaving) fun _ _ => rfl, List.unattach_attach]

/-- No return leaves a node if it is none itself and none leaves its children. -/
theorem leaving_eq_nil {n : Node} (h : n.ownReturn = []) (hc : ∀ c ∈ n.children, c.leaving = []) :
    n.leaving = [] := by
  rw [leaving_eq, h, List.nil_append, List.flatMap_eq_nil_iff.2 hc, ite_self]

/-! ## Where no return can be -/

/-- Whether a node holds statements inside of functions and classes alone. -/
def isPlain : Node → Bool
  | .expr _ | .template _ | .memberName _ | .key _ | .property _ | .function _ | .class _
  | .pat .. | .patProperty .. | .varDecl _ | .declarator .. | .exportSpecifier .. => true
  | _ => false

/-- In an expression or declaration there is code and there are expressions, but no statements. -/
theorem isPlain_of_mem_children {c n : Node} (hn : n.isPlain) (h : n.isCode = false)
    (hc : c ∈ n.children) : c.isPlain := by
  rcases n with e | ⟨loc, quasis, es⟩ | m | k | p | f | c | m | v | ⟨use, p⟩ | ⟨use, p⟩ | b |
    ⟨loc, kind, ds⟩ | ⟨kind, ⟨loc, id, value⟩⟩ | cs | c | c | ⟨ofOther, s⟩ | d | s
  case expr =>
    cases e
    case arrow => cases h
    all_goals simp [children, Expr.children] at hc
    all_goals grind [isPlain]
  case template => simp [children, Template.children] at hc; grind [isPlain]
  case memberName => cases m <;> simp [children, MemberName.children] at hc; grind [isPlain]
  case key => cases k <;> simp [children, Key.children] at hc; grind [isPlain]
  case property =>
    rcases p with _ | ⟨loc, ⟨id⟩ | _⟩ | _ | _ <;> simp [children, Property.children] at hc <;>
      grind [isPlain]
  case function | «class» => cases h
  case pat => cases p <;> simp [children, Pat.children] at hc <;> grind [isPlain]
  case patProperty => cases p <;> simp [children, PatProperty.children] at hc <;> grind [isPlain]
  case varDecl => simp [children, VarDecl.children] at hc; grind [isPlain]
  case declarator => simp [children, Declarator.children] at hc; grind [isPlain]
  case exportSpecifier => cases hc
  all_goals cases hn

/-- No return leaves an expression, a pattern or a declaration. -/
theorem leaving_eq_nil_of_isPlain (n : Node) : n.isPlain → n.leaving = [] := by
  induction n using induct with
  | step n ih =>
    intro hn
    cases h : n.isCode with
    | true => rw [leaving_eq, if_pos h]
    | false =>
      refine leaving_eq_nil ?_ fun c hc => ih c hc (isPlain_of_mem_children hn h hc)
      cases n <;> first | rfl | cases hn

/-- No return leaves an expression. -/
@[simp] theorem leaving_expr (e : Expr) : (Node.expr e).leaving = [] :=
  leaving_eq_nil_of_isPlain _ rfl

@[simp] theorem leaving_varDecl (d : VarDecl) : (Node.varDecl d).leaving = [] :=
  leaving_eq_nil_of_isPlain _ rfl

@[simp] theorem leaving_pat (use : PatUse) (p : Pat) : (Node.pat use p).leaving = [] :=
  leaving_eq_nil_of_isPlain _ rfl

/-- The returns in a function leave the function, and nothing around it. -/
@[simp] theorem leaving_function (f : Func) : (Node.function f).leaving = [] :=
  leaving_eq_nil_of_isPlain _ rfl

/-- The returns in a class leave its methods, and nothing around them. -/
@[simp] theorem leaving_class (c : Class) : (Node.class c).leaving = [] :=
  leaving_eq_nil_of_isPlain _ rfl

@[simp] theorem leaving_exportSpecifier (ofOther : Bool) (s : ExportSpecifier) :
    (Node.exportSpecifier ofOther s).leaving = [] :=
  leaving_eq_nil_of_isPlain _ rfl

/-- What a loop begins with holds no statements. -/
@[simp] theorem leaving_forInit (init : ForInit) : init.node.leaving = [] := by
  cases init <;> simp [ForInit.node]

/-- The target of a loop holds no statements. -/
@[simp] theorem leaving_forTarget (target : ForTarget) : target.node.leaving = [] := by
  cases target <;> simp [ForTarget.node]

/-- What is exported by default holds no statements. -/
@[simp] theorem leaving_defaultExport (value : DefaultExport) : value.node.leaving = [] := by
  cases value <;> simp [DefaultExport.node]

/-! ## Where returns can be -/

/-- A statement is not code of its own. -/
theorem leaving_stmt (s : Stmt) :
    (Node.stmt s).leaving = (Node.stmt s).ownReturn ++ s.children.flatMap leaving := by
  rw [leaving_eq]
  rfl

/-- The returns that leave a block are those of its statements, in their order. -/
@[simp] theorem leaving_block (b : Block) :
    (Node.block b).leaving = (b.body.map .stmt).flatMap leaving := by
  rw [leaving_eq]
  rfl

/-- The returns that leave the clauses of a `switch`, in their order. -/
@[simp] theorem leaving_caseBlock (cases : List SwitchCase) :
    (Node.caseBlock cases).leaving = (cases.map .switchCase).flatMap leaving := by
  rw [leaving_eq]
  rfl

@[simp] theorem leaving_switchCase (c : SwitchCase) :
    (Node.switchCase c).leaving = c.children.flatMap leaving := by
  rw [leaving_eq]
  rfl

@[simp] theorem leaving_catchClause (c : CatchClause) :
    (Node.catchClause c).leaving = c.children.flatMap leaving := by
  rw [leaving_eq]
  rfl

/-- Only an exported declaration could hold returns. -/
@[simp] theorem leaving_module (d : ModuleDecl) :
    (Node.module d).leaving = d.children.flatMap leaving := by
  rw [leaving_eq]
  rfl

end Node

/-! ## Going down into statements -/

/-- Going down only where statements can be finds all returns that leave a statement. -/
def Stmt.Direct (s : Stmt) : Prop := s.returns = (Node.stmt s).leaving

/-- Going down only where statements can be finds all returns that leave a block. -/
def Block.Direct (b : Block) : Prop := b.returns = (Node.block b).leaving

/-- Going down only where statements can be finds all returns that leave a clause of a `switch`. -/
def SwitchCase.Direct (c : SwitchCase) : Prop := casesReturns [c] = (Node.switchCase c).leaving

/-- Going down only where statements can be finds all returns that leave a `catch` clause. -/
def CatchClause.Direct (c : CatchClause) : Prop :=
  catchReturns (some c) = (Node.catchClause c).leaving

/-- Whether a statement holds no other statements, unless in functions and classes. -/
def Stmt.isSimple : Stmt → Bool
  | .varDecl _ | .function _ | .class _ | .expr .. | .return .. | .throw .. | .break ..
  | .continue .. | .debugger _ | .empty _ => true
  | _ => false

/-- Whether a statement is a declaration. -/
def Stmt.isDeclaration : Stmt → Bool
  | .varDecl _ | .function _ | .class _ => true
  | _ => false

/-- In statements that are direct, going down both ways finds the same. -/
theorem statementsReturns_eq {body : List Stmt} (h : ∀ s ∈ body, s.Direct) :
    statementsReturns body = (body.map .stmt).flatMap Node.leaving := by
  induction body with
  | nil => rfl
  | cons s body ih =>
    obtain ⟨hs, hbody⟩ := List.forall_mem_cons.1 h
    rw [statementsReturns, hs, ih hbody]
    rfl

/-- As `statementsReturns_eq`, for the clauses of a `switch`. -/
theorem casesReturns_eq {cases : List SwitchCase} (h : ∀ c ∈ cases, c.Direct) :
    casesReturns cases = (cases.map .switchCase).flatMap Node.leaving := by
  induction cases with
  | nil => rfl
  | cons c cases ih =>
    obtain ⟨hc, hcases⟩ := List.forall_mem_cons.1 h
    obtain ⟨loc, test, consequent⟩ := c
    rw [casesReturns, ih hcases, List.map_cons, List.flatMap_cons, ← hc]
    simp [casesReturns]

/-- As `statementsReturns_eq`, for what stands after `else`. -/
theorem elseReturns_eq {alternate : Option Stmt} (h : ∀ s ∈ alternate, s.Direct) :
    elseReturns alternate = (alternate.toList.map .stmt).flatMap Node.leaving := by
  cases alternate with
  | none => rfl
  | some s => exact (h s rfl).trans (List.append_nil _).symm

/-- As `statementsReturns_eq`, for a `catch` clause. -/
theorem catchReturns_eq {handler : Option CatchClause} (h : ∀ c ∈ handler, c.Direct) :
    catchReturns handler = (handler.toList.map .catchClause).flatMap Node.leaving := by
  cases handler with
  | none => rfl
  | some c => exact (h c rfl).trans (List.append_nil _).symm

/-- As `statementsReturns_eq`, for what stands after `finally`. -/
theorem finallyReturns_eq {finalizer : Option Block} (h : ∀ b ∈ finalizer, b.Direct) :
    finallyReturns finalizer = (finalizer.toList.map .block).flatMap Node.leaving := by
  cases finalizer with
  | none => rfl
  | some b => exact (h b rfl).trans (List.append_nil _).symm

/-- A block is direct if its statements are. -/
theorem Block.Direct.of_body {loc : Span} {body : List Stmt} (h : ∀ s ∈ body, s.Direct) :
    (Block.mk loc body).Direct := by
  rw [Block.Direct, Block.returns, statementsReturns_eq h, Node.leaving_block, Block.body]

/-- A clause of a `switch` is direct if its statements are; its test is an expression. -/
theorem SwitchCase.Direct.of_consequent {loc : Span} {test : Option Expr} {consequent : List Stmt}
    (h : ∀ s ∈ consequent, s.Direct) : (SwitchCase.mk loc test consequent).Direct := by
  simp [SwitchCase.Direct, casesReturns, statementsReturns_eq h, SwitchCase.children,
    List.flatMap_map]

/-- A `catch` clause is direct if its block is; its parameter is a pattern. -/
theorem CatchClause.Direct.of_body {loc : Span} {param : Option Pat} {body : Block}
    (h : body.Direct) : (CatchClause.mk loc param body).Direct := by
  rw [Block.Direct] at h
  simp [CatchClause.Direct, catchReturns, h, CatchClause.children, List.flatMap_map]

namespace Stmt

/-- A statement without statements in it is direct. -/
theorem direct_of_isSimple (s : Stmt) (h : s.isSimple) : s.Direct := by
  rw [Direct, Node.leaving_stmt]
  cases s <;> first | cases h; done | simp [returns, Node.ownReturn, children, List.flatMap_map]

/-- No return leaves a declaration. -/
theorem leaving_of_isDeclaration {s : Stmt} (h : s.isDeclaration) : (Node.stmt s).leaving = [] := by
  rw [Node.leaving_stmt]
  cases s <;> first | cases h; done | simp [Node.ownReturn, children]

namespace Direct

variable {loc : Span}

/-- A statement that is no return itself is left by the returns that leave its children. -/
theorem of_children {s : Stmt} (hown : (Node.stmt s).ownReturn = [])
    (h : s.returns = s.children.flatMap Node.leaving) : s.Direct := by
  rw [Direct, h, Node.leaving_stmt, hown, List.nil_append]

theorem block {b : Block} (h : b.Direct) : (Stmt.block b).Direct :=
  of_children rfl (h.trans (List.append_nil _).symm)

/-- Both branches are searched, and the test is an expression. -/
theorem «if» {test : Expr} {consequent : Stmt} {alternate : Option Stmt} (hc : consequent.Direct)
    (ha : ∀ s ∈ alternate, s.Direct) : (Stmt.if loc test consequent alternate).Direct := by
  refine of_children rfl ?_
  rw [returns, hc, elseReturns_eq ha]
  simp [children]

/-- A loop, or another statement with a body, is left by the returns that leave the body. -/
theorem of_body {s body : Stmt} (hown : (Node.stmt s).ownReturn = []) (h : body.Direct)
    (hreturns : s.returns = body.returns)
    (hchildren : s.children.flatMap Node.leaving = (Node.stmt body).leaving) : s.Direct :=
  of_children hown (hreturns.trans (h.trans hchildren.symm))

/-- The body is searched, and all else in a loop is expressions. -/
theorem «for» {init : Option ForInit} {test update : Option Expr} {body : Stmt} (h : body.Direct) :
    (Stmt.for loc init test update body).Direct :=
  of_body rfl h rfl (by cases init <;> cases test <;> cases update <;> simp [children])

/-- The body is searched; target and object are expressions. -/
theorem forIn {left : ForTarget} {right : Expr} {body : Stmt} (h : body.Direct) :
    (Stmt.forIn loc left right body).Direct :=
  of_body rfl h rfl (by simp [children])

/-- The body is searched; target and values are expressions. -/
theorem forOf {isAwait : Bool} {left : ForTarget} {right : Expr} {body : Stmt} (h : body.Direct) :
    (Stmt.forOf loc isAwait left right body).Direct :=
  of_body rfl h rfl (by simp [children])

/-- The body is searched, and the test is an expression. -/
theorem «while» {test : Expr} {body : Stmt} (h : body.Direct) :
    (Stmt.while loc test body).Direct :=
  of_body rfl h rfl (by simp [children])

/-- The body comes first, and the test is an expression. -/
theorem doWhile {test : Expr} {body : Stmt} (h : body.Direct) :
    (Stmt.doWhile loc body test).Direct :=
  of_body rfl h rfl (by simp [children])

theorem «with» {object : Expr} {body : Stmt} (h : body.Direct) :
    (Stmt.with loc object body).Direct :=
  of_body rfl h rfl (by simp [children])

/-- A label is no place for a return. -/
theorem labeled {label : Ident} {body : Stmt} (h : body.Direct) :
    (Stmt.labeled loc label body).Direct :=
  of_body rfl h rfl (by simp [children])

/-- The clauses are searched, and what decides between them is an expression. -/
theorem switch {discriminant : Expr} {cases : List SwitchCase} (h : ∀ c ∈ cases, c.Direct) :
    (Stmt.switch loc discriminant cases).Direct := by
  refine of_children rfl ?_
  rw [returns, casesReturns_eq h]
  simp [children]

/-- The block, the clause and the last block are searched in this order. -/
theorem «try» {body : Block} {handler : Option CatchClause} {finalizer : Option Block}
    (hb : body.Direct) (hh : ∀ c ∈ handler, c.Direct) (hf : ∀ b ∈ finalizer, b.Direct) :
    (Stmt.try loc body handler finalizer).Direct := by
  refine of_children rfl ?_
  rw [returns, hb, catchReturns_eq hh, finallyReturns_eq hf, children, List.flatMap_cons,
    List.flatMap_append, List.append_assoc]

/-- Imports and exports hold no returns if what they declare is left by none. -/
theorem module {d : ModuleDecl} (h : d.children.flatMap Node.leaving = []) :
    (Stmt.module d).Direct := by
  refine of_children rfl ?_
  rw [returns, children, List.flatMap_singleton, Node.leaving_module, h]

end Direct

end Stmt

/-! ## Where the returns stand -/

/-- A return as a construct of the program. -/
def Return.located (r : Return) : Located := .stmt (.return r.loc r.argument)

variable {source : List Char}

section

variable {lo hi : Nat} {n : Located} {ns : List Located}

/-- What the first construct of a row holds, and what the others hold after it. -/
theorem Row.cons_returns {first others : List Return} (h : Row source lo hi (n :: ns))
    (hfirst : ∀ hi, Row source lo hi [n] → Row source lo hi (first.map Return.located))
    (hothers : ∀ lo, Row source lo hi ns → Row source lo hi (others.map Return.located)) :
    Row source lo hi ((first ++ others).map Return.located) := by
  obtain ⟨hn, hns⟩ := h.of_cons
  rw [List.map_append]
  exact h.cons_of_replaced (hfirst _ hn) (hothers _ hns)

/-- One of the constructs in a row, by itself. -/
theorem Row.of_mem (h : Row source lo hi ns) (hn : n ∈ ns) : Row source lo hi [n] :=
  h.sublist (List.singleton_sublist.2 hn)

end

mutual

/-- The returns in a statement stand one after the other where the statement stands. -/
theorem Stmt.row_returns {lo hi : Nat} :
    ∀ s : Stmt, Row source lo hi [.stmt s] → Row source lo hi (s.returns.map Return.located)
  | .return _ _, h => h
  | .block b, h => b.row_returns h.inner
  | .if _ test consequent alternate, h => by
    have hrow : Row source lo hi (.stmt consequent :: alternate.toList.map .stmt) :=
      h.inner.sublist (List.sublist_cons_self ..)
    exact hrow.cons_returns (fun _ => consequent.row_returns) fun _ => row_elseReturns alternate
  | .for _ _ _ _ body, h | .forIn _ _ _ body, h | .forOf _ _ _ _ body, h | .while _ _ body, h
  | .doWhile _ body _, h | .labeled _ _ body, h | .with _ _ body, h =>
    body.row_returns (h.inner.of_mem (by simp [Located.children, Located.stmtChildren]))
  | .switch _ _ cases, h => row_casesReturns cases (h.inner.sublist (List.sublist_cons_self ..))
  | .try _ block handler finalizer, h => by
    rw [Stmt.returns, List.append_assoc]
    refine h.inner.cons_returns (fun _ => block.row_returns) fun lo h => ?_
    cases handler with
    | none => exact row_finallyReturns finalizer h
    | some c =>
      exact h.cons_returns (fun _ => c.row_returns) fun _ => row_finallyReturns finalizer
  | .varDecl _, _ | .function _, _ | .class _, _ | .expr .., _ | .throw .., _ | .break .., _
  | .continue .., _ | .debugger _, _ | .empty _, _ | .module _, _ => .nil lo hi

/-- The returns in statements stand as the statements do. -/
theorem row_statementsReturns {lo hi : Nat} :
    ∀ body : List Stmt, Row source lo hi (body.map .stmt) →
      Row source lo hi ((statementsReturns body).map Return.located)
  | [], _ => .nil lo hi
  | s :: body, h => h.cons_returns (fun _ => s.row_returns) fun _ => row_statementsReturns body

/-- The returns in a block stand inside of it. -/
theorem Block.row_returns {lo hi : Nat} :
    ∀ b : Block, Row source lo hi [.block b] → Row source lo hi (b.returns.map Return.located)
  | .mk _ body, h => row_statementsReturns body h.inner

/-- The returns after `else` stand inside of that statement. -/
theorem row_elseReturns {lo hi : Nat} :
    ∀ alternate : Option Stmt, Row source lo hi (alternate.toList.map .stmt) →
      Row source lo hi ((elseReturns alternate).map Return.located)
  | none, _ => .nil lo hi
  | some s, h => s.row_returns h

/-- The returns in the clauses of a `switch` stand as the clauses do. -/
theorem row_casesReturns {lo hi : Nat} :
    ∀ cases : List SwitchCase, Row source lo hi (cases.map .switchCase) →
      Row source lo hi ((casesReturns cases).map Return.located)
  | [], _ => .nil lo hi
  | .mk _ _ consequent :: cases, h =>
    h.cons_returns (fun _ h => row_statementsReturns consequent
      (h.inner.sublist (List.sublist_append_right ..))) fun _ => row_casesReturns cases

/-- The returns in a `catch` clause stand behind its parameter. -/
theorem CatchClause.row_returns {lo hi : Nat} :
    ∀ c : CatchClause, Row source lo hi [.catchClause c] →
      Row source lo hi ((catchReturns (some c)).map Return.located)
  | .mk _ _ body, h => body.row_returns (h.inner.of_mem (List.mem_append_right _
      (List.mem_singleton_self _)))

/-- The returns after `finally` stand inside of that block. -/
theorem row_finallyReturns {lo hi : Nat} :
    ∀ finalizer : Option Block, Row source lo hi (finalizer.toList.map .block) →
      Row source lo hi ((finallyReturns finalizer).map Return.located)
  | none, _ => .nil lo hi
  | some b, h => b.row_returns h

end

end WithScope
