import WithScope.Grammar.Program
import WithScope.Proofs.Grammar.LegalOperation

/-!
# Programs are read as legal trees

Statements, modules and programs. The grammar at the limit of nesting yields nothing at all, and a
level more around a grammar that yields legal trees yields legal trees, so the grammar of any depth
does: `Grammar.legal_nest`, and `legal_of_parse` for a whole text.
-/

namespace WithScope

open WithScope.Parser (Yields)

namespace Grammar.Legal

variable {g : Grammar} (h : g.Legal)
include h

/-! ## Imports and exports -/

/-- What is exported by default is a function, a class or an expression, each of them legal. -/
theorem defaultExport : g.defaultExport.Yields fun value => value.node.Legal := by
  refine .after fun start => .after fun _ => .ite ?_ (.after fun _ => .ite ?_ ?_)
  · exact .bind (h.function start false false) fun f hf => .pure hf
  · exact .after fun _ => .bind (h.function start true false) fun f hf => .pure hf
  · refine .after fun _ => .ite (.bind (h.classDefinition false) fun c hc => .pure hc) ?_
    exact .bind h.assignment fun e he => .after fun _ => .pure he.legal

omit h in
/-- Nothing is asked of names and sources. -/
theorem importDeclaration : Grammar.importDeclaration.Yields fun d => (Node.module d).Legal := by
  refine .after fun start => .after fun _ => .after fun _ => ?_
  refine .join (.trivial _) (.trivial _) fun specifiers _ => .after fun source => ?_
  exact .after fun attributes => .after fun _ => .after fun loc => .pure (.leaf trivial rfl)

omit h in
/-- Nothing is asked of names and sources. -/
theorem exportAll (start : Position) :
    (Grammar.exportAll start).Yields fun d => (Node.module d).Legal := by
  have hrest (exported : Option ModuleName) :
      (do Parser.expectName "from"
          let source ← Grammar.moduleSource
          let attributes ← Grammar.importAttributes
          Parser.semicolon
          return .exportAll (← Parser.spanFrom start) exported source attributes :
        Parser ModuleDecl).Yields fun d => (Node.module d).Legal :=
    .after fun _ => .after fun source => .after fun attributes => .after fun _ => .after fun loc =>
      .pure (.leaf trivial rfl)
  exact .after fun _ => .ite (.after fun _ => .after fun exported => hrest exported)
    (.after fun exported => hrest exported)

omit h in
/-- Nothing is asked of the entries of a list. -/
theorem exportList (start : Position) :
    (Grammar.exportList start).Yields fun d => (Node.module d).Legal := by
  refine .after fun specifiers => .after fun _ => .ite ?_ ?_
  · refine .after fun _ => .after fun source => .after fun attributes => ?_
    refine .after fun _ => .after fun loc => ?_
    exact .pure (.intro trivial (List.forall_mem_map.2 fun _ _ => Node.Legal.leaf trivial rfl))
  · exact .after fun _ => .after fun loc =>
      .pure (.intro trivial (List.forall_mem_map.2 fun _ _ => Node.Legal.leaf trivial rfl))

/-- An export is legal if what it exports is. -/
theorem exportDeclaration : g.exportDeclaration.Yields fun d => (Node.module d).Legal := by
  refine .after fun start => .after fun _ => .after fun _ => .ite ?_ ?_
  · refine .bind h.defaultExport fun value hvalue => .after fun loc => .pure (.intro trivial ?_)
    exact List.forall_mem_singleton.2 hvalue
  · refine .after fun _ => .ite (exportAll start) (.after fun _ => .ite (exportList start) ?_)
    refine .after fun _ => .ite ?_ .unexpected
    refine .bind (h.statement false) fun s hs => .after fun loc => .pure (.intro trivial ?_)
    exact List.forall_mem_singleton.2 hs

/-! ## Declarations and choices -/

/-- The pattern of a declarator declares names, and binds nothing else. -/
theorem declarator (kind : VarKind) :
    (g.declarator kind).Yields fun d => (Node.declarator kind d).Legal := by
  refine .after fun start => .bind h.bindingTarget fun p hp => ?_
  refine .after fun _ => .after fun _ => .join h.assignment.some .none fun value hvalue => ?_
  refine .after fun loc => .pure (.intro hp.isRest ?_)
  exact List.forall_mem_cons.2
    ⟨hp.legal, forall_mem_toList fun e he => (hvalue e he).legal⟩

/-- A declaration is legal if its declarators are. -/
theorem varDecl : g.varDecl.Yields fun d => (Node.varDecl d).Legal := by
  refine .after fun start => .after fun kind => .bind (h.declarator kind) fun first hfirst => ?_
  refine .bind (h.declarator kind).afterCommas fun others hothers => ?_
  refine .after fun loc => .pure (.intro trivial ?_)
  exact List.forall_mem_map.2 (List.forall_mem_cons.2 ⟨hfirst, hothers⟩)

/-- As `varDecl`, for a statement. -/
theorem varStatement (start : Position) :
    (g.varStatement start).Yields fun s => (Node.stmt s).Legal := by
  refine .bind h.varDecl fun ⟨_, kind, declarators⟩ hd => .after fun _ => .after fun loc =>
    .pure (.intro trivial (List.forall_mem_singleton.2 ?_))
  exact .intro trivial fun c hc => hd.of_mem_children hc

/-- An `if` is legal if its test and its branches are. -/
theorem ifStatement (start : Position) :
    (g.ifStatement start).Yields fun s => (Node.stmt s).Legal := by
  refine .after fun _ => .bind h.parenExpression fun test ht => ?_
  refine .bind (h.statement false) fun consequent hc => ?_
  refine .after fun _ => .join (h.statement false).some .none fun alternate ha => ?_
  refine .after fun loc => .pure (.intro trivial ?_)
  exact List.forall_mem_cons.2
    ⟨ht, List.forall_mem_cons.2 ⟨hc, forall_mem_toList ha⟩⟩

theorem caseTest : g.caseTest.Yields fun test => ∀ e ∈ test, (Node.expr e).Legal :=
  .after fun _ => .ite (.bind h.expression.allowIn fun _ he => .pureSome he)
    (.after fun _ => .none)

/-- A clause is legal if its test and its statements are. -/
theorem switchCase : g.switchCase.Yields fun c => (Node.switchCase c).Legal := by
  refine .after fun start => .bind h.caseTest fun test ht => ?_
  refine .after fun _ => .bind (.collectUntil (h.statement false)) fun consequent hc => ?_
  refine .after fun _ => .ite .unexpected (.after fun loc => .pure (.intro trivial ?_))
  exact List.forall_mem_append.2 ⟨forall_mem_toList ht, List.forall_mem_map.2 hc⟩

/-- A `switch` is legal if its clauses are. -/
theorem switchStatement (start : Position) :
    (g.switchStatement start).Yields fun s => (Node.stmt s).Legal := by
  refine .after fun _ => .bind h.parenExpression fun discriminant hd => ?_
  refine .after fun _ => .bind (.withContext (.collectUntil h.switchCase)) fun cases hc => ?_
  refine .after fun loc => .pure (.intro trivial ?_)
  refine List.forall_mem_cons.2 ⟨hd, List.forall_mem_singleton.2 ?_⟩
  exact .intro trivial (List.forall_mem_map.2 hc)

/-! ## Loops -/

/-- The body of a loop is legal as any statement is. -/
theorem loopBody : g.loopBody.Yields fun s => (Node.stmt s).Legal :=
  .withContext (h.statement false)

/-- A `while` loop is legal if its test and its body are. -/
theorem whileStatement (start : Position) :
    (g.whileStatement start).Yields fun s => (Node.stmt s).Legal := by
  refine .after fun _ => .bind h.parenExpression fun test ht => .bind h.loopBody fun body hb =>
    .after fun loc => .pure (.intro trivial ?_)
  exact List.forall_mem_cons.2 ⟨ht, List.forall_mem_singleton.2 hb⟩

/-- A `do` loop is legal if its test and its body are. -/
theorem doWhileStatement (start : Position) :
    (g.doWhileStatement start).Yields fun s => (Node.stmt s).Legal := by
  refine .after fun _ => .bind h.loopBody fun body hb => ?_
  refine .after fun _ => .bind h.parenExpression fun test ht => ?_
  refine .after fun _ => .after fun loc => ?_
  refine .pure (.intro trivial ?_)
  exact List.forall_mem_cons.2 ⟨hb, List.forall_mem_singleton.2 ht⟩

/-- What a loop begins with is legal by itself; as a target it may have to be read again. -/
theorem forInit : g.forInit.Yields fun init => init.node.Legal :=
  .after fun _ => .ite (.bind h.varDecl fun _ hd => .pure hd)
    (.bind h.expression fun _ he => .pure he)

/-- What is left out is not illegal. -/
theorem optionalExpression (mark : Punctuator) :
    (g.optionalExpression mark).Yields fun e => ∀ a ∈ e, (Node.expr a).Legal :=
  .after fun _ => .ite .none (.bind h.expression.allowIn fun _ he => .pureSome he)

/-- A loop with semicolons is legal if its parts are. -/
theorem forRest (start : Position) {init : Option ForInit} (hi : ∀ i ∈ init, i.node.Legal) :
    (g.forRest start init).Yields fun s => (Node.stmt s).Legal := by
  refine .after fun _ => .bind (h.optionalExpression _) fun test ht => ?_
  refine .after fun _ => .bind (h.optionalExpression _) fun update hu => ?_
  refine .after fun _ => .bind h.loopBody fun body hb => ?_
  refine .after fun loc => .pure (.intro trivial ?_)
  refine List.forall_mem_append.2 ⟨?_, List.forall_mem_singleton.2 hb⟩
  refine List.forall_mem_append.2 ⟨?_, forall_mem_toList hu⟩
  exact List.forall_mem_append.2 ⟨forall_mem_toList hi, forall_mem_toList ht⟩

omit h in
/-- What a loop over values assigns to is legal and no rest element. -/
theorem forTarget {init : ForInit} (hi : init.node.Legal) :
    (Grammar.forTarget init).Yields fun target =>
      target.node.Legal ∧ ∀ p, target = .pat p → p.isRest = false := by
  unfold Grammar.forTarget
  split
  · split
    · exact .pure ⟨hi, fun p hp => by cases hp⟩
    · exact .fail _ _
  · refine .bind (.ofExcept fun p hp => Expr.target_of_toPattern false _ hi hp) fun p hp => ?_
    refine .pure ⟨hp.legal, fun q hq => ?_⟩
    cases hq
    exact hp.isRest

/-- The target of a loop over values is legal: it is a declaration or comes of reading an expression
again. -/
theorem forOfRest (start : Position) (isAwait : Bool) {init : ForInit} (hi : init.node.Legal) :
    (g.forOfRest start isAwait init).Yields fun s => (Node.stmt s).Legal := by
  refine .bind (forTarget hi) fun target ht => ?_
  refine .after fun _ => .bind h.assignment.allowIn fun right hr => ?_
  refine .after fun _ => .bind h.loopBody fun body hb => ?_
  refine .after fun loc => .pure (.intro ?_ ?_)
  · cases target with
    | decl d => trivial
    | pat p => exact ht.2 p rfl
  · exact List.forall_mem_cons.2
      ⟨ht.1, List.forall_mem_cons.2 ⟨hr.legal, List.forall_mem_singleton.2 hb⟩⟩

/-- As `forOfRest`, for a loop over keys. -/
theorem forInRest (start : Position) {init : ForInit} (hi : init.node.Legal) :
    (g.forInRest start init).Yields fun s => (Node.stmt s).Legal := by
  refine .bind (forTarget hi) fun target ht => ?_
  refine .after fun _ => .bind h.expression.allowIn fun right hr => ?_
  refine .after fun _ => .bind h.loopBody fun body hb => ?_
  refine .after fun loc => .pure (.intro ?_ ?_)
  · cases target with
    | decl d => trivial
    | pat p => exact ht.2 p rfl
  · exact List.forall_mem_cons.2
      ⟨ht.1, List.forall_mem_cons.2 ⟨hr, List.forall_mem_singleton.2 hb⟩⟩

/-- All three sorts of loop are legal. -/
theorem forStatement (start : Position) :
    (g.forStatement start).Yields fun s => (Node.stmt s).Legal := by
  refine .after fun _ => .after fun isAwait => .after fun _ => .after fun _ => .ite ?_ ?_
  · exact h.forRest start fun i hi => by cases hi
  · refine .bind h.forInit.withContext fun init hi => .after fun _ => .ite ?_ ?_
    · exact h.forOfRest start isAwait hi
    · refine .after fun _ => .ite (h.forInRest start hi) (h.forRest start fun i heq => ?_)
      cases heq
      exact hi

/-! ## Jumps and other statements -/

/-- A `return` is legal if its argument is. -/
theorem returnStatement (start : Position) :
    (g.returnStatement start).Yields fun s => (Node.stmt s).Legal := by
  refine .after fun surrounding => .ite (.fail _ _) (.after fun _ => .after fun _ => ?_)
  refine .join .none h.expression.some fun argument ha => .after fun _ => .after fun loc => ?_
  exact .pure (.intro trivial (forall_mem_toList ha))

/-- A `throw` is legal if its argument is. -/
theorem throwStatement (start : Position) :
    (g.throwStatement start).Yields fun s => (Node.stmt s).Legal := by
  refine .after fun _ => .after fun _ => .ite (.after fun _ => .fail _ _) ?_
  refine .bind h.expression fun argument ha => .after fun _ => .after fun loc => ?_
  exact .pure (.intro trivial (List.forall_mem_singleton.2 ha))

omit h in
theorem jumpStatement (start : Position) (isBreak : Bool) :
    (Grammar.jumpStatement start isBreak).Yields fun s => (Node.stmt s).Legal := by
  refine .after fun _ => .after fun label => .after fun _ => ?_
  refine .after fun _ => .after fun loc => ?_
  refine .pure ?_
  cases isBreak <;> exact .leaf trivial rfl

/-- The parameter of a clause declares names, and binds nothing else. -/
theorem catchClause : g.catchClause.Yields fun c => ∀ a ∈ c, (Node.catchClause a).Legal := by
  have hbody (start : Position) {param : Option Pat} (hp : ∀ p ∈ param, p.Target .binding) :
      (do let body ← g.block
          return some (.mk (← Parser.spanFrom start) param body) : Parser (Option CatchClause)).Yields
        fun c => ∀ a ∈ c, (Node.catchClause a).Legal := by
    refine .bind h.block fun body hb => .after fun loc => .pureSome (.intro ?_ ?_)
    · exact fun p hmem => (hp p hmem).isRest
    · exact List.forall_mem_append.2
        ⟨forall_mem_toList fun p hmem => (hp p hmem).legal, List.forall_mem_singleton.2 hb⟩
  refine .after fun start => .after fun _ => .ite (.after fun _ => .ite ?_ ?_) .none
  · exact .bind h.bindingTarget fun p hp => .after fun _ =>
      .bind (.pureSome hp) fun param hparam => hbody start hparam
  · exact .bind .none fun param hparam => hbody start hparam

/-- A `try` is legal if its blocks are and its clause is. -/
theorem tryStatement (start : Position) :
    (g.tryStatement start).Yields fun s => (Node.stmt s).Legal := by
  refine .after fun _ => .bind h.block fun body hb => ?_
  refine .bind h.catchClause fun handler hh => ?_
  refine .after fun _ => .join h.block.some .none fun finalizer hf => ?_
  refine .ite (.after fun _ => .fail _ _) (.after fun loc => .pure (.intro trivial ?_))
  refine List.forall_mem_cons.2 ⟨hb, List.forall_mem_append.2 ⟨?_, ?_⟩⟩
  · exact forall_mem_toList hh
  · exact forall_mem_toList hf

/-- A `with` statement is legal if its object and its body are. -/
theorem withStatement (start : Position) :
    (g.withStatement start).Yields fun s => (Node.stmt s).Legal := by
  refine .after fun _ => .bind h.parenExpression fun object ho =>
    .bind (h.statement false) fun body hb => .after fun loc => .pure (.intro trivial ?_)
  exact List.forall_mem_cons.2 ⟨ho, List.forall_mem_singleton.2 hb⟩

/-- A label adds nothing to its statement. -/
theorem labeledStatement (start : Position) :
    (g.labeledStatement start).Yields fun s => (Node.stmt s).Legal := by
  refine .after fun label => .after fun surrounding => .ite (.fail _ _) (.after fun _ => ?_)
  refine .bind (h.statement false).withLabel fun body hb => .after fun loc => ?_
  exact .pure (.intro trivial (List.forall_mem_singleton.2 hb))

/-- An expression is legal as a statement. -/
theorem expressionStatement (start : Position) :
    (g.expressionStatement start).Yields fun s => (Node.stmt s).Legal := by
  refine .bind h.expression fun e he => .after fun _ => .after fun loc => ?_
  exact .pure (.intro trivial (List.forall_mem_singleton.2 he))

/-! ## All of them -/

/-- A function as a statement. -/
theorem functionStatement (start : Position) (isAsync : Bool) :
    (do return .function (← g.function start isAsync true) : Parser Stmt).Yields
      fun s => (Node.stmt s).Legal :=
  .bind (h.function start isAsync true) fun _ hf =>
    .pure (.intro trivial (List.forall_mem_singleton.2 hf))

/-- What an identifier begins is legal. -/
theorem statementAtName (start : Position) :
    (g.statementAtName start).Yields fun s => (Node.stmt s).Legal := by
  refine .after fun _ => .ite (h.varStatement start) (.after fun _ => .ite ?_ ?_)
  · exact .after fun _ => h.functionStatement start true
  · exact .after fun _ => .ite (h.labeledStatement start) (h.expressionStatement start)

/-- An import is legal, and so is an expression that begins with that word. -/
theorem statementAtImport (start : Position) (isTopLevel : Bool) :
    (g.statementAtImport start isTopLevel).Yields fun s => (Node.stmt s).Legal := by
  refine .after fun next => ?_
  split
  · exact h.expressionStatement start
  · exact h.expressionStatement start
  · refine .after fun _ => .bind importDeclaration fun d hd => .pure ?_
    exact .intro trivial (List.forall_mem_singleton.2 hd)

/-- By the word, one statement each. -/
theorem statementAtWord (start : Position) (isTopLevel : Bool) (word : Keyword) :
    (g.statementAtWord start isTopLevel word).Yields fun s => (Node.stmt s).Legal := by
  unfold Grammar.statementAtWord
  split
  case h_1 | h_2 => exact h.varStatement start
  case h_3 => exact h.functionStatement start false
  case h_4 =>
    refine .bind (h.classDefinition true) fun c hc => .pure ?_
    exact .intro trivial (List.forall_mem_singleton.2 hc)
  case h_5 => exact h.ifStatement start
  case h_6 => exact h.forStatement start
  case h_7 => exact h.whileStatement start
  case h_8 => exact h.doWhileStatement start
  case h_9 => exact h.switchStatement start
  case h_10 => exact h.tryStatement start
  case h_11 => exact h.returnStatement start
  case h_12 => exact h.throwStatement start
  case h_13 => exact jumpStatement start true
  case h_14 => exact jumpStatement start false
  case h_15 =>
    exact .after fun _ => .after fun _ => .after fun loc => .pure (.leaf trivial rfl)
  case h_16 => exact h.withStatement start
  case h_17 => exact h.statementAtImport start isTopLevel
  case h_18 =>
    refine .after fun _ => .bind h.exportDeclaration fun d hd => .pure ?_
    exact .intro trivial (List.forall_mem_singleton.2 hd)
  case h_19 => exact h.expressionStatement start

/-- A statement that is read is legal, whatever it begins with. -/
theorem statementBody (isTopLevel : Bool) :
    (g.statementBody isTopLevel).Yields fun s => (Node.stmt s).Legal := by
  refine .after fun start => .after fun kind => ?_
  split
  · exact .bind h.block fun b hb => .pure (.intro trivial (List.forall_mem_singleton.2 hb))
  · exact .after fun t => .pure (.leaf trivial rfl)
  · exact h.statementAtName start
  · exact h.statementAtWord start isTopLevel _
  · exact h.expressionStatement start

end Grammar.Legal

/-! ## The grammar of all levels -/

/-- At the limit of nesting nothing is read. -/
theorem Grammar.legal_limit : Grammar.limit.Legal where
  statement _ := .after fun _ => .fail _ _
  assignment := .after fun _ => .fail _ _
  operation _ := .after fun _ => .fail _ _
  unary := .after fun _ => .fail _ _
  leftHandSide := .after fun _ => .fail _ _
  newExpr := .after fun _ => .fail _ _
  arrayPattern := .after fun _ => .fail _ _
  objectPattern := .after fun _ => .fail _ _

/-- A level more around a grammar that yields legal trees yields legal trees. -/
theorem Grammar.Legal.deeper {g : Grammar} (h : g.Legal) : g.deeper.Legal where
  statement := h.statementBody
  assignment := h.assignmentBody
  operation := h.operationBody
  unary := h.unaryBody
  leftHandSide := h.leftHandSideBody
  newExpr := h.newBody
  arrayPattern := h.arrayPatternBody
  objectPattern := h.objectPatternBody

/-- The grammar of any depth yields legal trees. -/
theorem Grammar.legal_nest (n : Nat) : (Grammar.nest n).Legal := by
  induction n with
  | zero => exact legal_limit
  | succ n ih => exact ih.deeper

/-- The statements of a program are legal. -/
theorem Grammar.Legal.program {g : Grammar} (h : g.Legal) :
    g.program.Yields fun p => ∀ s ∈ p.body, (Node.stmt s).Legal :=
  .after fun _ => .bind (.collectUntil (h.statement true)) fun _ hbody => .after fun _ =>
    .after fun _ => .pure hbody

/-- The program that a text spells is legal. -/
theorem legal_of_parse {options : Options} {source : List Char} {p : Program}
    (h : parse options source = .ok p) : ∀ s ∈ p.body, (Node.stmt s).Legal :=
  Parser.YieldsIn.of_parse ((Grammar.legal_nest Grammar.maxNesting).program _) h

end WithScope
