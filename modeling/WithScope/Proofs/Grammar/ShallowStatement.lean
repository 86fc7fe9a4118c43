import WithScope.Proofs.Grammar.ShallowOperation

/-!
# Programs are read as shallow trees

Statements add three levels at most, so a level more of the grammar adds no more than the eight of an
assignment. At the limit of nesting nothing is read: the tree of any text is at most eight times as
deep as the limit says (`shallow_of_parse`), however long the text is, if the chains that the parser
reads in loops are left out of account. The chains themselves have no limit.
-/

namespace WithScope

open WithScope.Parser (Yields)

namespace Grammar.Shallow

variable {g : Grammar} {k : Nat} (h : g.Shallow k)
include h

/-! ## Imports and exports -/

/-- Of what is exported by default, functions and classes are the deepest. -/
theorem defaultExport : g.defaultExport.Yields fun value => value.node.Shallow (k + 2) := by
  refine .after fun start => .after fun _ => .ite ?_ (.after fun _ => .ite ?_ ?_)
  · exact .bind (h.function start false false) fun f hf => .pure hf
  · exact .after fun _ => .bind (h.function start true false) fun f hf => .pure hf
  · refine .after fun _ => .ite (.bind (h.classDefinition false) fun c hc => .pure hc) ?_
    exact .bind h.assignment fun e he => .after fun _ =>
      .pure (he.weaken (Nat.le_add_right k 2))

omit h in
/-- There is nothing inside of an import that would be deep. -/
theorem importDeclaration (k : Nat) :
    Grammar.importDeclaration.Yields fun d => (Node.module d).Shallow k := by
  refine .after fun start => .after fun _ => .after fun _ => ?_
  refine .join (.trivial _) (.trivial _) fun specifiers _ => .after fun source => ?_
  exact .after fun attributes => .after fun _ => .after fun loc =>
    .pure (.part rfl rfl (List.forall_mem_nil _))

omit h in
/-- There is nothing inside of an export of everything that would be deep. -/
theorem exportAll (start : Position) :
    (Grammar.exportAll start).Yields fun d => (Node.module d).Shallow k := by
  have hrest (exported : Option ModuleName) :
      (do Parser.expectName "from"
          let source ← Grammar.moduleSource
          let attributes ← Grammar.importAttributes
          Parser.semicolon
          return .exportAll (← Parser.spanFrom start) exported source attributes :
        Parser ModuleDecl).Yields fun d => (Node.module d).Shallow k :=
    .after fun _ => .after fun source => .after fun attributes => .after fun _ => .after fun loc =>
      .pure (.part rfl rfl (List.forall_mem_nil _))
  exact .after fun _ => .ite (.after fun _ => .after fun exported => hrest exported)
    (.after fun exported => hrest exported)

omit h in
/-- The entries of a list hold names alone. -/
theorem exportList (start : Position) :
    (Grammar.exportList start).Yields fun d => (Node.module d).Shallow k := by
  have hname (ofOther : Bool) (s : ExportSpecifier) : (Node.exportSpecifier ofOther s).Shallow k :=
    .part rfl rfl (List.forall_mem_nil _)
  refine .after fun specifiers => .after fun _ => .ite ?_ ?_
  · refine .after fun _ => .after fun source => .after fun attributes => ?_
    refine .after fun _ => .after fun loc => ?_
    exact .pure (.part rfl rfl (List.forall_mem_map.2 fun s _ => hname _ s))
  · exact .after fun _ => .after fun loc => .pure (.part rfl rfl (List.forall_mem_map.2 fun s _ => hname _ s))

/-- An exported declaration is a statement of the level inside. -/
theorem exportDeclaration :
    g.exportDeclaration.Yields fun d => (Node.module d).Shallow (k + 2) := by
  refine .after fun start => .after fun _ => .after fun _ => .ite ?_ ?_
  · refine .bind h.defaultExport fun value hvalue => .after fun loc => .pure ?_
    exact .part rfl rfl (List.forall_mem_singleton.2 hvalue)
  · refine .after fun _ => .ite (exportAll start) (.after fun _ => .ite (exportList start) ?_)
    refine .after fun _ => .ite ?_ .unexpected
    refine .bind (h.statement false) fun s hs => .after fun loc => .pure (.part rfl rfl ?_)
    exact List.forall_mem_singleton.2 (hs.weaken (Nat.le_add_right k 2))

/-! ## Declarations and choices -/

/-- A declarator is as deep as its pattern or its value. -/
theorem declarator (kind : VarKind) :
    (g.declarator kind).Yields fun d => (Node.declarator kind d).Shallow (k + 1) := by
  refine .after fun start => .bind h.bindingTarget fun p hp => ?_
  refine .after fun _ => .after fun _ => .join h.assignment.some .none fun value hvalue => ?_
  refine .after fun loc => ?_
  refine .pure (.part rfl rfl (List.forall_mem_cons.2 ⟨hp, forall_mem_toList fun e he => ?_⟩))
  exact (hvalue e he).weaken (Nat.le_succ k)

/-- A declaration is no level of its own; as a statement it is. -/
theorem varDecl : g.varDecl.Yields fun d => (Node.varDecl d).Shallow (k + 1) := by
  refine .after fun start => .after fun kind => .bind (h.declarator kind) fun first hfirst => ?_
  refine .bind (h.declarator kind).afterCommas fun others hothers => ?_
  refine .after fun loc => .pure (.part rfl rfl ?_)
  exact List.forall_mem_map.2 (List.forall_mem_cons.2 ⟨hfirst, hothers⟩)

/-- A declaration as a statement is one level above its declarators. -/
theorem varStatement (start : Position) :
    (g.varStatement start).Yields fun s => (Node.stmt s).Shallow (k + 2) := by
  refine .bind h.varDecl fun ⟨_, kind, declarators⟩ hd => .after fun _ => .after fun loc =>
    .pure (.succ rfl rfl (List.forall_mem_singleton.2 ?_))
  exact .part rfl rfl (hd.of_mem_children rfl rfl)

/-- An `if` is one level above its test, which may be a sequence. -/
theorem ifStatement (start : Position) :
    (g.ifStatement start).Yields fun s => (Node.stmt s).Shallow (k + 2) := by
  have hbranch := (h.statement false).mono fun s hs => hs.weaken (Nat.le_succ k)
  refine .after fun _ => .bind h.parenExpression fun test ht => ?_
  refine .bind hbranch fun consequent hc => ?_
  refine .after fun _ => .join hbranch.some .none fun alternate ha => ?_
  refine .after fun loc => .pure (.succ rfl rfl ?_)
  exact List.forall_mem_cons.2 ⟨ht, List.forall_mem_cons.2 ⟨hc, forall_mem_toList ha⟩⟩

/-- The test of a clause may be a sequence. -/
theorem caseTest : g.caseTest.Yields fun test => ∀ e ∈ test, (Node.expr e).Shallow (k + 1) :=
  .after fun _ => .ite (.bind h.expression.allowIn fun _ he => .pureSome he)
    (.after fun _ => .none)

/-- A clause is no level of its own. -/
theorem switchCase : g.switchCase.Yields fun c => (Node.switchCase c).Shallow (k + 1) := by
  have hstatement := (h.statement false).mono fun s hs => hs.weaken (Nat.le_succ k)
  refine .after fun start => .bind h.caseTest fun test ht => ?_
  refine .after fun _ => .bind hstatement.collectUntil fun consequent hc => ?_
  refine .after fun _ => .ite .unexpected (.after fun loc => .pure (.part rfl rfl ?_))
  exact List.forall_mem_append.2 ⟨forall_mem_toList ht, List.forall_mem_map.2 hc⟩

/-- A `switch` is one level above its clauses. -/
theorem switchStatement (start : Position) :
    (g.switchStatement start).Yields fun s => (Node.stmt s).Shallow (k + 2) := by
  refine .after fun _ => .bind h.parenExpression fun discriminant hd => ?_
  refine .after fun _ => .bind (.withContext h.switchCase.collectUntil) fun cases hc => ?_
  refine .after fun loc => ?_
  refine .pure (.succ rfl rfl (List.forall_mem_cons.2 ⟨hd, List.forall_mem_singleton.2 ?_⟩))
  exact .part rfl rfl (List.forall_mem_map.2 hc)

/-! ## Loops -/

/-- The body of a loop is a statement of the level inside. -/
theorem loopBody : g.loopBody.Yields fun s => (Node.stmt s).Shallow k :=
  .withContext (h.statement false)

/-- A `while` loop is one level above its test and its body. -/
theorem whileStatement (start : Position) :
    (g.whileStatement start).Yields fun s => (Node.stmt s).Shallow (k + 2) := by
  refine .after fun _ => .bind h.parenExpression fun test ht => .bind h.loopBody fun body hb =>
    .after fun loc => .pure (.succ rfl rfl (List.forall_mem_cons.2 ⟨ht, ?_⟩))
  exact List.forall_mem_singleton.2 (hb.weaken (Nat.le_succ k))

/-- A `do` loop is one level above its test and its body. -/
theorem doWhileStatement (start : Position) :
    (g.doWhileStatement start).Yields fun s => (Node.stmt s).Shallow (k + 2) := by
  refine .after fun _ => .bind h.loopBody fun body hb => ?_
  refine .after fun _ => .bind h.parenExpression fun test ht => ?_
  refine .after fun _ => .after fun loc => ?_
  refine .pure (.succ rfl rfl (List.forall_mem_cons.2 ⟨?_, List.forall_mem_singleton.2 ht⟩))
  exact hb.weaken (Nat.le_succ k)

/-- A loop begins with a declaration or a sequence. -/
theorem forInit : g.forInit.Yields fun init => init.node.Shallow (k + 1) :=
  .after fun _ => .ite (.bind h.varDecl fun _ hd => .pure hd)
    (.bind h.expression fun _ he => .pure he)

/-- What is left out has no depth. -/
theorem optionalExpression (mark : Punctuator) :
    (g.optionalExpression mark).Yields fun e => ∀ a ∈ e, (Node.expr a).Shallow (k + 1) :=
  .after fun _ => .ite .none (.bind h.expression.allowIn fun _ he => .pureSome he)

/-- A loop with semicolons is one level above its parts. -/
theorem forRest (start : Position) {init : Option ForInit}
    (hi : ∀ i ∈ init, i.node.Shallow (k + 1)) :
    (g.forRest start init).Yields fun s => (Node.stmt s).Shallow (k + 2) := by
  refine .after fun _ => .bind (h.optionalExpression _) fun test ht => ?_
  refine .after fun _ => .bind (h.optionalExpression _) fun update hu => ?_
  refine .after fun _ => .bind h.loopBody fun body hb => ?_
  refine .after fun loc => .pure (.succ rfl rfl ?_)
  have hbody := hb.weaken (Nat.le_succ k)
  refine List.forall_mem_append.2 ⟨?_, List.forall_mem_singleton.2 hbody⟩
  refine List.forall_mem_append.2 ⟨?_, forall_mem_toList hu⟩
  exact List.forall_mem_append.2 ⟨forall_mem_toList hi, forall_mem_toList ht⟩

omit h in
/-- What a loop over values assigns to is deeper than the head of the loop by one at most. -/
theorem forTarget {init : ForInit} (hi : init.node.Shallow k) :
    (Grammar.forTarget init).Yields fun target => target.node.Shallow (k + 1) := by
  unfold Grammar.forTarget
  split
  · split
    · exact .pure (hi.weaken (Nat.le_succ k))
    · exact .fail _ _
  · exact .bind (.ofExcept fun p hp => Expr.shallow_toPattern false .assignment _ hi hp)
      fun p hp => .pure hp

/-- An expression that is read again as a target gains one level. -/
theorem forOfRest (start : Position) (isAwait : Bool) {init : ForInit}
    (hi : init.node.Shallow (k + 1)) :
    (g.forOfRest start isAwait init).Yields fun s => (Node.stmt s).Shallow (k + 3) := by
  refine .bind (forTarget hi) fun target ht => ?_
  refine .after fun _ => .bind h.assignment.allowIn fun right hr => ?_
  refine .after fun _ => .bind h.loopBody fun body hb => ?_
  refine .after fun loc => .pure (.succ rfl rfl (List.forall_mem_cons.2 ⟨ht, ?_⟩))
  have hbody := hb.weaken (Nat.le_add_right k 2)
  exact List.forall_mem_cons.2
    ⟨hr.weaken (Nat.le_add_right k 2), List.forall_mem_singleton.2 hbody⟩

/-- As `forOfRest`, for a loop over keys. -/
theorem forInRest (start : Position) {init : ForInit} (hi : init.node.Shallow (k + 1)) :
    (g.forInRest start init).Yields fun s => (Node.stmt s).Shallow (k + 3) := by
  refine .bind (forTarget hi) fun target ht => ?_
  refine .after fun _ => .bind h.expression.allowIn fun right hr => ?_
  refine .after fun _ => .bind h.loopBody fun body hb => ?_
  refine .after fun loc => .pure (.succ rfl rfl (List.forall_mem_cons.2 ⟨ht, ?_⟩))
  have hbody := hb.weaken (Nat.le_add_right k 2)
  exact List.forall_mem_cons.2
    ⟨hr.weaken (Nat.le_succ _), List.forall_mem_singleton.2 hbody⟩

/-- Of the three sorts of loops those with a target are the deepest. -/
theorem forStatement (start : Position) :
    (g.forStatement start).Yields fun s => (Node.stmt s).Shallow (k + 3) := by
  have hrest {init : Option ForInit} (hi : ∀ i ∈ init, i.node.Shallow (k + 1)) :=
    (h.forRest start hi).mono fun s hs => hs.weaken (Nat.le_succ _)
  refine .after fun _ => .after fun isAwait => .after fun _ => .after fun _ => .ite ?_ ?_
  · exact hrest fun i hi => by cases hi
  · refine .bind h.forInit.withContext fun init hi => .after fun _ => .ite ?_ ?_
    · exact h.forOfRest start isAwait hi
    · refine .after fun _ => .ite (h.forInRest start hi) (hrest fun i heq => ?_)
      cases heq
      exact hi

/-! ## Jumps and other statements -/

/-- A `return` is one level above its argument. -/
theorem returnStatement (start : Position) :
    (g.returnStatement start).Yields fun s => (Node.stmt s).Shallow (k + 2) := by
  refine .after fun surrounding => .ite (.fail _ _) (.after fun _ => .after fun _ => ?_)
  refine .join .none h.expression.some fun argument ha => .after fun _ => .after fun loc => ?_
  exact .pure (.succ rfl rfl (forall_mem_toList ha))

/-- A `throw` is one level above its argument. -/
theorem throwStatement (start : Position) :
    (g.throwStatement start).Yields fun s => (Node.stmt s).Shallow (k + 2) := by
  refine .after fun _ => .after fun _ => .ite (.after fun _ => .fail _ _) ?_
  refine .bind h.expression fun argument ha => .after fun _ => .after fun loc => ?_
  exact .pure (.succ rfl rfl (List.forall_mem_singleton.2 ha))

omit h in
/-- A jump is one level by itself. -/
theorem jumpStatement (start : Position) (isBreak : Bool) :
    (Grammar.jumpStatement start isBreak).Yields fun s => (Node.stmt s).Shallow (k + 1) := by
  refine .after fun _ => .after fun label => .after fun _ => ?_
  refine .after fun _ => .after fun loc => ?_
  refine .pure ?_
  cases isBreak <;> exact .leaf rfl rfl rfl

/-- A clause is no level above its parameter and its block. -/
theorem catchClause :
    g.catchClause.Yields fun c => ∀ a ∈ c, (Node.catchClause a).Shallow (k + 1) := by
  have hbody (start : Position) {param : Option Pat}
      (hp : ∀ p ∈ param, (Node.pat .binding p).Shallow (k + 1)) :
      (do let body ← g.block
          return some (.mk (← Parser.spanFrom start) param body) :
        Parser (Option CatchClause)).Yields fun c =>
          ∀ a ∈ c, (Node.catchClause a).Shallow (k + 1) := by
    refine .bind h.block fun body hb => .after fun loc => .pureSome (.part rfl rfl ?_)
    refine List.forall_mem_append.2 ⟨forall_mem_toList hp, List.forall_mem_singleton.2 ?_⟩
    exact hb.weaken (Nat.le_succ k)
  refine .after fun start => .after fun _ => .ite (.after fun _ => .ite ?_ ?_) .none
  · exact .bind h.bindingTarget fun p hp => .after fun _ =>
      .bind (.pureSome hp) fun param hparam => hbody start hparam
  · exact .bind .none fun param hparam => hbody start hparam

/-- A `try` is one level above its blocks. -/
theorem tryStatement (start : Position) :
    (g.tryStatement start).Yields fun s => (Node.stmt s).Shallow (k + 2) := by
  have hblock := h.block.mono fun b hb => hb.weaken (Nat.le_succ k)
  refine .after fun _ => .bind hblock fun body hb => ?_
  refine .bind h.catchClause fun handler hh => ?_
  refine .after fun _ => .join hblock.some .none fun finalizer hf => ?_
  refine .ite (.after fun _ => .fail _ _) (.after fun loc => .pure (.succ rfl rfl
    (List.forall_mem_cons.2 ⟨hb, ?_⟩)))
  exact List.forall_mem_append.2 ⟨forall_mem_toList hh, forall_mem_toList hf⟩

/-- A `with` statement is one level above its object and its body. -/
theorem withStatement (start : Position) :
    (g.withStatement start).Yields fun s => (Node.stmt s).Shallow (k + 2) := by
  refine .after fun _ => .bind h.parenExpression fun object ho => ?_
  refine .bind (h.statement false) fun body hb => ?_
  refine .after fun loc => ?_
  refine .pure (.succ rfl rfl (List.forall_mem_cons.2 ⟨ho, List.forall_mem_singleton.2 ?_⟩))
  exact hb.weaken (Nat.le_succ k)

/-- A label makes one level more. -/
theorem labeledStatement (start : Position) :
    (g.labeledStatement start).Yields fun s => (Node.stmt s).Shallow (k + 1) := by
  refine .after fun label => .after fun surrounding => .ite (.fail _ _) (.after fun _ => ?_)
  refine .bind (h.statement false).withLabel fun body hb => .after fun loc => ?_
  exact .pure (.succ rfl rfl (List.forall_mem_singleton.2 hb))

/-- A statement is one level above its expression. -/
theorem expressionStatement (start : Position) :
    (g.expressionStatement start).Yields fun s => (Node.stmt s).Shallow (k + 2) := by
  refine .bind h.expression fun e he => .after fun _ => .after fun loc => ?_
  exact .pure (.succ rfl rfl (List.forall_mem_singleton.2 he))

/-! ## All of them -/

/-- A function as a statement. -/
theorem functionStatement (start : Position) (isAsync : Bool) :
    (do return .function (← g.function start isAsync true) : Parser Stmt).Yields
      fun s => (Node.stmt s).Shallow (k + 3) :=
  .bind (h.function start isAsync true) fun _ hf =>
    .pure (.succ rfl rfl (List.forall_mem_singleton.2 hf))

/-- What an identifier begins is at most a function or a sequence deep. -/
theorem statementAtName (start : Position) :
    (g.statementAtName start).Yields fun s => (Node.stmt s).Shallow (k + 3) := by
  have hvar := (h.varStatement start).mono fun s hs => hs.weaken (Nat.le_succ _)
  have hlabeled := (h.labeledStatement start).mono fun s hs => hs.weaken (Nat.le_add_right _ 2)
  have hexpression := (h.expressionStatement start).mono fun s hs => hs.weaken (Nat.le_succ _)
  refine .after fun _ => .ite hvar (.after fun _ => .ite ?_ ?_)
  · exact .after fun _ => h.functionStatement start true
  · exact .after fun _ => .ite hlabeled hexpression

/-- An import, or an expression that begins with that word. -/
theorem statementAtImport (start : Position) (isTopLevel : Bool) :
    (g.statementAtImport start isTopLevel).Yields fun s => (Node.stmt s).Shallow (k + 2) := by
  refine .after fun next => ?_
  split
  · exact h.expressionStatement start
  · exact h.expressionStatement start
  · refine .after fun _ => .bind (importDeclaration (k + 1)) fun d hd => .pure ?_
    exact .succ rfl rfl (List.forall_mem_singleton.2 hd)

/-- No statement adds more than three levels. -/
theorem statementAtWord (start : Position) (isTopLevel : Bool) (word : Keyword) :
    (g.statementAtWord start isTopLevel word).Yields fun s =>
      (Node.stmt s).Shallow (k + 3) := by
  have weaken {p : Parser Stmt} (hp : p.Yields fun s => (Node.stmt s).Shallow (k + 2)) :=
    hp.mono fun s hs => hs.weaken (Nat.le_succ _)
  unfold Grammar.statementAtWord
  split
  case h_1 | h_2 => exact weaken (h.varStatement start)
  case h_3 => exact h.functionStatement start false
  case h_4 =>
    refine .bind (h.classDefinition true) fun c hc => .pure ?_
    exact .succ rfl rfl (List.forall_mem_singleton.2 hc)
  case h_5 => exact weaken (h.ifStatement start)
  case h_6 => exact h.forStatement start
  case h_7 => exact weaken (h.whileStatement start)
  case h_8 => exact weaken (h.doWhileStatement start)
  case h_9 => exact weaken (h.switchStatement start)
  case h_10 => exact weaken (h.tryStatement start)
  case h_11 => exact weaken (h.returnStatement start)
  case h_12 => exact weaken (h.throwStatement start)
  case h_13 => exact weaken (jumpStatement start true)
  case h_14 => exact weaken (jumpStatement start false)
  case h_15 =>
    exact .after fun _ => .after fun _ => .after fun loc => .pure (.leaf rfl rfl rfl)
  case h_16 => exact weaken (h.withStatement start)
  case h_17 => exact weaken (h.statementAtImport start isTopLevel)
  case h_18 =>
    refine .after fun _ => .bind h.exportDeclaration fun d hd => .pure ?_
    exact .succ rfl rfl (List.forall_mem_singleton.2 hd)
  case h_19 => exact weaken (h.expressionStatement start)

/-- Blocks and all other statements add three levels at most. -/
theorem statementBody (isTopLevel : Bool) :
    (g.statementBody isTopLevel).Yields fun s => (Node.stmt s).Shallow (k + 3) := by
  refine .after fun start => .after fun kind => ?_
  split
  · refine .bind h.block fun b hb => .pure (.succ rfl rfl (List.forall_mem_singleton.2 ?_))
    exact hb.weaken (Nat.le_add_right k 2)
  · exact .after fun t => .pure (.leaf rfl rfl rfl)
  · exact h.statementAtName start
  · exact h.statementAtWord start isTopLevel _
  · exact (h.expressionStatement start).mono fun s hs => hs.weaken (Nat.le_succ _)

end Grammar.Shallow

/-! ## The grammar of all levels -/

/-- At the limit of nesting nothing is read. -/
theorem Grammar.shallow_limit : Grammar.limit.Shallow 0 where
  statement _ := .after fun _ => .fail _ _
  assignment := .after fun _ => .fail _ _
  operation _ := .after fun _ => .fail _ _
  unary := .after fun _ => .fail _ _
  leftHandSide := .after fun _ => .fail _ _
  newExpr := .after fun _ => .fail _ _
  arrayPattern := .after fun _ => .fail _ _
  objectPattern := .after fun _ => .fail _ _

/-- A level more adds eight levels to the trees at most. -/
theorem Grammar.Shallow.deeper {g : Grammar} {k : Nat} (h : g.Shallow k) :
    g.deeper.Shallow (k + 8) where
  statement isTopLevel := (h.statementBody isTopLevel).mono fun _ hs =>
    hs.weaken (Nat.le_add_right _ 5)
  assignment := h.assignmentBody
  operation floor := (h.operationBody floor).mono fun _ he => he.weaken (Nat.le_add_right _ 3)
  unary := h.unaryBody.mono fun _ he => he.weaken (Nat.le_add_right _ 3)
  leftHandSide := h.leftHandSideBody.mono fun _ he => he.weaken (Nat.le_add_right _ 4)
  newExpr := h.newBody.mono fun _ he => he.weaken (Nat.le_add_right _ 4)
  arrayPattern := h.arrayPatternBody.mono fun _ hp => hp.weaken (Nat.le_add_right _ 5)
  objectPattern := h.objectPatternBody.mono fun _ hp => hp.weaken (Nat.le_add_right _ 5)

/-- The grammar of any depth yields trees at most eight times as deep. -/
theorem Grammar.shallow_nest (n : Nat) : (Grammar.nest n).Shallow (8 * n) := by
  induction n with
  | zero => exact shallow_limit
  | succ n ih => exact ih.deeper

/-- The statements of a program are as deep as the grammar allows. -/
theorem Grammar.Shallow.program {g : Grammar} {k : Nat} (h : g.Shallow k) :
    g.program.Yields fun p => ∀ s ∈ p.body, (Node.stmt s).Shallow k :=
  .after fun _ => .bind (h.statement true).collectUntil fun _ hbody => .after fun _ =>
    .after fun _ => .pure hbody

/-- **Depth.** In the tree of any text at most eight times as many statements, expressions and
patterns stand inside of each other as there are levels of nesting, if a head counts together with
what it is the head of. -/
theorem shallow_of_parse {options : Options} {source : List Char} {p : Program}
    (h : parse options source = .ok p) :
    ∀ s ∈ p.body, (Node.stmt s).Shallow (8 * Grammar.maxNesting) :=
  Parser.YieldsIn.of_parse ((Grammar.shallow_nest Grammar.maxNesting).program _) h

end WithScope
