import WithScope.Proofs.Grammar.ConsumingOperation

/-!
# Reading comes to an end

Every production through which the grammar contains itself moves past a token, and so does every
round of a repetition but the last (`Grammar.Repeats`). With the limit on nesting that leaves nothing
that could go on for ever: the budgets of repetitions are never spent, and every text is read or has
a fault (`parse_terminates`).
-/

namespace WithScope

open WithScope.Parser (Runs Advances Consumes Proceeds Rounds)
open WithScope.Parser.Advances

namespace Grammar

variable {source : List Char}

/-! ## Imports and exports -/

/-- The place of a module declaration is checked without moving. -/
theorem proceeds_checkModulePosition (start : Position) (isTopLevel : Bool) :
    Proceeds source (checkModulePosition start isTopLevel) :=
  pass read fun _ => ite (pure rfl) (ite (fail nofun) (ite (fail nofun) (pure rfl)))

/-- The text that names a module is a token to pass. -/
theorem consumes_moduleSource : Consumes source moduleSource :=
  take (expectKind nofun) fun _ => pure rfl

/-- A name of an export is a token, quoted or not. -/
theorem consumes_moduleName : Consumes source moduleName :=
  pass (atKind _) fun _ =>
    ite (take consumes_moduleSource fun _ => pure rfl) (take identName fun _ => pure rfl)

/-- An entry of a `with` clause moves past its key. -/
theorem consumes_importAttribute : Consumes source importAttribute := by
  refine pass here fun start => take consumes_moduleName fun key => pass (expectMark _) fun _ => ?_
  exact pass consumes_moduleSource fun value => pass (spanFrom _) fun loc => pure rfl

/-- A `with` clause that is there moves past its entries, and one that is left out stays. -/
theorem proceeds_importAttributes : Proceeds source importAttributes := by
  have hstart : Proceeds source atImportAttributes := by
    refine pass (atWord _) fun isWith => ite (pure rfl) ?_
    refine pass (atName _) fun isAssert => ite ?_ (pure rfl)
    exact pass afterNewline fun isApart => pure rfl
  refine pass hstart fun hasClause => ite ?_ (pure rfl)
  exact pass skip fun _ => take (expectMark _) fun _ => any consumes_importAttribute.commaSeparated

/-- The name has been read before it is checked. -/
theorem proceeds_importedName (isName : Bool) (name : ModuleName) :
    Proceeds source (importedName isName name) := by
  cases name with
  | ident id => exact ite (pure rfl) (fail nofun)
  | string lit => exact fail nofun

/-- A name in the braces of an import is passed, with `as` after it or without. -/
theorem consumes_namedImport : Consumes source namedImport := by
  refine pass here fun start => pass (atKind _) fun isName => ?_
  refine take consumes_moduleName fun imported => pass (atName _) fun isRenamed => ite ?_ ?_
  · exact pass skip fun _ => pass ident fun localName => pass (spanFrom _) fun loc => pure rfl
  · exact pass (proceeds_importedName _ _) fun localName => pass (spanFrom _) fun loc => pure rfl

/-- A namespace moves past its name, and braces are passed even when they are empty. -/
theorem consumes_importSpecifiers : Consumes source importSpecifiers := by
  refine pass (atMark _) fun isNamespace => ite ?_ ?_
  · refine pass here fun start => pass skip fun _ => pass (expectName _) fun _ => ?_
    exact take ident fun localName => pass (spanFrom _) fun loc => pure rfl
  · exact take (expectMark _) fun _ => any consumes_namedImport.commaSeparated

/-- All that an import binds, up to the word `from`, which ends both ways of writing it. -/
theorem proceeds_importClause : Proceeds source importClause := by
  have hfrom (specifiers : List ImportSpecifier) :
      Proceeds source (do Parser.expectName "from"; return specifiers) :=
    pass (expectName _) fun _ => pure rfl
  refine pass (atKind _) fun hasDefault => ite ?_ (pass consumes_importSpecifiers hfrom)
  refine pass ident fun id => pass (eatMark _) fun hasOthers => ?_
  exact join consumes_importSpecifiers done fun others => pass done hfrom

/-- An import moves past its own word. -/
theorem consumes_importDeclaration : Consumes source importDeclaration := by
  refine pass here fun start => take (expectWord _) fun _ => pass (atKind _) fun isBare => ?_
  refine join done proceeds_importClause fun specifiers => ?_
  refine pass consumes_moduleSource fun origin => pass proceeds_importAttributes fun attributes => ?_
  exact pass semicolon fun _ => pass (spanFrom _) fun loc => pure rfl

/-- A name in the braces of an export is passed, with `as` after it or without. -/
theorem consumes_exportSpecifier : Consumes source exportSpecifier := by
  refine pass here fun start => take consumes_moduleName fun localName => ?_
  refine pass (atName _) fun isRenamed => ite ?_ ?_
  · refine pass skip fun _ => pass consumes_moduleName fun exported => ?_
    exact pass (spanFrom _) fun loc => pure rfl
  · exact pass done fun exported => pass (spanFrom _) fun loc => pure rfl

/-- The star has been passed before, so no more than standing still is asked for here. -/
theorem proceeds_exportAll (start : Position) : Proceeds source (exportAll start) := by
  have hrest (exported : Option ModuleName) :
      Proceeds source (do Parser.expectName "from"
                          let source ← moduleSource
                          let attributes ← importAttributes
                          Parser.semicolon
                          return .exportAll (← Parser.spanFrom start) exported source attributes :
                        Parser ModuleDecl) := by
    refine pass (expectName _) fun _ => pass consumes_moduleSource fun origin => ?_
    refine pass proceeds_importAttributes fun attributes => pass semicolon fun _ => ?_
    exact pass (spanFrom _) fun loc => pure rfl
  refine pass (atName _) fun isNamed => ite ?_ (pass done hrest)
  exact pass skip fun _ => pass consumes_moduleName.map hrest

/-- An export list has its opening brace behind it, and its closing one among its rounds. -/
theorem proceeds_exportList (start : Position) : Proceeds source (exportList start) := by
  refine pass consumes_exportSpecifier.commaSeparated fun specifiers => ?_
  refine pass (atName _) fun isFrom => ite ?_ ?_
  · refine pass skip fun _ => pass consumes_moduleSource fun origin => ?_
    refine pass proceeds_importAttributes fun attributes => pass semicolon fun _ => ?_
    exact pass (spanFrom _) fun loc => pure rfl
  · exact pass semicolon fun _ => pass (spanFrom _) fun loc => pure rfl

/-- The token after `let` is looked at and not passed. -/
theorem proceeds_atLetDeclaration : Proceeds source atLetDeclaration :=
  pass (atName _) fun _ => ite (pass peek fun _ => pure rfl) (pure rfl)

/-- Whether something can be exported is seen without moving. -/
theorem proceeds_atExportable : Proceeds source atExportable := by
  refine pass kind fun k => ?_
  split
  case h_5 =>
    exact pass proceeds_atLetDeclaration fun isDecl => ite (pure rfl) proceeds_atAsyncFunction
  all_goals exact pure rfl

/-! ## Parts of statements -/

/-- The word of a declaration, which is the last token if there is none. -/
theorem proceeds_varKind : Proceeds source varKind := by
  refine pass bump fun t => ?_
  split <;> exact pure rfl

/-- The names of a pattern are looked for in the pattern, not in the text. -/
theorem proceeds_checkLexicalNames (kind : VarKind) (id : Pat) :
    Proceeds source (checkLexicalNames kind id) := by
  refine ite ?_ (pure rfl)
  split
  · exact fail nofun
  · exact pure rfl

/-- Whether a declaration begins is seen without moving. -/
theorem proceeds_atVarDecl : Proceeds source atVarDecl := by
  refine pass kind fun k => ?_
  split
  · exact pure rfl
  · exact pure rfl
  · exact proceeds_atLetDeclaration

/-- The end of a clause is seen without moving, so the next clause finds its word. -/
theorem proceeds_atCaseEnd : Proceeds source atCaseEnd := by
  refine pass kind fun k => ?_
  split <;> exact pure rfl

/-- The target of a loop is read again from the tree, which spends no budget. -/
theorem proceeds_forTarget (init : ForInit) : Proceeds source (forTarget init) := by
  unfold forTarget
  split
  · split
    · exact pure rfl
    · exact fail fun h => by cases h
  · exact pass (ofExcept (unspent_toPattern false _)) fun _ => pure rfl

/-- The word `await` after `for` may be missing. -/
theorem proceeds_eatAwait : Proceeds source eatAwait :=
  pass context fun _ => pass token fun _ => ite (pass skip fun _ => pure rfl) (pure rfl)

/-- The label of a jump may be missing, or stand on the next line and be none. -/
theorem proceeds_jumpLabel : Proceeds source jumpLabel := by
  refine pass (atKind _) fun isName => ite ?_ (pure rfl)
  exact pass afterNewline fun isApart => ite (pure rfl) (pass ident fun label => pure rfl)

/-- What a jump goes to is looked for among the labels and in the context. -/
theorem proceeds_checkJump (start : Position) (isBreak : Bool) (label : Option Ident) :
    Proceeds source (checkJump start isBreak label) := by
  refine pass read fun surrounding => ?_
  dsimp only
  split
  · exact fail nofun
  · exact ite (pure rfl) (ite (fail nofun) (ite (fail nofun) (pure rfl)))

section

variable {env : Surrounding} {s : ParserState}

/-- The word of a jump is passed. -/
theorem runs_jumpStatement (hs : s.Sound source) (hk : s.token.kind ≠ .eof) (start : Position)
    (isBreak : Bool) : Runs source (fun _ => true) env s (jumpStatement start isBreak) := by
  refine (Runs.skip hs hk).bind fun _ => pass proceeds_jumpLabel fun label => ?_
  refine pass (proceeds_checkJump _ _ _) fun _ => pass semicolon fun _ => ?_
  exact pass (spanFrom _) fun loc => pure rfl

/-- The word `debugger` is passed. -/
theorem runs_debuggerStatement (hs : s.Sound source) (hk : s.token.kind ≠ .eof)
    (start : Position) : Runs source (fun _ => true) env s (debuggerStatement start) :=
  (Runs.skip hs hk).bind fun _ => pass semicolon fun _ => pass (spanFrom _) fun _ => pure rfl

end

namespace Consuming

variable {g : Grammar} (h : g.Consuming source)
include h

/-! ## Statements -/

/-- A default export moves past a word of its own or the expression that it is. -/
theorem defaultExport : Consumes source g.defaultExport := by
  refine pass here fun start => pass (atWord _) fun isFunction => ite ?_ ?_
  · exact take (h.function start false false) fun f => pure rfl
  refine pass proceeds_atAsyncFunction fun isAsync => ite ?_ ?_
  · exact pass skip fun _ => take (h.function start true false) fun f => pure rfl
  refine pass (atWord _) fun isClass => ite ?_ ?_
  · exact take (h.classDefinition false) fun c => pure rfl
  · exact take h.assignment fun e => pass semicolon fun _ => pure rfl

/-- An export moves past its own word, whatever it exports. -/
theorem exportDeclaration : Consumes source g.exportDeclaration := by
  refine pass here fun start => take (expectWord _) fun _ => ?_
  refine pass (eatWord _) fun isDefault => ite ?_ ?_
  · exact pass h.defaultExport fun value => pass (spanFrom _) fun loc => pure rfl
  refine pass (eatMark _) fun isAll => ite (proceeds_exportAll start) ?_
  refine pass (eatMark _) fun isList => ite (proceeds_exportList start) ?_
  refine pass proceeds_atExportable fun isDeclaration => ite ?_ unexpected
  exact pass (h.statement false) fun declaration => pass (spanFrom _) fun loc => pure rfl

/-- A declarator moves past its pattern; the value may be missing. -/
theorem declarator (kind : VarKind) : Consumes source (g.declarator kind) := by
  refine pass here fun start => take h.bindingTarget fun id => ?_
  refine pass (proceeds_checkLexicalNames _ _) fun _ => pass (eatMark _) fun hasValue => ?_
  refine join h.assignment.map done fun value => ?_
  exact pass (spanFrom _) fun loc => pure rfl

/-- A declaration moves past its first declarator. -/
theorem varDecl : Consumes source g.varDecl := by
  refine pass here fun start => pass proceeds_varKind fun kind => ?_
  refine take (h.declarator kind) fun first => pass (h.declarator kind).afterCommas fun others => ?_
  exact pass (spanFrom _) fun loc => pure rfl

/-- The declaration is passed, and the semicolon after it may be missing. -/
theorem varStatement (start : Position) : Consumes source (g.varStatement start) := by
  refine take h.varDecl fun ⟨loc, kind, declarators⟩ => pass semicolon fun _ => ?_
  exact pass (spanFrom _) fun loc => pure rfl

/-- An `if` statement moves past its test in parentheses. -/
theorem ifStatement (start : Position) : Consumes source (g.ifStatement start) := by
  refine pass skip fun _ => take h.parenExpression fun test => ?_
  refine pass (h.statement false) fun consequent => pass (eatWord _) fun hasElse => ?_
  refine join (h.statement false).map done fun alternate => ?_
  exact pass (spanFrom _) fun loc => pure rfl

/-- A clause moves past `case` or `default`, one of which is there. -/
theorem caseTest : Consumes source g.caseTest :=
  eaten (eatWord _) (pass h.expression.allowIn fun _ => pure rfl)
    (take (expectWord _) fun _ => pure rfl)

/-- A clause is passed even without statements, since its own word is. -/
theorem switchCase : Consumes source g.switchCase := by
  refine pass here fun start => take h.caseTest fun test => pass (expectMark _) fun _ => ?_
  refine pass (collectUntil proceeds_atCaseEnd (h.statement false)) fun consequent => ?_
  refine pass (atKind _) fun atEnd => ite unexpected ?_
  exact pass (spanFrom _) fun loc => pure rfl

/-- A `switch` moves past the value in parentheses, and its clauses past their words. -/
theorem switchStatement (start : Position) : Consumes source (g.switchStatement start) := by
  refine pass skip fun _ => take h.parenExpression fun discriminant => ?_
  refine pass (expectMark _) fun _ => ?_
  refine pass (withContext (collectUntil (eatMark _) h.switchCase)) fun cases => ?_
  exact pass (spanFrom _) fun loc => pure rfl

/-- The body of a loop is a statement, and no statement is without a token. -/
theorem loopBody : Consumes source g.loopBody := withContext (h.statement false)

/-- A `while` loop moves past its test. -/
theorem whileStatement (start : Position) : Consumes source (g.whileStatement start) := by
  refine pass skip fun _ => take h.parenExpression fun test => pass h.loopBody fun body => ?_
  exact pass (spanFrom _) fun loc => pure rfl

/-- A `do` loop moves past its body, which comes first. -/
theorem doWhileStatement (start : Position) : Consumes source (g.doWhileStatement start) := by
  refine pass skip fun _ => take h.loopBody fun body => pass (expectWord _) fun _ => ?_
  refine pass h.parenExpression fun test => pass (discard (eatMark _)) fun _ => ?_
  exact pass (spanFrom _) fun loc => pure rfl

/-- What a loop begins with is not empty; whether it is there is decided before. -/
theorem forInit : Consumes source g.forInit := by
  refine pass proceeds_atVarDecl fun isDecl => ite ?_ ?_
  · exact take h.varDecl fun d => pure rfl
  · exact take h.expression fun e => pure rfl

/-- An expression that is left out is not passed. -/
theorem optionalExpression (mark : Punctuator) : Proceeds source (g.optionalExpression mark) :=
  pass (atMark _) fun _ => ite (pure rfl) (pass h.expression.allowIn fun _ => pure rfl)

/-- The rest of a loop moves past its first semicolon, even when all else is left out. -/
theorem forRest (start : Position) (init : Option ForInit) :
    Consumes source (g.forRest start init) := by
  refine take (expectMark _) fun _ => pass (h.optionalExpression _) fun test => ?_
  refine pass (expectMark _) fun _ => pass (h.optionalExpression _) fun update => ?_
  refine pass (expectMark _) fun _ => pass h.loopBody fun body => ?_
  exact pass (spanFrom _) fun loc => pure rfl

/-- The rest of a loop over values moves past what is looped over. -/
theorem forOfRest (start : Position) (isAwait : Bool) (init : ForInit) :
    Consumes source (g.forOfRest start isAwait init) := by
  refine pass (proceeds_forTarget init) fun target => pass skip fun _ => ?_
  refine take h.assignment.allowIn fun right => pass (expectMark _) fun _ => ?_
  exact pass h.loopBody fun body => pass (spanFrom _) fun loc => pure rfl

/-- The rest of a loop over keys moves past the object that has them. -/
theorem forInRest (start : Position) (init : ForInit) :
    Consumes source (g.forInRest start init) := by
  refine pass (proceeds_forTarget init) fun target => pass skip fun _ => ?_
  refine take h.expression.allowIn fun right => pass (expectMark _) fun _ => ?_
  exact pass h.loopBody fun body => pass (spanFrom _) fun loc => pure rfl

/-- Every `for` loop moves past its opening parenthesis. -/
theorem forStatement (start : Position) : Consumes source (g.forStatement start) := by
  refine pass skip fun _ => pass proceeds_eatAwait fun isAwait => take (expectMark _) fun _ => ?_
  refine pass (atMark _) fun isBare => ite (any (h.forRest start none)) ?_
  refine pass h.forInit.withContext fun init => ?_
  refine pass (atName _) fun isOf => ite (any (h.forOfRest start isAwait init)) ?_
  refine pass (atWord _) fun isIn => ite (any (h.forInRest start init)) ?_
  exact any (h.forRest start (some init))

/-- A `throw` moves past its argument, or is a fault. -/
theorem throwStatement (start : Position) : Consumes source (g.throwStatement start) := by
  refine pass skip fun _ => pass afterNewline fun isApart => ite ?_ ?_
  · exact pass here fun place => fail nofun
  · refine take h.expression fun argument => pass semicolon fun _ => ?_
    exact pass (spanFrom _) fun loc => pure rfl

/-- A `catch` clause may be missing. -/
theorem catchClause : Proceeds source g.catchClause := by
  refine pass here fun start => pass (eatWord _) fun hasClause => ite ?_ (pure rfl)
  refine pass (eatMark _) fun hasParam => ite ?_ ?_
  · refine pass h.bindingTarget fun param => pass (expectMark _) fun _ => ?_
    exact pass done fun param => pass h.block fun body => pass (spanFrom _) fun loc => pure rfl
  · exact pass done fun param => pass h.block fun body => pass (spanFrom _) fun loc => pure rfl

/-- A `try` moves past its block, whichever clauses follow it. -/
theorem tryStatement (start : Position) : Consumes source (g.tryStatement start) := by
  refine pass skip fun _ => take h.block fun body => pass h.catchClause fun handler => ?_
  refine pass (eatWord _) fun hasFinally => join h.block.map done fun finalizer => ite ?_ ?_
  · exact pass here fun place => fail nofun
  · exact pass (spanFrom _) fun loc => pure rfl

/-- A `with` statement moves past its object. -/
theorem withStatement (start : Position) : Consumes source (g.withStatement start) := by
  refine pass skip fun _ => take h.parenExpression fun object => ?_
  exact pass (h.statement false) fun body => pass (spanFrom _) fun loc => pure rfl

/-- A label is passed before it is compared with those around it. -/
theorem labeledStatement (start : Position) : Consumes source (g.labeledStatement start) := by
  refine take ident fun label => pass read fun surrounding => ite (fail nofun) ?_
  refine pass (expectMark _) fun _ => pass (h.statement false).withLabel fun body => ?_
  exact pass (spanFrom _) fun loc => pure rfl

/-- An expression has at least one token; the semicolon may be missing. -/
theorem expressionStatement (start : Position) : Consumes source (g.expressionStatement start) :=
  take h.expression fun _ => pass semicolon fun _ => pass (spanFrom _) fun _ => pure rfl

/-- Each of the statements that an identifier can begin moves past a token. -/
theorem statementAtName (start : Position) : Consumes source (g.statementAtName start) := by
  refine pass proceeds_atLetDeclaration fun isDecl => ite (h.varStatement start) ?_
  refine pass proceeds_atAsyncFunction fun isFunction => ite ?_ ?_
  · exact pass skip fun _ => take (h.function start true true) fun f => pure rfl
  · exact pass peek fun next => ite (h.labeledStatement start) (h.expressionStatement start)

/-- The token after `import` is looked at first, and one that stands is passed with the import. -/
theorem statementAtImport (start : Position) (isTopLevel : Bool) :
    Consumes source (g.statementAtImport start isTopLevel) := by
  refine pass peek fun next => ?_
  split
  · exact h.expressionStatement start
  · exact h.expressionStatement start
  · refine pass (proceeds_checkModulePosition _ _) fun _ => ?_
    exact take consumes_importDeclaration fun d => pure rfl

section

variable {env : Surrounding} {s : ParserState}

/-- The word of a `return` is passed. -/
theorem returnStatement (hs : s.Sound source) (hk : s.token.kind ≠ .eof) (start : Position) :
    Runs source (fun _ => true) env s (g.returnStatement start) := by
  show Runs source _ env s (if _ then _ else _)
  split
  · exact .fail nofun
  · refine (Runs.skip hs hk).bind fun _ => pass atStatementEnd fun isBare => ?_
    refine join done h.expression.map fun argument => pass semicolon fun _ => ?_
    exact pass (spanFrom _) fun loc => pure rfl

/-- A statement that begins with a reserved word moves past a token. Jumps need the word itself for
this, which is why the current token has to be known. -/
theorem statementAtWord (hs : s.Sound source) {word : Keyword} (hk : s.token.kind = .keyword word)
    (start : Position) (isTopLevel : Bool) :
    Runs source (fun _ => true) env s (g.statementAtWord start isTopLevel word) := by
  have hne : s.token.kind ≠ .eof := by rw [hk]; exact nofun
  unfold Grammar.statementAtWord
  split
  case h_1 | h_2 => exact h.varStatement start hs
  case h_3 => exact (take (h.function start false true) fun _ => pure rfl) hs
  case h_4 => exact (take (h.classDefinition true) fun _ => pure rfl) hs
  case h_5 => exact h.ifStatement start hs
  case h_6 => exact h.forStatement start hs
  case h_7 => exact h.whileStatement start hs
  case h_8 => exact h.doWhileStatement start hs
  case h_9 => exact h.switchStatement start hs
  case h_10 => exact h.tryStatement start hs
  case h_11 => exact h.returnStatement hs hne start
  case h_12 => exact h.throwStatement start hs
  case h_13 => exact runs_jumpStatement hs hne start true
  case h_14 => exact runs_jumpStatement hs hne start false
  case h_15 => exact runs_debuggerStatement hs hne start
  case h_16 => exact h.withStatement start hs
  case h_17 => exact h.statementAtImport start isTopLevel hs
  case h_18 =>
    exact (pass (proceeds_checkModulePosition _ _) fun _ => take h.exportDeclaration fun _ =>
      pure rfl) hs
  case h_19 => exact h.expressionStatement start hs

end

/-- No statement is without a token: even the empty one has its semicolon. -/
theorem statementBody (isTopLevel : Bool) : Consumes source (g.statementBody isTopLevel) := by
  refine fun env s hs => .here (.kind ?_)
  split
  · exact (take h.block fun _ => pure rfl) hs
  · next hk => exact runs_leaf hs hk nofun
  · exact h.statementAtName _ hs
  · next hk => exact h.statementAtWord hs hk _ isTopLevel
  · exact h.expressionStatement _ hs

end Consuming

/-! ## The grammar of all levels -/

/-- At the limit of nesting nothing is read, so nothing is read without moving. -/
theorem consumes_tooDeep {α : Type} : Consumes source (tooDeep : Parser α) :=
  pass here fun _ => fail nofun

/-- The induction on the level begins with the grammar that reads nothing. -/
theorem consuming_limit : limit.Consuming source :=
  ⟨fun _ => consumes_tooDeep, consumes_tooDeep, fun _ => consumes_tooDeep, consumes_tooDeep,
    consumes_tooDeep, consumes_tooDeep, consumes_tooDeep, consumes_tooDeep⟩

/-- One level more: a production moves past a token if those of the level inside it do. -/
theorem Consuming.deeper {g : Grammar} (h : g.Consuming source) : g.deeper.Consuming source where
  statement := h.statementBody
  assignment := h.assignmentBody
  operation := h.operationBody
  unary := h.unaryBody
  leftHandSide := h.leftHandSideBody
  newExpr := h.newBody
  arrayPattern := h.arrayPatternBody
  objectPattern := h.objectPatternBody

/-- Through none of its productions does the grammar of any level come back to the same token. -/
theorem consuming_nest (n : Nat) : (nest n).Consuming source := by
  induction n with
  | zero => exact consuming_limit
  | succ n ih => exact ih.deeper

/-- A program may be empty, so it only does not go back. -/
theorem Consuming.program {g : Grammar} (h : g.Consuming source) : Proceeds source g.program := by
  refine pass here fun start => pass (collectUntil (atKind _) (h.statement true)) fun body => ?_
  exact pass token fun t => pass read fun surrounding => pure rfl

/-! ## All repetitions -/

section

open WithScope.Parser (itemRound itemOrRestRound itemAndComma eatMark atMark atKind)

/-- What a grammar repeats: the rounds of its repetitions. -/
inductive Repeats (g : Grammar) : {α β : Type} → (α → Parser (α ⊕ β)) → Prop
  /-- the statements of a program -/
  | program : Repeats g (itemRound (atKind .eof) (g.statement true))
  /-- the statements of a block -/
  | block : Repeats g (itemRound (atMark .rightBrace) g.blockItem)
  /-- the statements of a clause of a `switch` -/
  | consequent : Repeats g (itemRound atCaseEnd (g.statement false))
  /-- the clauses of a `switch` -/
  | clauses : Repeats g (itemRound (eatMark .rightBrace) g.switchCase)
  /-- the patterns of a variable declaration, after the first -/
  | declarators (kind : VarKind) :
    Repeats g (itemRound (do return !(← eatMark .comma)) (g.declarator kind))
  /-- the parameters of a function -/
  | params : Repeats g (itemOrRestRound .rightParen (itemAndComma .rightParen g.bindingElement)
      g.restBinding)
  /-- the elements of an array pattern -/
  | arrayPattern :
    Repeats g (itemOrRestRound .rightBracket g.bindingElementOrHole (some <$> g.restBinding))
  /-- the properties of an object pattern -/
  | objectPattern : Repeats g (itemOrRestRound .rightBrace
      (itemAndComma .rightBrace g.bindingProperty) restProperty)
  /-- the elements of a class -/
  | members : Repeats g g.memberRound
  /-- the expressions of a sequence, after the first -/
  | sequence : Repeats g (itemRound (do return !(← eatMark .comma)) g.assignment)
  /-- the arguments of a call -/
  | arguments :
    Repeats g (itemRound (eatMark .rightParen) (itemAndComma .rightParen g.spreadOrAssignment))
  /-- what stands in parentheses -/
  | parenItems : Repeats g g.parenItemsStep
  /-- the elements of an array literal -/
  | array : Repeats g (itemRound (eatMark .rightBracket) g.elementOrHole)
  /-- the properties of an object literal -/
  | object : Repeats g (itemRound (eatMark .rightBrace) (itemAndComma .rightBrace g.property))
  /-- the parts of a template -/
  | template (isTagged : Bool) : Repeats g (g.templateStep isTagged)
  /-- the accesses and calls after an operand -/
  | accesses (start : Position) : Repeats g (accessRound (g.access? start))
  /-- the accesses after the operand of `new` -/
  | memberAccesses (start : Position) : Repeats g (accessRound (g.memberAccess? start))
  /-- the operators after an operand -/
  | operations (start : Position) (floor : Nat) : Repeats g (g.operationRound start floor)
  /-- the names of an import -/
  | imports : Repeats g (itemRound (eatMark .rightBrace) (itemAndComma .rightBrace namedImport))
  /-- the names of an export -/
  | exports : Repeats g (itemRound (eatMark .rightBrace) (itemAndComma .rightBrace exportSpecifier))
  /-- the entries of a `with` clause -/
  | attributes :
    Repeats g (itemRound (eatMark .rightBrace) (itemAndComma .rightBrace importAttribute))

end

/-- A round of a repetition moves past a token, or it is the last one. -/
theorem Consuming.rounds {g : Grammar} (h : g.Consuming source) {α β : Type}
    {step : α → Parser (α ⊕ β)} (hround : g.Repeats step) : Rounds source step := by
  have hitem {γ : Type} {stop : Parser Bool} {t : Bool → Bool} {item : Parser γ}
      (hstop : Advances source t stop) (hp : Consumes source item) :
      Rounds source (Parser.itemRound stop item) := fun items =>
    (itemRound hstop hp items).mono fun r hr => by cases r <;> first | rfl | cases hr
  have hrest {γ : Type} {close : Punctuator} {item rest : Parser γ} (hp : Consumes source item)
      (hrest : Consumes source rest) :
      Rounds source (Parser.itemOrRestRound close item rest) := fun items =>
    any (itemOrRestRound hp hrest items)
  have hcomma : Proceeds source (do return !(← Parser.eatMark .comma)) :=
    pass (eatMark _) fun _ => done
  cases hround with
  | program => exact hitem (atKind _) (h.statement true)
  | block => exact hitem (atMark _) h.blockItem
  | consequent => exact hitem proceeds_atCaseEnd (h.statement false)
  | clauses => exact hitem (eatMark _) h.switchCase
  | declarators kind => exact hitem hcomma (h.declarator kind)
  | params => exact hrest h.bindingElement.itemAndComma h.restBinding
  | arrayPattern => exact hrest h.bindingElementOrHole h.restBinding.map
  | objectPattern => exact hrest h.bindingProperty.itemAndComma restProperty
  | members => exact fun members => any (h.memberRound members)
  | sequence => exact hitem hcomma h.assignment
  | arguments => exact hitem (eatMark _) h.spreadOrAssignment.itemAndComma
  | parenItems => exact h.parenItemsStep
  | array => exact hitem (eatMark _) h.elementOrHole
  | object => exact hitem (eatMark _) h.property.itemAndComma
  | template isTagged => exact h.templateRound isTagged
  | accesses start => exact accessRound (h.access? start)
  | memberAccesses start => exact accessRound (h.memberAccess? start)
  | operations start floor => exact h.operationRound start floor
  | imports => exact hitem (eatMark _) consumes_namedImport.itemAndComma
  | exports => exact hitem (eatMark _) consumes_exportSpecifier.itemAndComma
  | attributes => exact hitem (eatMark _) consumes_importAttribute.itemAndComma

end Grammar

/-! ## Texts -/

/-- There is never more left to read than the text is long. -/
theorem ParserState.Sound.left_le {source : List Char} {s : ParserState} (hs : s.Sound source) :
    s.left ≤ source.length := by
  obtain ⟨given, hsession, -⟩ := hs.session
  obtain ⟨before, text, ht, hl⟩ := hs.token
  have hlength := congrArg List.length (hsession.spec.1.symm.trans hl.source)
  simp only [List.length_append] at hlength
  unfold ParserState.left
  rcases ht.eof with ⟨heof, -⟩ | ⟨hk, hne⟩
  · rw [if_pos heof]
    omega
  · have := List.length_pos_iff.2 hne
    rw [if_neg hk]
    omega

/-- No fault of a text is a budget that was spent. -/
theorem parse_notSpent {options : Options} {source : List Char} {e : SyntaxError}
    (h : parse options source = .error e) : e.NotSpent := by
  unfold parse at h
  split at h
  · next e' l hfirst =>
    cases h
    exact SyntaxError.notSpent_of_lexical (Lexer.next_lexical (congrArg Prod.fst hfirst))
  · next first lexer hfirst =>
    have hrun : Runs source (fun _ => false) options.surrounding ⟨lexer, first, .origin⟩
        (Grammar.nest Grammar.maxNesting).program :=
      (Grammar.consuming_nest _).program (ParserState.sound_first hfirst)
    unfold Runs Parser.Outcome at hrun
    cases hresult : (Grammar.nest Grammar.maxNesting).program options.surrounding
        ⟨lexer, first, .origin⟩ with
    | error e' =>
      rw [hresult] at h hrun
      cases h
      exact hrun
    | ok r =>
      rw [hresult] at h
      cases h

/-- **Termination.** A token other than the last moves the lexer forward, and the last one is given
again and again. A regular expression ends past the slash it was taken for. In the grammar of every
level the productions through which it contains itself move past tokens, and so do the rounds of all
repetitions but the last. There is never more to move past than the text is long, so the budgets of
repetitions, which are longer than that, are never spent: a text is read or has another fault. -/
theorem parse_terminates :
    (∀ (l l' : Lexer) (t : Token), l.next = (.ok t, l') →
      if t.kind = .eof then l'.next = (.ok (.last l'.position), l')
      else l.position.offset < l'.position.offset) ∧
    (∀ (source : List Char) (l l' : Lexer) (given : List (Except SyntaxError Token))
      (slash r : Token), Lexer.Session source l given → .ok slash ∈ given → slash.kind.isSlash →
      l.rescanRegExp slash = (.ok r, l') →
        slash.span.stop.offset < r.span.stop.offset ∧ l'.position = r.span.stop) ∧
    (∀ (source : List Char) (n : Nat), (Grammar.nest n).Consuming source ∧
      ∀ (α β : Type) (step : α → Parser (α ⊕ β)), (Grammar.nest n).Repeats step →
        Rounds source step) ∧
    (∀ (source : List Char) (s : ParserState), s.Sound source → s.left ≤ source.length) ∧
    ∀ (options : Options) (source : List Char), (∃ p, parse options source = .ok p) ∨
      ∃ e, parse options source = .error e ∧ e.cause ≠ .budgetSpent := by
  refine ⟨fun l l' t hnext => ?_, fun source l l' given slash r hsession hgiven hk hrescan => ?_,
    fun source n => ⟨Grammar.consuming_nest n, fun α β step => (Grammar.consuming_nest n).rounds⟩,
    fun source s hs => hs.left_le, fun options source => ?_⟩
  · split
    · next ht => exact Lexer.next_of_eof hnext ht
    · next ht => exact Lexer.next_forward hnext ht
  · exact (Lexer.rescan_forward hsession hgiven hk hrescan).2
  · cases h : parse options source with
    | ok p => exact .inl ⟨p, rfl⟩
    | error e => exact .inr ⟨e, rfl, parse_notSpent h⟩

/-- A list of arguments that is never closed, and a regular expression that begins like an
assignment. -/
theorem parse_terminates_unclosed :
    (∃ e, parse ⟨.script, false, false⟩ "f(a,".toList = .error e ∧ e.cause ≠ .budgetSpent) ∧
    ∃ slash r, (Lexer.ofSource "/=/g".toList).next.1 = .ok slash ∧
      ((Lexer.ofSource "/=/g".toList).next.2.rescanRegExp slash).1 = .ok r ∧
      slash.span.stop.offset < r.span.stop.offset := by
  obtain ⟨-, hrescan, -, -, hparse⟩ := parse_terminates
  refine ⟨?_, ?_⟩
  · have hread : (parse ⟨.script, false, false⟩ "f(a,".toList).isOk = false := by decide +kernel
    rcases hparse ⟨.script, false, false⟩ "f(a,".toList with ⟨p, hp⟩ | herror
    · rw [hp] at hread
      cases hread
    · exact herror
  · have hslash : (Lexer.ofSource "/=/g".toList).next.1.toOption.map Token.kind =
        some (.punctuator .slashEqual) := by decide +kernel
    have hregExp : ((Lexer.ofSource "/=/g".toList).next.1.bind fun t =>
        ((Lexer.ofSource "/=/g".toList).next.2.rescanRegExp t).1).isOk := by decide +kernel
    have hsession := (Lexer.Session.start : Lexer.Session "/=/g".toList _ _).next
    cases hfirst : (Lexer.ofSource "/=/g".toList).next.1 with
    | error e =>
      rw [hfirst] at hslash
      cases hslash
    | ok slash =>
      rw [hfirst] at hslash hregExp hsession
      rcases hread : (Lexer.ofSource "/=/g".toList).next.2.rescanRegExp slash with ⟨e | r, l⟩
      · replace hregExp : ((Lexer.ofSource "/=/g".toList).next.2.rescanRegExp slash).1.isOk :=
          hregExp
        rw [hread] at hregExp
        cases hregExp
      · have hk : slash.kind.isSlash := by rw [Option.some.inj hslash]; rfl
        exact ⟨slash, r, rfl, congrArg Prod.fst hread,
          (hrescan _ _ _ _ _ _ hsession (List.mem_cons_self ..) hk hread).1⟩

end WithScope
