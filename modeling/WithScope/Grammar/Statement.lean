import WithScope.Grammar.Module

/-!
# Statements
-/

namespace WithScope.Grammar

open WithScope.Parser

variable (g : Grammar)

/-! ## Declarations -/

/-- The keyword of a variable declaration. -/
def varKind : Parser VarKind := do
  match (← bump).kind with
  | .keyword .var => return .var
  | .keyword .const => return .const
  | _ => return .let

/-- Fails if a pattern declared with `let` or `const` binds the name `let`. -/
def checkLexicalNames (kind : VarKind) (id : Pat) : Parser Unit :=
  if kind.isLexical then
    match id.find? "let" with
    | some place => fail place .letAsLexicalName
    | none => return ()
  else return ()

/-- One pattern of a variable declaration and its initial value. -/
def declarator (kind : VarKind) : Parser Declarator := do
  let start ← here
  let id ← g.bindingTarget
  checkLexicalNames kind id
  let value ← if ← eatMark .equal then some <$> g.assignment else pure none
  return .mk (← spanFrom start) id value

/-- A variable declaration without the semicolon. -/
def varDecl : Parser VarDecl := do
  let start ← here
  let kind ← varKind
  let first ← g.declarator kind
  let others ← afterCommas (g.declarator kind)
  return .mk (← spanFrom start) kind (first :: others)

/-- A variable declaration. -/
def varStatement (start : Position) : Parser Stmt := do
  let .mk _ kind declarators ← g.varDecl
  semicolon
  return .varDecl (.mk (← spanFrom start) kind declarators)

/-- Whether a variable declaration begins here. -/
def atVarDecl : Parser Bool := do
  match ← kind with
  | .keyword .var | .keyword .const => return true
  | _ => atLetDeclaration

/-! ## Choices -/

/-- An `if` statement. -/
def ifStatement (start : Position) : Parser Stmt := do
  discard bump
  let test ← g.parenExpression
  let consequent ← g.statement false
  let alternate ← if ← eatWord .else then some <$> g.statement false else pure none
  return .if (← spanFrom start) test consequent alternate

/-- What decides whether a clause of a `switch` applies. -/
def caseTest : Parser (Option Expr) := do
  if ← eatWord .case then return some (← allowIn g.expression)
  else
    expectWord .default
    return none

/-- Whether the statements of a clause end here. -/
def atCaseEnd : Parser Bool := do
  match ← kind with
  | .keyword .case | .keyword .default | .punctuator .rightBrace | .eof => return true
  | _ => return false

/-- A clause of a `switch`. -/
def switchCase : Parser SwitchCase := do
  let start ← here
  let test ← g.caseTest
  expectMark .colon
  let consequent ← collectUntil atCaseEnd (g.statement false)
  if ← atKind .eof then unexpected else return .mk (← spanFrom start) test consequent

/-- A `switch` statement. -/
def switchStatement (start : Position) : Parser Stmt := do
  discard bump
  let discriminant ← g.parenExpression
  expectMark .leftBrace
  let cases ← withContext (fun context => { context with inSwitch := true })
    (collectUntil (eatMark .rightBrace) g.switchCase)
  return .switch (← spanFrom start) discriminant cases

/-! ## Loops -/

/-- The body of a loop, where `break` and `continue` may stand. -/
def loopBody : Parser Stmt :=
  withContext (fun context => { context with inLoop := true }) (g.statement false)

/-- A `while` loop. -/
def whileStatement (start : Position) : Parser Stmt := do
  discard bump
  let test ← g.parenExpression
  let body ← g.loopBody
  return .while (← spanFrom start) test body

/-- A loop whose test comes last. The semicolon after it may always be left out. -/
def doWhileStatement (start : Position) : Parser Stmt := do
  discard bump
  let body ← g.loopBody
  expectWord .while
  let test ← g.parenExpression
  discard (eatMark .semicolon)
  return .doWhile (← spanFrom start) body test

/-- What a `for` loop begins with, unless that is left out. -/
def forInit : Parser ForInit := do
  if ← atVarDecl then return .decl (← g.varDecl) else return .expr (← g.expression)

/-- An expression that may be left out before `mark`. -/
def optionalExpression (mark : Punctuator) : Parser (Option Expr) := do
  if ← atMark mark then return none else return some (← allowIn g.expression)

/-- A `for` loop with semicolons, from the first of them on. -/
def forRest (start : Position) (init : Option ForInit) : Parser Stmt := do
  expectMark .semicolon
  let test ← g.optionalExpression .semicolon
  expectMark .semicolon
  let update ← g.optionalExpression .rightParen
  expectMark .rightParen
  let body ← g.loopBody
  return .for (← spanFrom start) init test update body

/-- What a loop over values assigns to, given what it begins with. -/
def forTarget : ForInit → Parser ForTarget
  | .decl d =>
    match d with
    | .mk _ _ [_] => return .decl d
    | .mk loc _ _ => fail loc.start .forHeadDeclarators
  | .expr e => do return .pat (← ofExcept (e.toPattern false))

/-- A loop over the elements of a value, from the word `of` on. -/
def forOfRest (start : Position) (isAwait : Bool) (init : ForInit) : Parser Stmt := do
  let target ← forTarget init
  discard bump
  let right ← allowIn g.assignment
  expectMark .rightParen
  let body ← g.loopBody
  return .forOf (← spanFrom start) isAwait target right body

/-- A loop over the keys of a value, from the word `in` on. -/
def forInRest (start : Position) (init : ForInit) : Parser Stmt := do
  let target ← forTarget init
  discard bump
  let right ← allowIn g.expression
  expectMark .rightParen
  let body ← g.loopBody
  return .forIn (← spanFrom start) target right body

/-- Moves past the word `await` where it is an operator. -/
def eatAwait : Parser Bool := do
  if (← context).awaitAllowed && (← token).isIdentifier "await" then
    discard bump
    return true
  else return false

/-- A `for` loop of any sort. -/
def forStatement (start : Position) : Parser Stmt := do
  discard bump
  let isAwait ← eatAwait
  expectMark .leftParen
  if ← atMark .semicolon then g.forRest start none
  else
    let init ← withContext (fun context => { context with noIn := true }) g.forInit
    if ← atName "of" then g.forOfRest start isAwait init
    else if ← atWord .in then g.forInRest start init
    else g.forRest start (some init)

/-! ## Jumps -/

/-- A `return` statement. -/
def returnStatement (start : Position) : Parser Stmt := do
  let surrounding ← read
  if !surrounding.context.inFunction && !surrounding.options.returnAnywhere then
    fail start .returnOutsideFunction
  else
    discard bump
    let argument ← if ← atStatementEnd then pure none else some <$> g.expression
    semicolon
    return .return (← spanFrom start) argument

/-- A `throw` statement. Its argument begins on the same line. -/
def throwStatement (start : Position) : Parser Stmt := do
  discard bump
  if ← afterNewline then fail (← here) .newlineAfterThrow
  else
    let argument ← g.expression
    semicolon
    return .throw (← spanFrom start) argument

/-- The label of a jump, which begins on the same line and may be left out. -/
def jumpLabel : Parser (Option Ident) := do
  if ← atKind .identifier then
    if ← afterNewline then return none else return some (← ident)
  else return none

/-- Fails unless a jump has something to jump to: its label, and for `continue` a loop in any
case. -/
def checkJump (start : Position) (isBreak : Bool) (label : Option Ident) : Parser Unit := do
  let surrounding ← read
  let unknown := label.filter fun label => !surrounding.labels.contains label.name
  match unknown with
  | some label => fail label.loc.start (.undefinedLabel label.name)
  | none =>
    if surrounding.context.inLoop then return ()
    else if !isBreak then fail start .continueOutsideLoop
    else if label.isNone && !surrounding.context.inSwitch then fail start .breakOutsideLoop
    else return ()

/-- A `break` or `continue` statement. -/
def jumpStatement (start : Position) (isBreak : Bool) : Parser Stmt := do
  discard bump
  let label ← jumpLabel
  checkJump start isBreak label
  semicolon
  let loc ← spanFrom start
  return if isBreak then .break loc label else .continue loc label

/-! ## Other statements -/

/-- The clause of a `try` that receives what was thrown, which may be left out. -/
def catchClause : Parser (Option CatchClause) := do
  let start ← here
  if ← eatWord .catch then
    let param ←
      if ← eatMark .leftParen then
        let param ← g.bindingTarget
        expectMark .rightParen
        pure (some param)
      else pure none
    let body ← g.block
    return some (.mk (← spanFrom start) param body)
  else return none

/-- A `try` statement. -/
def tryStatement (start : Position) : Parser Stmt := do
  discard bump
  let body ← g.block
  let handler ← g.catchClause
  let finalizer ← if ← eatWord .finally then some <$> g.block else pure none
  if handler.isNone && finalizer.isNone then fail (← here) .tryAlone
  else return .try (← spanFrom start) body handler finalizer

/-- A `with` statement. -/
def withStatement (start : Position) : Parser Stmt := do
  discard bump
  let object ← g.parenExpression
  let body ← g.statement false
  return .with (← spanFrom start) object body

/-- A statement with a label. -/
def labeledStatement (start : Position) : Parser Stmt := do
  let label ← ident
  if (← read).labels.contains label.name then fail label.loc.start (.duplicateLabel label.name)
  else
    expectMark .colon
    let body ← withLabel label.name (g.statement false)
    return .labeled (← spanFrom start) label body

/-- An expression as a statement. -/
def expressionStatement (start : Position) : Parser Stmt := do
  let e ← g.expression
  semicolon
  return .expr (← spanFrom start) e

/-- A `debugger` statement. -/
def debuggerStatement (start : Position) : Parser Stmt := do
  discard bump
  semicolon
  return .debugger (← spanFrom start)

/-! ## All of them -/

/-- A statement that begins with an identifier. -/
def statementAtName (start : Position) : Parser Stmt := do
  if ← atLetDeclaration then g.varStatement start
  else if ← atAsyncFunction then
    discard bump
    return .function (← g.function start true true)
  else if (← peek).kind = .punctuator .colon then g.labeledStatement start
  else g.expressionStatement start

/-- A statement that begins with the word `import`: an import, unless the word is called or
accessed. -/
def statementAtImport (start : Position) (isTopLevel : Bool) : Parser Stmt := do
  match (← peek).kind with
  | .punctuator .leftParen | .punctuator .dot => g.expressionStatement start
  | _ =>
    checkModulePosition start isTopLevel
    return .module (← importDeclaration)

/-- A statement that begins with a reserved word. -/
def statementAtWord (start : Position) (isTopLevel : Bool) : Keyword → Parser Stmt
  | .var | .const => g.varStatement start
  | .function => do return .function (← g.function start false true)
  | .class => do return .class (← g.classDefinition true)
  | .if => g.ifStatement start
  | .for => g.forStatement start
  | .while => g.whileStatement start
  | .do => g.doWhileStatement start
  | .switch => g.switchStatement start
  | .try => g.tryStatement start
  | .return => g.returnStatement start
  | .throw => g.throwStatement start
  | .break => jumpStatement start true
  | .continue => jumpStatement start false
  | .debugger => debuggerStatement start
  | .with => g.withStatement start
  | .import => g.statementAtImport start isTopLevel
  | .export => do
    checkModulePosition start isTopLevel
    return .module (← g.exportDeclaration)
  | _ => g.expressionStatement start

/-- A statement; `isTopLevel` says whether it stands directly in the program. -/
def statementBody (isTopLevel : Bool) : Parser Stmt := do
  let start ← here
  match ← kind with
  | .punctuator .leftBrace => return .block (← g.block)
  | .punctuator .semicolon => return .empty (← bump).span
  | .identifier => g.statementAtName start
  | .keyword word => g.statementAtWord start isTopLevel word
  | _ => g.expressionStatement start

end WithScope.Grammar
