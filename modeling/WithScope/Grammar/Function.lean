import WithScope.Grammar.Pattern

/-!
# Blocks and functions
-/

namespace WithScope.Grammar

open WithScope.Parser

variable (g : Grammar)

/-- Statements in braces. -/
def block : Parser Block := do
  let start ← here
  expectMark .leftBrace
  let body ← collectUntil (atMark .rightBrace) do
    if ← atKind .eof then unexpected else g.statement false
  discard bump
  return .mk (← spanFrom start) body

/-- The parameters of a function, in parentheses. -/
def params : Parser (List Pat) := do
  expectMark .leftParen
  itemsWithRest .rightParen (itemAndComma .rightParen g.bindingElement) g.restBinding

/-- The context of the parameters and the body of a function. -/
def functionContext (isAsync isGenerator : Bool) : Context :=
  { Context.empty with
    inFunction := true, awaitAllowed := isAsync, yieldAllowed := isGenerator, newTarget := true }

/-- A function from its parameters on. -/
def functionRest (start : Position) (id : Option Ident) (isAsync isGenerator : Bool) :
    Parser Func := do
  let (params, body) ← inBody (functionContext isAsync isGenerator) do
    let params ← g.params
    let body ← g.block
    return (params, body)
  return .mk (← spanFrom start) id isAsync isGenerator params body

/-- The name of a function or class, which may be left out unless `isRequired`. -/
def optionalName (isRequired : Bool) (isName : Token → Bool) : Parser (Option Ident) := do
  if isName (← token) then return some (← ident)
  else if isRequired then unexpected
  else return none

/-- A function from the word `function` on. Where `async` stands before it, `start` is there. -/
def function (start : Position) (isAsync nameRequired : Bool) : Parser Func := do
  expectWord .function
  let isGenerator ← eatMark .star
  let id ← optionalName nameRequired fun t => t.kind = .identifier
  g.functionRest start id isAsync isGenerator

/-- The context of the body of an arrow function, given the one around it. -/
def arrowContext (isAsync : Bool) (around : Context) : Context :=
  { Context.empty with
    inFunction := true, awaitAllowed := isAsync,
    noIn := around.noIn, newTarget := around.newTarget }

/-- An arrow function from the arrow on. -/
def arrowRest (start : Position) (params : List Pat) (isAsync : Bool) : Parser Expr := do
  expectMark .arrow
  let body ← inBody (arrowContext isAsync (← context)) do
    if ← atMark .leftBrace then return ArrowBody.block (← allowIn g.block)
    else return ArrowBody.expr (← g.assignment)
  return .arrow (← spanFrom start) isAsync params body

/-- Whether the current token is an arrow that may follow parameters. -/
def atArrow : Parser Bool := do
  if ← atMark .arrow then return !(← afterNewline) else return false

/-- Whether the current tokens begin an `async` function. -/
def atAsyncFunction : Parser Bool := do
  if ← atName "async" then
    let next ← peek
    return next.kind = .keyword .function && !next.newlineBefore
  else return false

/-! ## Methods -/

/-- Whether a token after a word such as `get` shows that the word is a name and no modifier. -/
def endsName (k : TokenKind) : Bool :=
  k = .punctuator .leftParen || k = .punctuator .equal || k = .punctuator .semicolon
    || k = .punctuator .rightBrace || k = .punctuator .comma || k = .punctuator .colon || k = .eof

/-- Whether the current token is `word`, used as a modifier and not as a name. -/
def atModifier (word : String) : Parser Bool := do
  if ← atName word then
    let next ← peek
    return !endsName next.kind && !(word = "async" && next.newlineBefore)
  else return false

/-- What stands before the name of a method. -/
structure MethodModifiers where
  /-- whether `get`, `set` or neither stands there -/
  kind : MethodKind
  /-- whether `async` stands there -/
  isAsync : Bool
  /-- whether `*` stands there -/
  isGenerator : Bool

/-- Whether there is no modifier at all. -/
def MethodModifiers.isPlain (m : MethodModifiers) : Bool :=
  m.kind = .method && !m.isAsync && !m.isGenerator

/-- The modifiers of a method, of which there may be none. -/
def methodModifiers : Parser MethodModifiers := do
  if ← atModifier "async" then
    discard bump
    return ⟨.method, true, ← eatMark .star⟩
  else if ← atModifier "get" then
    discard bump
    return ⟨.get, false, false⟩
  else if ← atModifier "set" then
    discard bump
    return ⟨.set, false, false⟩
  else return ⟨.method, false, ← eatMark .star⟩

/-- A method from its parameters on. -/
def methodRest (m : MethodModifiers) : Parser Func := do
  g.functionRest (← here) none m.isAsync m.isGenerator

end WithScope.Grammar
