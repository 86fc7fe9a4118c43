import WithScope.Grammar.Class
import WithScope.Syntax.Cover

/-!
# Primary expressions

Literals, names, functions and what stands in brackets. A list in parentheses and the arguments of
`async(...)` are read as expressions, and read again as parameters if an arrow follows.
-/

namespace WithScope.Grammar

open WithScope.Parser

variable (g : Grammar)

/-! ## Literals -/

/-- The body and the flags of a regular expression, which its last slash separates. -/
def regExpParts? (raw : List Char) : Option (List Char × List Char) :=
  match raw.reverse.span (· != '/') with
  | (flags, _ :: c :: body) => some ((c :: body).reverse.drop 1, flags.reverse)
  | _ => none

/-- A regular expression, whose slash has been read as an operator. -/
def regExp : Parser Expr := do
  rescan
  let t ← bump
  match regExpParts? t.text.toList with
  | some (body, flags) => return .regExp t.span (String.ofList body) (String.ofList flags)
  | none => fail t.span.start .invalidRegExp

/-- The word `super`, which has to be called or accessed. -/
def superOperand : Parser Expr := do
  let t ← bump
  match ← kind with
  | .punctuator .leftParen | .punctuator .dot | .punctuator .leftBracket => return .super t.span
  | _ => fail t.span.start .strayUseOfSuper

/-- The value of a numeral's token. -/
def numberValue : TokenValue → Double
  | .number value => value
  | _ => .nan

/-- The words `this` and `super`, and the literals other than templates. -/
def literal : Parser Expr := do
  match ← kind with
  | .keyword .this => return .this (← bump).span
  | .keyword .super => superOperand
  | .keyword .null => return .null (← bump).span
  | .keyword .true => return .bool (← bump).span true
  | .keyword .false => return .bool (← bump).span false
  | .numericLiteral =>
    let t ← bump
    return .number ⟨t.span, numberValue t.value, t.spelling⟩
  | .bigIntLiteral =>
    let t ← bump
    return .bigInt t.span t.text
  | .stringLiteral =>
    let t ← bump
    return .string ⟨t.span, t.text⟩
  | .punctuator .slash | .punctuator .slashEqual => regExp
  | _ => unexpected

/-! ## Names, arrows and `async` -/

/-- A name, or an arrow function with the name as its only parameter. -/
def nameOrArrow (start : Position) : Parser Expr := do
  let id ← ident
  if ← atArrow then g.arrowRest start [.ident id] false
  else return .ident id

/-- An arrow function of one bare parameter, from the word `async` on. -/
def asyncArrow (start : Position) : Parser Expr := do
  discard bump
  let id ← ident
  if ← atArrow then g.arrowRest start [.ident id] true
  else unexpected

/-- A call of something named `async`, or an arrow function from that word on. -/
def asyncCallOrArrow (start : Position) : Parser Expr := do
  let callee ← ident
  let arguments ← g.arguments
  if ← atArrow then
    let params ← ofExcept (toParams arguments)
    g.arrowRest start params true
  else return .call (← spanFrom start) (.ident callee) arguments false

/-- What begins with an identifier. -/
def identifierExpression : Parser Expr := do
  let start ← here
  if ← atAsyncFunction then
    discard bump
    return .function (← g.function start true false)
  else if ← atName "async" then
    let next ← peek
    if next.newlineBefore then g.nameOrArrow start
    else
      match next.kind with
      | .identifier => g.asyncArrow start
      | .punctuator .leftParen => g.asyncCallOrArrow start
      | _ => g.nameOrArrow start
  else g.nameOrArrow start

/-! ## Parentheses -/

/-- What stands in parentheses that may hold parameters. -/
structure ParenItems where
  /-- the expressions -/
  items : List Expr
  /-- the rest parameter, which only an arrow can follow -/
  rest : Option Pat
  /-- whether a comma stands before the closing parenthesis -/
  trailingComma : Bool

/-- One more of the items in parentheses; those before are the last ones first. -/
def parenItemsStep (before : List Expr) : Parser (List Expr ⊕ ParenItems) := do
  if ← atMark .rightParen then return .inr ⟨before.reverse, none, false⟩
  else if ← atMark .dotDotDot then
    let rest ← g.restBinding
    return .inr ⟨before.reverse, some rest, false⟩
  else
    let item ← g.assignment
    if ← atMark .rightParen then return .inr ⟨(item :: before).reverse, none, false⟩
    else
      expectMark .comma
      if ← atMark .rightParen then return .inr ⟨(item :: before).reverse, none, true⟩
      else return .inl (item :: before)

/-- Expressions separated by commas in parentheses, as the one expression that they are. -/
def joined (first : Expr) : List Expr → Expr
  | [] => first
  | second :: others =>
    .sequence (first.loc.to ((second :: others).getLastD first).loc) (first :: second :: others)

/-- An expression in parentheses, or an arrow function with parameters in parentheses. -/
def parenOrArrow : Parser Expr := do
  let start ← here
  expectMark .leftParen
  let list ← allowIn (repeatFrom [] g.parenItemsStep)
  let close ← expectKind (.punctuator .rightParen)
  if ← atArrow then
    let params ← ofExcept (toParams list.items)
    g.arrowRest start (params ++ list.rest.toList) false
  else
    match list.items with
    | [] => fail close.span.start .arrowExpected
    | first :: others =>
      if list.rest.isSome || list.trailingComma then fail close.span.start .arrowExpected
      else return .paren (← spanFrom start) (joined first others)

/-! ## `import` as an expression -/

/-- The expression `import.meta`, or an import that is called. -/
def importExpression : Parser Expr := do
  let start ← here
  let word ← expectKind (.keyword .import)
  if ← eatMark .dot then
    let property ← identName
    if property.name = "meta" then
      return .metaProperty (← spanFrom start) ⟨word.span, "import"⟩ property
    else fail property.loc.start .unknownImportProperty
  else
    match ← g.arguments with
    | [] => fail start .importWithoutSpecifier
    | [source] => return .importCall (← spanFrom start) source none
    | [source, options] => return .importCall (← spanFrom start) source (some options)
    | _ => fail start .importWithExtraArguments

/-! ## Array and object literals -/

/-- An element of an array literal, or the comma in place of one that is left out. -/
def elementOrHole : Parser (Option Expr) := do
  if ← eatMark .comma then return none
  else return some (← itemAndComma .rightBracket g.spreadOrAssignment)

/-- An array literal. -/
def arrayLiteral : Parser Expr := do
  let start ← here
  expectMark .leftBracket
  let elements ← allowIn (collectUntil (eatMark .rightBracket) g.elementOrHole)
  return .array (← spanFrom start) elements

/-- A property that is only a name, or one with a default value as in `{ a = 1 }`. The latter is
kept as `a: a = 1` until the literal is read again as a pattern. -/
def nameProperty (start : Position) (id : Ident) : Parser Property := do
  if ← eatMark .equal then
    let right ← g.assignment
    let loc ← spanFrom start
    return .value loc (.ident id) (.assign loc .assign (.ident id) right)
  else return .shorthand (← spanFrom start) (.ident id)

/-- A property of an object literal from the end of its key on. -/
def propertyRest (start : Position) (m : MethodModifiers) (mayBeShorthand : Bool) (key : Key) :
    Parser Property := do
  if ← atMark .leftParen then
    let value ← g.methodRest m
    return .method (← spanFrom start) m.kind key value
  else if !m.isPlain then unexpected
  else if ← eatMark .colon then
    let value ← g.assignment
    return .value (← spanFrom start) key value
  else
    match key with
    | .ident id =>
      if mayBeShorthand then g.nameProperty start id
      else fail id.loc.start (.unexpectedKeyword id.name)
    | _ => unexpected

/-- A property of an object literal. -/
def property : Parser Property := do
  let start ← here
  if ← eatMark .dotDotDot then
    let argument ← g.assignment
    return .spread (← spanFrom start) argument
  else
    let m ← methodModifiers
    let mayBeShorthand ← atKind .identifier
    let key ← g.key
    g.propertyRest start m mayBeShorthand key

/-- An object literal. -/
def objectLiteral : Parser Expr := do
  let start ← here
  expectMark .leftBrace
  let properties ← allowIn (commaSeparated .rightBrace g.property)
  return .object (← spanFrom start) properties

/-! ## All of them -/

/-- A primary expression, or an arrow function. -/
def primary : Parser Expr := do
  match ← kind with
  | .punctuator .leftParen => g.parenOrArrow
  | .punctuator .leftBracket => g.arrayLiteral
  | .punctuator .leftBrace => g.objectLiteral
  | .keyword .function => return .function (← g.function (← here) false false)
  | .keyword .class => return .class (← g.classDefinition false)
  | .keyword .import => g.importExpression
  | .identifier => g.identifierExpression
  | .noSubstitutionTemplate | .templateHead => return .template (← g.template false)
  | _ => literal

end WithScope.Grammar
