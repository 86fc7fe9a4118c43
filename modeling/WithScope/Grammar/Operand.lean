import WithScope.Grammar.Primary

/-!
# Operands

Primary expressions with member accesses, calls and `new`, and the operators of one operand.
-/

namespace WithScope.Grammar

open WithScope.Parser

variable (g : Grammar)

/-! ## Member accesses and calls -/

/-- The name after a point. -/
def memberName : Parser MemberName := do
  if ← atKind .privateIdentifier then
    let t ← bump
    return .privateName ⟨t.span, t.text⟩
  else return .ident (← identName)

/-- The member access or template that follows an operand, if there is one. -/
def memberAccess? (start : Position) (e : Expr) : Parser (Option Expr) := do
  match ← kind with
  | .punctuator .dot =>
    discard bump
    let property ← memberName
    return some (.member (← spanFrom start) e property false)
  | .punctuator .leftBracket =>
    discard bump
    let property ← g.bracketExpression
    return some (.member (← spanFrom start) e (.computed property) false)
  | .noSubstitutionTemplate | .templateHead =>
    let quasi ← g.template true
    return some (.taggedTemplate (← spanFrom start) e quasi)
  | _ => return none

/-- What follows `?.` after an operand. -/
def optionalAccess (start : Position) (e : Expr) : Parser Expr := do
  discard bump
  if ← atMark .leftParen then
    let arguments ← g.arguments
    return .call (← spanFrom start) e arguments true
  else if ← eatMark .leftBracket then
    let property ← g.bracketExpression
    return .member (← spanFrom start) e (.computed property) true
  else
    let property ← memberName
    return .member (← spanFrom start) e property true

/-- The member access, call or template that follows an operand, if there is one. -/
def access? (start : Position) (e : Expr) : Parser (Option Expr) := do
  match ← kind with
  | .punctuator .questionDot => return some (← g.optionalAccess start e)
  | .punctuator .leftParen =>
    let arguments ← g.arguments
    return some (.call (← spanFrom start) e arguments false)
  | _ => g.memberAccess? start e

/-- An operand with all that follows it. -/
def accesses (step : Expr → Parser (Option Expr)) (e : Expr) : Parser Expr :=
  repeatFrom e fun e => do
    match ← step e with
    | some e => return .inl e
    | none => return .inr e

/-! ## `new` -/

/-- What stands after the point of `new.target`. -/
def newTarget (start : Position) (word : Token) : Parser Expr := do
  let property ← identName
  if property.name ≠ "target" then fail property.loc.start .unknownNewProperty
  else if !(← context).newTarget then fail start .newTargetOutsideFunction
  else return .metaProperty (← spanFrom start) ⟨word.span, "new"⟩ property

/-- What is called by `new`. Member accesses belong to it and calls do not. -/
def newCallee : Parser Expr := do
  let start ← here
  let first ← if ← atWord .new then g.newExpr else g.primary
  let callee ← accesses (g.memberAccess? start) first
  if ← atMark .questionDot then fail (← here) .optionalChainInNew
  else return callee

/-- A `new` expression. -/
def newBody : Parser Expr := do
  let start ← here
  let word ← expectKind (.keyword .new)
  if ← eatMark .dot then newTarget start word
  else
    let callee ← g.newCallee
    let arguments ← if ← atMark .leftParen then g.arguments else pure []
    return .new (← spanFrom start) callee arguments

/-- A primary expression or a `new` expression, with the accesses and calls after it. -/
def leftHandSideBody : Parser Expr := do
  let start ← here
  let e ← if ← atWord .new then g.newBody else g.primary
  if e.isArrow then return e else accesses (g.access? start) e

/-! ## Operators of one operand -/

/-- The operator before an operand that a token stands for. -/
def unaryOp? : TokenKind → Option UnaryOp
  | .punctuator .minus => some .minus
  | .punctuator .plus => some .plus
  | .punctuator .bang => some .not
  | .punctuator .tilde => some .bitNot
  | .keyword .typeof => some .typeof
  | .keyword .void => some .void
  | .keyword .delete => some .delete
  | _ => none

/-- The updating operator that a token stands for. -/
def updateOp? : TokenKind → Option UpdateOp
  | .punctuator .plusPlus => some .increment
  | .punctuator .minusMinus => some .decrement
  | _ => none

/-- Fails unless an operand can be updated: a name or member access, in parentheses or not. -/
def checkUpdateTarget (e : Expr) : Parser Unit :=
  if e.unparenthesized.isSimpleTarget then return ()
  else fail e.unparenthesized.loc.start .invalidUpdateTarget

/-- An operand with an updating operator after it, or with none. -/
def postfixOperand (start : Position) : Parser Expr := do
  let e ← g.leftHandSideBody
  match updateOp? (← kind) with
  | none => return e
  | some op =>
    if (← afterNewline) || e.isArrow then return e
    else
      checkUpdateTarget e
      discard bump
      return .update (← spanFrom start) op false e

/-- An operand with the operators before and after it. -/
def unaryBody : Parser Expr := do
  let start ← here
  match unaryOp? (← kind), updateOp? (← kind) with
  | some op, _ =>
    discard bump
    let argument ← g.unary
    return .unary (← spanFrom start) op argument
  | none, some op =>
    discard bump
    let argument ← g.unary
    checkUpdateTarget argument
    return .update (← spanFrom start) op true argument
  | none, none =>
    if (← context).awaitAllowed && (← token).isIdentifier "await" then
      discard bump
      let argument ← g.unary
      return .await (← spanFrom start) argument
    else g.postfixOperand start

end WithScope.Grammar
