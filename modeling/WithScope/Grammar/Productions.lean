import WithScope.Grammar.Parser
import WithScope.Syntax.Tree

/-!
# Productions that contain each other

Statements hold expressions, expressions hold functions, and functions hold statements. A `Grammar`
is the list of the productions through which such a cycle can close. Every other production is a
plain function of the grammar one nesting level further in, so nesting is the only recursion there
is, and a limit on it is a limit on the whole.
-/

namespace WithScope

/-- The productions through which the grammar contains itself. -/
structure Grammar where
  /-- a statement; the flag says whether it stands directly in the program -/
  statement : Bool → Parser Stmt
  /-- an expression without commas -/
  assignment : Parser Expr
  /-- operands joined by operators that bind more tightly than the given precedence -/
  operation : Nat → Parser Expr
  /-- an operand with the operators before and after it -/
  unary : Parser Expr
  /-- a primary expression with its member accesses and calls -/
  leftHandSide : Parser Expr
  /-- a `new` expression -/
  newExpr : Parser Expr
  /-- an array pattern that declares names -/
  arrayPattern : Parser Pat
  /-- an object pattern that declares names -/
  objectPattern : Parser Pat

/-- Fails because nesting has reached its limit. -/
def tooDeep {α : Type} : Parser α := do Parser.fail (← Parser.here) .nestingTooDeep

/-- The grammar at the limit of nesting, where nothing more can be nested. -/
def Grammar.limit : Grammar :=
  ⟨fun _ => tooDeep, tooDeep, fun _ => tooDeep, tooDeep, tooDeep, tooDeep, tooDeep, tooDeep⟩

namespace Grammar

open WithScope.Parser

variable (g : Grammar)

/-- An expression, with commas or without. -/
def expression : Parser Expr := do
  let start ← here
  let first ← g.assignment
  if ← atMark .comma then
    let others ← afterCommas g.assignment
    return .sequence (← spanFrom start) (first :: others)
  else return first

/-- An expression in parentheses that belong to a statement. -/
def parenExpression : Parser Expr := do
  expectMark .leftParen
  let e ← allowIn g.expression
  expectMark .rightParen
  return e

/-- An expression up to a closing bracket. -/
def bracketExpression : Parser Expr := do
  let e ← allowIn g.expression
  expectMark .rightBracket
  return e

/-- An element of an array literal or an argument. -/
def spreadOrAssignment : Parser Expr := do
  let start ← here
  if ← eatMark .dotDotDot then
    let argument ← g.assignment
    return .spread (← spanFrom start) argument
  else g.assignment

/-- The arguments of a call. -/
def arguments : Parser (List Expr) := do
  expectMark .leftParen
  allowIn (commaSeparated .rightParen g.spreadOrAssignment)

/-- The numeral that a big integer or number stands for as a key. -/
def keyNumber (t : Token) : NumberLit :=
  let value :=
    match t.value with
    | .number value => value
    | _ => (decimalNumeral? t.text.toList).getD .nan
  ⟨t.span, value, t.spelling⟩

/-- The key of a property or class element. -/
def key : Parser Key := do
  match ← kind with
  | .stringLiteral =>
    let t ← bump
    return .string ⟨t.span, t.text⟩
  | .numericLiteral | .bigIntLiteral => return .number (keyNumber (← bump))
  | .privateIdentifier =>
    let t ← bump
    return .privateName ⟨t.span, t.text⟩
  | .punctuator .leftBracket =>
    discard bump
    let e ← allowIn g.assignment
    expectMark .rightBracket
    return .computed e
  | _ => return .ident (← identName)

/-- The state of a template that is being read: its stretches of text and its expressions so far,
the last ones first. -/
structure TemplateParts where
  /-- the stretches of text -/
  quasis : List Quasi
  /-- the expressions -/
  expressions : List Expr

/-- One more stretch of text, and the expression after it unless the stretch ends the template. -/
def templateStep (isTagged : Bool) (parts : TemplateParts) :
    Parser (TemplateParts ⊕ TemplateParts) := do
  let t ← bump
  let tail := t.kind = .noSubstitutionTemplate || t.kind = .templateTail
  let cooked := (unescape t.text.toList).toOption.map String.ofList
  if cooked.isNone && !isTagged then fail t.span.start .escapeInTemplate
  else
    let quasis := ⟨t.span, t.text, cooked, tail⟩ :: parts.quasis
    if tail then return .inr ⟨quasis, parts.expressions⟩
    else
      let e ← allowIn g.expression
      match ← kind with
      | .templateMiddle | .templateTail => return .inl ⟨quasis, e :: parts.expressions⟩
      | _ => unexpected

/-- A template. Only one that belongs to a tag may have illegal escapes. -/
def template (isTagged : Bool) : Parser Template := do
  let start ← here
  let parts ← repeatFrom ⟨[], []⟩ (g.templateStep isTagged)
  return .mk (← spanFrom start) parts.quasis.reverse parts.expressions.reverse

end Grammar

end WithScope
