import WithScope.Grammar.Operand

/-!
# Operations

Operands joined by operators, conditionals, assignments and `yield`.

Operators are read by precedence: `operationBody floor` takes those that bind more tightly than
`floor`, and what is to the right of an operator is read with that operator's own precedence as the
floor. `**` alone lowers it by one, so that it associates to the right.
-/

namespace WithScope

/-- The floor for the operators to the right of an operator. -/
def InfixOp.rightFloor (op : InfixOp) : Nat :=
  if op = .binary .exp then op.precedence - 1 else op.precedence

/-- The expression that an operator makes of its operands. -/
def InfixOp.apply (loc : Span) (left right : Expr) : InfixOp → Expr
  | .binary op => .binary loc op left right
  | .logical op => .logical loc op left right

/-- Whether an expression is an operator before its operand, which must not stand before `**`. -/
def Expr.isUnary : Expr → Bool
  | .unary .. | .await .. => true
  | _ => false

/-- Whether an expression is an array or object literal, which `=` makes a pattern. -/
def Expr.isLiteralPattern : Expr → Bool
  | .array .. | .object .. => true
  | _ => false

namespace Grammar

open WithScope.Parser

variable (g : Grammar)

/-! ## Operators of two operands -/

/-- The operator between two operands that a token stands for. -/
def infixOp? (noIn : Bool) : TokenKind → Option InfixOp
  | .punctuator .questionQuestion => some (.logical .nullishCoalesce)
  | .punctuator .pipePipe => some (.logical .or)
  | .punctuator .ampersandAmpersand => some (.logical .and)
  | .punctuator .pipe => some (.binary .bitOr)
  | .punctuator .caret => some (.binary .bitXor)
  | .punctuator .ampersand => some (.binary .bitAnd)
  | .punctuator .equalEqual => some (.binary .eq)
  | .punctuator .bangEqual => some (.binary .notEq)
  | .punctuator .equalEqualEqual => some (.binary .strictEq)
  | .punctuator .bangEqualEqual => some (.binary .strictNotEq)
  | .punctuator .less => some (.binary .lt)
  | .punctuator .greater => some (.binary .gt)
  | .punctuator .lessEqual => some (.binary .ltEq)
  | .punctuator .greaterEqual => some (.binary .gtEq)
  | .keyword .instanceof => some (.binary .instanceof)
  | .keyword .in => if noIn then none else some (.binary .in)
  | .punctuator .lessLess => some (.binary .shl)
  | .punctuator .greaterGreater => some (.binary .shr)
  | .punctuator .greaterGreaterGreater => some (.binary .uShr)
  | .punctuator .plus => some (.binary .add)
  | .punctuator .minus => some (.binary .sub)
  | .punctuator .star => some (.binary .mul)
  | .punctuator .slash => some (.binary .div)
  | .punctuator .percent => some (.binary .rem)
  | .punctuator .starStar => some (.binary .exp)
  | _ => none

/-- The current token as an operator that binds more tightly than `floor`, if it is one. -/
def operator? (floor : Nat) : Parser (Option InfixOp) := do
  let op := infixOp? (← context).noIn (← kind)
  return op.filter fun op => floor < op.precedence

/-- A test for a private name. It stands only where an operand of a relation may. -/
def privateIn (start : Position) (floor : Nat) : Parser Expr := do
  if BinaryOp.in.precedence ≤ floor || (← context).noIn then unexpected
  else if (← peek).kind ≠ .keyword .in then unexpected
  else
    let t ← bump
    discard bump
    let right ← g.operation BinaryOp.in.precedence
    return .privateIn (← spanFrom start) ⟨t.span, t.text⟩ right

/-- The operators that follow an operand, each with the operand to its right. -/
def operations (start : Position) (floor : Nat) (first : Expr) : Parser Expr :=
  repeatFrom first fun left => do
    match ← operator? floor with
    | none => return .inr left
    | some op =>
      if op = .binary .exp && left.isUnary then fail left.loc.start .unaryBeforePower
      else
        discard bump
        let right ← g.operation op.rightFloor
        return .inl (op.apply (← spanFrom start) left right)

/-- Operands joined by operators that bind more tightly than `floor`. -/
def operationBody (floor : Nat) : Parser Expr := do
  let start ← here
  let first ← if ← atKind .privateIdentifier then g.privateIn start floor else g.unaryBody
  if first.isArrow then return first else g.operations start floor first

/-- An operation, or a choice between two expressions. -/
def conditional : Parser Expr := do
  let start ← here
  let test ← g.operationBody 0
  if test.isArrow then return test
  else if ← eatMark .question then
    let consequent ← allowIn g.assignment
    expectMark .colon
    let alternate ← g.assignment
    return .conditional (← spanFrom start) test consequent alternate
  else return test

/-! ## Assignments -/

/-- The operator of an assignment that a token stands for. -/
def assignOp? : TokenKind → Option AssignOp
  | .punctuator .equal => some .assign
  | .punctuator .plusEqual => some .addAssign
  | .punctuator .minusEqual => some .subAssign
  | .punctuator .starEqual => some .mulAssign
  | .punctuator .slashEqual => some .divAssign
  | .punctuator .percentEqual => some .remAssign
  | .punctuator .starStarEqual => some .expAssign
  | .punctuator .lessLessEqual => some .shlAssign
  | .punctuator .greaterGreaterEqual => some .shrAssign
  | .punctuator .greaterGreaterGreaterEqual => some .uShrAssign
  | .punctuator .pipeEqual => some .bitOrAssign
  | .punctuator .caretEqual => some .bitXorAssign
  | .punctuator .ampersandEqual => some .bitAndAssign
  | .punctuator .ampersandAmpersandEqual => some .logicalAndAssign
  | .punctuator .pipePipeEqual => some .logicalOrAssign
  | .punctuator .questionQuestionEqual => some .nullishAssign
  | _ => none

/-- The target that the left side of an assignment spells. Only `=` takes patterns. -/
def assignTarget (op : AssignOp) (left : Expr) : Except SyntaxError Pat :=
  if op = .assign && left.isLiteralPattern then left.toPattern false else left.toSimpleTarget

/-- Whether a token ends a `yield` without an argument. -/
def endsYield (noIn : Bool) : TokenKind → Bool
  | .punctuator .rightParen | .punctuator .rightBracket | .punctuator .rightBrace
  | .punctuator .comma | .punctuator .semicolon | .punctuator .colon
  | .eof | .templateMiddle | .templateTail => true
  | .keyword .in => noIn
  | _ => false

/-- A `yield` expression. Its argument begins on the same line. -/
def yieldExpression : Parser Expr := do
  let start ← here
  discard bump
  if ← afterNewline then return .yield (← spanFrom start) false none
  else if ← eatMark .star then
    let argument ← g.assignment
    return .yield (← spanFrom start) true (some argument)
  else if endsYield (← context).noIn (← kind) then return .yield (← spanFrom start) false none
  else
    let argument ← g.assignment
    return .yield (← spanFrom start) false (some argument)

/-- A conditional, or an assignment to what it spells. -/
def conditionalOrAssignment : Parser Expr := do
  let start ← here
  let left ← g.conditional
  match assignOp? (← kind) with
  | none => return left
  | some op =>
    if left.isArrow then return left
    else
      let target ← ofExcept (assignTarget op left)
      discard bump
      let right ← g.assignment
      return .assign (← spanFrom start) op target right

/-- An expression without commas. -/
def assignmentBody : Parser Expr := do
  if (← context).yieldAllowed && (← token).isIdentifier "yield" then g.yieldExpression
  else g.conditionalOrAssignment

end Grammar

end WithScope
