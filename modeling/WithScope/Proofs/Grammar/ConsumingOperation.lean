import WithScope.Proofs.Grammar.ConsumingPrimary

/-!
# Operations move past tokens

Operands, operators and assignments move past tokens if the productions that they are made of do.
-/

namespace WithScope

open WithScope.Parser (Runs Advances Consumes Proceeds Rounds)
open WithScope.Parser.Advances

namespace Grammar

variable {source : List Char}

/-! ## Rounds -/

/-- One round of what follows an operand. -/
def accessRound (step : Expr → Parser (Option Expr)) (e : Expr) : Parser (Expr ⊕ Expr) := do
  match ← step e with
  | some e => return .inl e
  | none => return .inr e

/-- What follows an operand is read round by round. -/
theorem accesses_eq (step : Expr → Parser (Option Expr)) (e : Expr) :
    accesses step e = Parser.repeatFrom e (accessRound step) := rfl

/-- One round of operators with the operands to their right. -/
def operationRound (g : Grammar) (start : Position) (floor : Nat) (left : Expr) :
    Parser (Expr ⊕ Expr) := do
  match ← operator? floor with
  | none => return .inr left
  | some op =>
    if op = .binary .exp && left.isUnary then Parser.fail left.loc.start .unaryBeforePower
    else
      discard Parser.bump
      let right ← g.operation op.rightFloor
      return .inl (op.apply (← Parser.spanFrom start) left right)

/-- Operators are read round by round. -/
theorem operations_eq (g : Grammar) (start : Position) (floor : Nat) (e : Expr) :
    g.operations start floor e = Parser.repeatFrom e (g.operationRound start floor) := rfl

namespace Consuming

variable {g : Grammar} (h : g.Consuming source)
include h

/-! ### Operands -/

/-- A member moves past its point, its bracket or its template, if there is one. -/
theorem memberAccess? (start : Position) (e : Expr) :
    Advances source Option.isSome (g.memberAccess? start e) := by
  refine fun env s hs => .kind ?_
  split
  · refine (pass skip fun point => take consumes_memberName fun name => ?_) hs
    exact pass (spanFrom _) fun loc => pure rfl
  · refine (pass skip fun opening => take h.bracketExpression fun name => ?_) hs
    exact pass (spanFrom _) fun loc => pure rfl
  · next hk =>
    refine (h.template hs (by rw [hk]; exact nofun) true).bind fun template => ?_
    exact pass (spanFrom _) fun loc => pure rfl
  · next hk =>
    refine (h.template hs (by rw [hk]; exact nofun) true).bind fun template => ?_
    exact pass (spanFrom _) fun loc => pure rfl
  · exact .pure hs rfl

/-- After `?.` there are arguments, a bracket or a name. -/
theorem optionalAccess (start : Position) (e : Expr) :
    Consumes source (g.optionalAccess start e) := by
  refine pass skip fun mark => pass (atMark _) fun isCall => ite ?_ (eaten (eatMark _) ?_ ?_)
  · exact take h.arguments fun arguments => pass (spanFrom _) fun loc => pure rfl
  · exact pass h.bracketExpression fun name => pass (spanFrom _) fun loc => pure rfl
  · exact take consumes_memberName fun name => pass (spanFrom _) fun loc => pure rfl

/-- Any access moves past a token, if there is one. -/
theorem access? (start : Position) (e : Expr) :
    Advances source Option.isSome (g.access? start e) := by
  refine pass kind fun k => ?_
  split
  · exact take (h.optionalAccess start e) fun _ => pure rfl
  · exact take h.arguments fun _ => pass (spanFrom _) fun _ => pure rfl
  · exact h.memberAccess? start e

omit h in
/-- A round moves past an access, or it is the last. -/
theorem accessRound {step : Expr → Parser (Option Expr)}
    (hstep : ∀ e, Advances source Option.isSome (step e)) :
    Rounds source (Grammar.accessRound step) := by
  refine fun e => bind (hstep e) fun e' => ?_
  cases e' with
  | none => exact pure rfl
  | some a => exact pure rfl

omit h in
/-- There may be no access, and then nothing is passed. -/
theorem accesses {step : Expr → Parser (Option Expr)}
    (hstep : ∀ e, Advances source Option.isSome (step e)) (e : Expr) :
    Proceeds source (Grammar.accesses step e) := by
  rw [accesses_eq]
  exact repeatFrom (accessRound hstep) _

/-- What is called by `new` is an operand at least. -/
theorem newCallee : Consumes source g.newCallee := by
  refine pass here fun start => pass (atWord _) fun isNew => ?_
  refine joinTake h.newExpr h.primary fun first => ?_
  refine pass (accesses (h.memberAccess? start) first) fun callee => ?_
  refine pass (atMark _) fun isOptional => ite ?_ (pure rfl)
  exact pass here fun place => fail nofun

/-- The word `new` is passed first. -/
theorem newBody : Consumes source g.newBody := by
  refine pass here fun start => take (expectKind nofun) fun word => ?_
  refine pass (eatMark _) fun isTarget => ite (any (consumes_newTarget start word)) ?_
  refine pass h.newCallee fun callee => pass (atMark _) fun hasArguments => ?_
  exact join h.arguments done fun arguments => pass (spanFrom _) fun loc => pure rfl

/-- An operand is passed, with whatever follows it. -/
theorem leftHandSideBody : Consumes source g.leftHandSideBody := by
  refine pass here fun start => pass (atWord _) fun isNew => ?_
  refine joinTake h.newBody h.primary fun e => ?_
  exact ite (pure rfl) (accesses (h.access? start) e)

/-- The operand is passed, with `++` and `--` or without. -/
theorem postfixOperand (start : Position) : Consumes source (g.postfixOperand start) := by
  refine take h.leftHandSideBody fun e => pass kind fun k => ?_
  split
  · exact pure rfl
  · refine pass afterNewline fun isAfterNewline => ite (pure rfl) ?_
    refine pass (proceeds_checkUpdateTarget _) fun checked => pass skip fun mark => ?_
    exact pass (spanFrom _) fun loc => pure rfl

/-- The operand after an operator is passed, or one without an operator. -/
theorem unaryBody : Consumes source g.unaryBody := by
  refine pass here fun start => pass kind fun k => pass kind fun k' => ?_
  split
  · refine pass skip fun operator => take h.unary fun operand => ?_
    exact pass (spanFrom _) fun loc => pure rfl
  · refine pass skip fun operator => take h.unary fun operand => ?_
    refine pass (proceeds_checkUpdateTarget _) fun checked => ?_
    exact pass (spanFrom _) fun loc => pure rfl
  · refine pass context fun around => pass token fun t => ite ?_ (h.postfixOperand start)
    refine pass skip fun word => take h.unary fun operand => ?_
    exact pass (spanFrom _) fun loc => pure rfl

/-! ### Operations and assignments -/

/-- The operand after `in` is passed. -/
theorem privateIn (start : Position) (floor : Nat) : Consumes source (g.privateIn start floor) := by
  refine pass context fun around => ite unexpected (pass peek fun next => ite unexpected ?_)
  refine pass bump fun name => pass skip fun word => take (h.operation _) fun operand => ?_
  exact pass (spanFrom _) fun loc => pure rfl

/-- A round moves past an operator, or it is the last. -/
theorem operationRound (start : Position) (floor : Nat) :
    Rounds source (g.operationRound start floor) := by
  refine fun left => pass (proceeds_operator? floor) fun op => ?_
  split
  · exact pure rfl
  · refine ite (fail nofun) (pass skip fun operator => take (h.operation _) fun right => ?_)
    exact pass (spanFrom _) fun loc => pure rfl

/-- There may be no operator, and then nothing is passed. -/
theorem operations (start : Position) (floor : Nat) (first : Expr) :
    Proceeds source (g.operations start floor first) := by
  rw [operations_eq]
  exact repeatFrom (h.operationRound start floor) _

/-- The first operand is passed. -/
theorem operationBody (floor : Nat) : Consumes source (g.operationBody floor) := by
  refine pass here fun start => pass (atKind _) fun isPrivate => ?_
  refine joinTake (h.privateIn start floor) h.unaryBody fun first => ?_
  exact ite (pure rfl) (h.operations start floor first)

/-- The test is passed, with the branches or without. -/
theorem conditional : Consumes source g.conditional := by
  refine pass here fun start => take (h.operationBody 0) fun test => ite (pure rfl) ?_
  refine pass (eatMark _) fun isConditional => ite ?_ (pure rfl)
  refine pass h.assignment.allowIn fun consequent => pass (expectMark _) fun colon => ?_
  exact pass h.assignment fun alternate => pass (spanFrom _) fun loc => pure rfl

/-- The word `yield` is passed, and is no end of the text. -/
theorem yieldExpression {env : Surrounding} {s : ParserState} (hs : s.Sound source)
    (hk : s.token.kind ≠ .eof) : Runs source (fun _ => true) env s g.yieldExpression := by
  refine .here ((Runs.skip hs hk).bind fun word => pass afterNewline fun isAfterNewline => ?_)
  refine ite (pass (spanFrom _) fun loc => pure rfl) (pass (eatMark _) fun delegates => ite ?_ ?_)
  · exact pass h.assignment fun argument => pass (spanFrom _) fun loc => pure rfl
  · refine pass context fun around => pass kind fun k => ite ?_ ?_
    · exact pass (spanFrom _) fun loc => pure rfl
    · exact pass h.assignment fun argument => pass (spanFrom _) fun loc => pure rfl

/-- The target is passed, with a value or without. -/
theorem conditionalOrAssignment : Consumes source g.conditionalOrAssignment := by
  refine pass here fun start => take h.conditional fun left => pass kind fun k => ?_
  split
  · exact pure rfl
  · next op _ =>
    refine ite (pure rfl) (pass (ofExcept (unspent_assignTarget op left)) fun target => ?_)
    refine pass skip fun operator => pass h.assignment fun value => ?_
    exact pass (spanFrom _) fun loc => pure rfl

/-- Every form of an assignment moves past a token. -/
theorem assignmentBody : Consumes source g.assignmentBody := by
  intro env s hs
  show Runs source _ env s (if env.context.yieldAllowed && s.token.isIdentifier "yield"
    then g.yieldExpression else g.conditionalOrAssignment)
  split
  · next hyield =>
    refine h.yieldExpression hs fun heof => ?_
    rw [Token.isIdentifier, heof] at hyield
    simp at hyield
  · exact h.conditionalOrAssignment hs

end Consuming

end Grammar

end WithScope
