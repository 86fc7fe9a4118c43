import WithScope.Proofs.Grammar.OrdinaryOperation
import WithScope.Proofs.Grammar.UpholdingStatement
import WithScope.Proofs.Tree.Precedence

/-!
# Operators are read by their precedence

What keeps the operands of an operator in order is where the reading of an operand stops: an
operation that has been read with a `floor` ends before a token that is no operator, or one that
binds no more tightly than the floor (`Expr.Ends`). So the loop that puts operators together knows
of the operand to its left that the operator after it binds no more tightly than the one inside of
it (`Expr.Leads`), which is the invariant of `Grammar.Orders.operations`. Arrow functions reach up
to tokens of any kind, and are the exception in both.

* `Parser.leaves_operator?` — which operator is looked at;
* `joined_of_parse` — in a tree that has been read all operators have the operands that they may
  have.
-/

namespace WithScope

open WithScope.Parser (Yields YieldsIn)

/-! ## The next operator -/

namespace Parser

variable {env : Surrounding} {s : ParserState}

/-- The operator that the current token stands for, if it stands for one. -/
def nextOperator? (env : Surrounding) (s : ParserState) : Option InfixOp :=
  Grammar.infixOp? env.context.noIn s.token.kind

/-- Of the operators, those that bind more tightly than the floor are looked at. -/
theorem leaves_operator? (floor : Nat) :
    Leaves env s (Grammar.operator? floor) fun op s' =>
      s' = s ∧ op = (nextOperator? env s).filter (floor < ·.precedence) :=
  ⟨rfl, rfl⟩

end Parser

open WithScope.Parser (Leaves nextOperator?)

/-! ## What has been read before an operator -/

/-- An operation that stands before an operator, or before none, and to the left of which there may
be one that binds as tightly as `floor`. -/
structure Expr.Leads (floor : Nat) (next : Option InfixOp) (e : Expr) : Prop where
  all : (Node.expr e).All Node.Joined
  tighter : e.TighterThan floor
  /-- the operator before it binds as tightly at least as the next one, which is not `**` -/
  next_looser : ∀ q last, e.operator? = some (q, last) → last.isArrow = false → ∀ op ∈ next,
    op.precedence ≤ q ∧ op ≠ .binary .exp

/-- An operation that has been read with a `floor`, before an operator or none. -/
structure Expr.Ends (floor : Nat) (next : Option InfixOp) (e : Expr) : Prop where
  all : (Node.expr e).All Node.Joined
  tighter : e.TighterThan floor
  /-- the reading has stopped at an operator that binds no more tightly than the floor -/
  next_looser : e.isArrow = false → ∀ op ∈ next, op.precedence ≤ floor

namespace Expr

variable {floor : Nat} {next : Option InfixOp} {e left right : Expr}

/-- What is no operation with two operands can stand before any operator. -/
theorem Whole.leads (h : e.Whole Node.Joined) : e.Leads floor next := by
  refine ⟨h.all, ⟨h.isLoose, ?_⟩, ?_⟩ <;> simp [h.operator?]

/-- An operation ends where no operator follows that binds more tightly than the floor. -/
theorem Leads.ends (h : e.Leads floor next)
    (hnone : next.filter (fun op => decide (floor < op.precedence)) = none) :
    e.Ends floor next := by
  refine ⟨h.all, h.tighter, fun _ op hop => ?_⟩
  have hnot := Option.filter_eq_none_iff.1 hnone op hop
  simpa using hnot

/-- An arrow function ends anywhere. -/
theorem Leads.ends_of_isArrow (h : e.Leads floor next) (harrow : e.isArrow = true) :
    e.Ends floor next :=
  ⟨h.all, h.tighter, fun hnot => absurd (hnot.symm.trans harrow) nofun⟩

/-- Two operands with an operator between them stand before any operator at which the operand to the
right has ended. -/
theorem leads_apply {op : InfixOp} {before after : Option InfixOp} {loc : Span}
    (hleft : left.Leads floor before) (harrow : left.isArrow = false) (hop : op ∈ before)
    (hfloor : floor < op.precedence) (hunary : op = .binary .exp → left.isUnary = false)
    (hright : right.Ends op.rightFloor after) : (op.apply loc left right).Leads floor after := by
  have hjoins : op.Joins left right :=
    ⟨op.right_tighter hright.tighter,
      fun q last hq hlast => hleft.next_looser q last hq hlast op hop, hunary,
      hleft.tighter.isLoose, hright.tighter.isLoose, harrow⟩
  have hall : ∀ c ∈ [Node.expr left, .expr right], c.All Node.Joined :=
    List.forall_mem_cons.2 ⟨hleft.all, List.forall_mem_singleton.2 hright.all⟩
  -- the operand to the right has stopped at `after`, so `after` does not take that operand away
  have hlooser (hlast : right.isArrow = false) (next : InfixOp) (hnext : next ∈ after) :
      next.precedence ≤ op.precedence ∧ next ≠ .binary .exp :=
    op.next_looser (hright.next_looser hlast next hnext)
  cases op with
  | binary op =>
    refine ⟨.intro hjoins hall, ⟨rfl, ?_⟩, ?_⟩
    · rintro _ _ ⟨⟩
      exact hfloor
    · rintro _ _ ⟨⟩
      exact hlooser
  | logical op =>
    refine ⟨.intro hjoins hall, ⟨rfl, ?_⟩, ?_⟩
    · rintro _ _ ⟨⟩
      exact hfloor
    · rintro _ _ ⟨⟩
      exact hlooser

end Expr

/-- What an operator makes of its operands is no arrow function. -/
theorem InfixOp.isArrow_apply (op : InfixOp) (loc : Span) (left right : Expr) :
    (op.apply loc left right).isArrow = false := by
  cases op <;> rfl

/-! ## Operands -/

/-- The productions through which a grammar contains itself yield trees whose operators have the
operands that they may have. -/
structure Grammar.Orders (g : Grammar) : Prop extends g.Upholds Node.Joined where
  operation : ∀ floor env s, Leaves env s (g.operation floor) fun e s' =>
    e.Ends floor (nextOperator? env s')
  unary : g.unary.Yields (Expr.Whole Node.Joined)
  newExpr : g.newExpr.Yields (Expr.Whole Node.Joined)

namespace Grammar.Orders

variable {g : Grammar} (h : g.Orders)
include h

omit h in
/-- A member access to an operand that is no arrow function, unless the access is not optional. -/
theorem whole_member {loc : Span} {e : Expr} {name : MemberName} {isOptional : Bool}
    (he : (Node.expr e).All Node.Joined) (harrow : isOptional = true → e.isArrow = false)
    (hname : (Node.memberName name).All Node.Joined) :
    (Expr.member loc e name isOptional).Whole Node.Joined :=
  ⟨.intro harrow (List.forall_mem_cons.2 ⟨he, List.forall_mem_singleton.2 hname⟩), rfl, rfl⟩

omit h in
/-- A call of an operand that is no arrow function. -/
theorem whole_call {loc : Span} {e : Expr} {arguments : List Expr} {isOptional : Bool}
    (he : (Node.expr e).All Node.Joined) (harrow : e.isArrow = false)
    (ha : ∀ e ∈ arguments, (Node.expr e).All Node.Joined) :
    (Expr.call loc e arguments isOptional).Whole Node.Joined :=
  ⟨.intro harrow (List.forall_mem_cons.2 ⟨he, List.forall_mem_map.2 ha⟩), rfl, rfl⟩

omit h in
/-- An operand before a template. -/
theorem whole_taggedTemplate {loc : Span} {e : Expr} {t : Template}
    (he : (Node.expr e).All Node.Joined) (ht : (Node.template t).All Node.Joined) :
    (Expr.taggedTemplate loc e t).Whole Node.Joined :=
  ⟨.intro trivial (List.forall_mem_cons.2 ⟨he, List.forall_mem_singleton.2 ht⟩), rfl, rfl⟩

/-- An access that makes a whole operand, and no arrow function, of any whole operand. -/
theorem memberAccess? (start : Position) {e : Expr} (he : e.Whole Node.Joined) :
    (g.memberAccess? start e).Yields fun e' =>
      ∀ a ∈ e', a.Whole Node.Joined ∧ a.isArrow = false := by
  refine .after fun kind => ?_
  split
  · exact .after fun _ => .bind h.carries.memberName.yields fun name hname => .after fun loc =>
      .pureSome ⟨whole_member he.all nofun hname, rfl⟩
  · exact .after fun _ => .bind h.carries.computedName.yields fun name hname => .after fun loc =>
      .pureSome ⟨whole_member he.all nofun hname, rfl⟩
  · exact .bind (h.template true) fun t ht => .after fun loc =>
      .pureSome ⟨whole_taggedTemplate he.all ht, rfl⟩
  · exact .bind (h.template true) fun t ht => .after fun loc =>
      .pureSome ⟨whole_taggedTemplate he.all ht, rfl⟩
  · exact .none

theorem optionalAccess (start : Position) {e : Expr} (he : e.Whole Node.Joined)
    (harrow : e.isArrow = false) : (g.optionalAccess start e).Yields fun a =>
      a.Whole Node.Joined ∧ a.isArrow = false := by
  refine .after fun _ => .after fun isCall => .ite ?_ (.after fun isComputed => .ite ?_ ?_)
  · exact .bind h.carries.arguments.yields fun arguments ha => .after fun loc =>
      .pure ⟨whole_call he.all harrow ha, rfl⟩
  · exact .bind h.carries.computedName.yields fun name hname => .after fun loc =>
      .pure ⟨whole_member he.all (fun _ => harrow) hname, rfl⟩
  · exact .bind h.carries.memberName.yields fun name hname => .after fun loc =>
      .pure ⟨whole_member he.all (fun _ => harrow) hname, rfl⟩

theorem access? (start : Position) {e : Expr} (he : e.Whole Node.Joined ∧ e.isArrow = false) :
    (g.access? start e).Yields fun e' => ∀ a ∈ e', a.Whole Node.Joined ∧ a.isArrow = false := by
  refine .after fun kind => ?_
  split
  · exact .bind (h.optionalAccess start he.1 he.2) fun a ha => .pureSome ha
  · exact .bind h.carries.arguments.yields fun arguments ha => .after fun loc =>
      .pureSome ⟨whole_call he.1.all he.2 ha, rfl⟩
  · exact h.memberAccess? start he.1

theorem newCallee : g.newCallee.Yields (Expr.Whole Node.Joined) := by
  refine .after fun start => .after fun isNew => .join h.newExpr h.primary fun first hfirst => ?_
  -- whether the operand is an arrow function is not looked at here, so nothing is kept of it
  have hstep (e : Expr) (he : e.Whole Node.Joined) :
      (g.memberAccess? start e).Tells (fun _ => True) fun e' => ∀ a ∈ e', a.Whole Node.Joined :=
    ((h.memberAccess? start he).mono fun e' he' a ha => (he' a ha).1).tells
  refine .bind (Carries.accesses hstep hfirst).yields fun callee hcallee => ?_
  exact .after fun _ => .ite (.after fun _ => .fail _ _) (.pure hcallee)

theorem newBody : g.newBody.Yields (Expr.Whole Node.Joined) := by
  refine .after fun start => .after fun word => .after fun isMeta =>
    .ite (h.carries.newTarget start word).yields ?_
  refine .bind h.newCallee fun callee hcallee => ?_
  refine .after fun hasArguments => ?_
  refine .join h.carries.arguments.yields (.pure (List.forall_mem_nil _)) fun arguments ha => ?_
  refine .after fun loc => .pure ⟨.intro trivial ?_, rfl, rfl⟩
  exact List.forall_mem_cons.2 ⟨hcallee.all, List.forall_mem_map.2 ha⟩

theorem leftHandSideBody : g.leftHandSideBody.Yields (Expr.Whole Node.Joined) := by
  refine .after fun start => .after fun isNew => .join h.newBody h.primary fun e he => ?_
  -- an arrow function is given back as it is, and what is accessed is none from then on
  refine fun env => .choice (fun _ => .pure he) fun harrow => ?_
  have haccesses := Carries.accesses (fun e he => (h.access? start he).tells)
    ⟨he, Bool.eq_false_iff.2 harrow⟩
  exact (haccesses.mono fun _ ha => ha.1).yields env

omit h in
/-- Only names and member accesses pass the check. -/
theorem checkUpdateTarget (e : Expr) :
    (Grammar.checkUpdateTarget e).Yields fun _ => e.unparenthesized.isSimpleTarget := fun _ =>
  .choice (fun hsimple => .pure hsimple) fun _ => .fail _ _

omit h in
theorem whole_update {loc : Span} {op : UpdateOp} {isBefore : Bool} {e : Expr}
    (he : (Node.expr e).All Node.Joined) (hsimple : e.unparenthesized.isSimpleTarget) :
    (Expr.update loc op isBefore e).Whole Node.Joined :=
  ⟨.intro hsimple (List.forall_mem_singleton.2 he), rfl, rfl⟩

theorem postfixOperand (start : Position) :
    (g.postfixOperand start).Yields (Expr.Whole Node.Joined) := by
  refine .bind h.leftHandSideBody fun e he => .after fun kind => ?_
  split
  · exact .pure he
  · refine .after fun _ => .ite (.pure he) (.bind (checkUpdateTarget e) fun _ hsimple => ?_)
    exact .after fun _ => .after fun loc => .pure (whole_update he.all hsimple)

theorem unaryBody : g.unaryBody.Yields (Expr.Whole Node.Joined) := by
  refine .after fun start => .after fun _ => .after fun _ => ?_
  split
  · refine .after fun _ => .bind h.unary fun argument ha => .after fun loc => .pure ⟨?_, rfl, rfl⟩
    exact .intro trivial (List.forall_mem_singleton.2 ha.all)
  · exact .after fun _ => .bind h.unary fun argument ha => .bind (checkUpdateTarget argument)
      fun _ hsimple => .after fun loc => .pure (whole_update ha.all hsimple)
  · refine .after fun around => .after fun t => .ite ?_ (h.postfixOperand start)
    refine .after fun _ => .bind h.unary fun argument ha => .after fun loc => .pure ⟨?_, rfl, rfl⟩
    exact .intro trivial (List.forall_mem_singleton.2 ha.all)

/-! ## Operations -/

omit h in
/-- A test for a private name stands before any operator at which the operand to its right has
ended. -/
theorem leads_privateIn {floor : Nat} {next : Option InfixOp} {loc : Span} {name : PrivateName}
    {right : Expr} (hfloor : floor < BinaryOp.in.precedence)
    (hright : right.Ends (InfixOp.binary .in).rightFloor next) :
    (Expr.privateIn loc name right).Leads floor next := by
  refine ⟨.intro hright.tighter (List.forall_mem_singleton.2 hright.all), ⟨rfl, ?_⟩, ?_⟩
  · rintro _ _ ⟨⟩
    exact hfloor
  · rintro _ _ ⟨⟩ hlast op hop
    exact (InfixOp.binary .in).next_looser (hright.next_looser hlast op hop)

theorem privateIn (start : Position) (floor : Nat) (env : Surrounding) (s : ParserState) :
    Leaves env s (g.privateIn start floor) fun e s' => e.Leads floor (nextOperator? env s') := by
  refine .after fun around s => .ite (fun _ => .unexpected) fun hfloor => ?_
  replace hfloor : floor < BinaryOp.in.precedence := by
    rw [Bool.or_eq_true, decide_eq_true_eq] at hfloor
    omega
  refine .after fun next s => .ite (fun _ => .unexpected) fun _ => .after fun t s =>
    .after fun _ s => ?_
  refine .bind (h.operation _ env s) fun right s hright => .spanFrom (.pure ?_)
  exact leads_privateIn hfloor hright

/-- The loop over the operators after an operand: what has been read so far stands before the next
one. -/
theorem operations (start : Position) (floor : Nat) (env : Surrounding) (s : ParserState)
    {first : Expr} (hfirst : first.Leads floor (nextOperator? env s))
    (harrow : first.isArrow = false) :
    Leaves env s (g.operations start floor first) fun e s' =>
      e.Ends floor (nextOperator? env s') := by
  refine .repeatFrom (P := fun left s =>
    left.Leads floor (nextOperator? env s) ∧ left.isArrow = false) ?_ ⟨hfirst, harrow⟩
  rintro left s ⟨hleft, harrow⟩
  refine .bind (Parser.leaves_operator? floor) fun found s' ⟨hs, hfound⟩ => ?_
  subst hs
  cases found with
  | none => exact .pure (hleft.ends hfound.symm)
  | some op =>
    -- `op` is the operator that `left` stands before, so it is looser than the one inside of `left`
    obtain ⟨hnext, hfloor⟩ := Option.filter_eq_some_iff.1 hfound.symm
    refine .ite (fun _ => .fail _ _) fun hunary => .after fun _ s => ?_
    refine .bind (h.operation _ env s) fun right s hright => .spanFrom (.pure ⟨?_, ?_⟩)
    · refine Expr.leads_apply hleft harrow hnext (of_decide_eq_true hfloor) (fun hexp => ?_) hright
      simpa [hexp] using hunary
    · exact op.isArrow_apply ..

theorem operationBody (floor : Nat) (env : Surrounding) (s : ParserState) :
    Leaves env s (g.operationBody floor) fun e s' => e.Ends floor (nextOperator? env s') := by
  refine .after fun start s => .after fun isPrivate s => ?_
  have hunary : Leaves env s g.unaryBody fun e s' => e.Leads floor (nextOperator? env s') :=
    .mono (.of_yields h.unaryBody) fun e s' he => he.leads
  refine .join (fun _ => h.privateIn start floor env s) (fun _ => hunary) fun first s hfirst => ?_
  -- what follows an arrow function may bind as tightly as it likes, since the loop is left out
  refine .ite (fun harrow => .pure (hfirst.ends_of_isArrow harrow)) fun harrow => ?_
  exact h.operations start floor env s hfirst (Bool.eq_false_iff.2 harrow)

theorem conditional : g.conditional.Yields fun e => (Node.expr e).All Node.Joined := by
  have htest : (g.operationBody 0).Yields fun e => (Node.expr e).All Node.Joined :=
    Leaves.yields fun env s => .mono (h.operationBody 0 env s) fun e s' he => he.all
  refine .after fun start => .bind htest fun test ht env =>
    .choice (fun _ => .pure ht) fun harrow => ?_
  -- what is left to read once the test is known to be no arrow function
  have hchoice : (do if ← Parser.eatMark .question then
                       let consequent ← Parser.allowIn g.assignment
                       Parser.expectMark .colon
                       let alternate ← g.assignment
                       return .conditional (← Parser.spanFrom start) test consequent alternate
                     else return test : Parser Expr).Yields
      fun e => (Node.expr e).All Node.Joined := by
    refine .after fun isChoice => .ite ?_ (.pure ht)
    refine .bind h.assignment.allowIn fun consequent hc => .after fun _ =>
      .bind h.assignment fun alternate ha => .after fun loc => .pure ?_
    refine .intro (Bool.eq_false_iff.2 harrow) (List.forall_mem_cons.2 ⟨ht, ?_⟩)
    exact List.forall_mem_cons.2 ⟨hc, List.forall_mem_singleton.2 ha⟩
  exact hchoice env

/-! ## Assignments -/

theorem yieldExpression : g.yieldExpression.Yields fun e => (Node.expr e).All Node.Joined := by
  have hargument {loc : Span} {delegate : Bool} {argument : Expr}
      (ha : (Node.expr argument).All Node.Joined) :
      (Node.expr (.yield loc delegate (some argument))).All Node.Joined :=
    h.of.intro rfl (List.forall_mem_singleton.2 ha)
  refine .after fun start => .after fun _ => .after fun isAlone => .ite ?_ ?_
  · exact .after fun loc => .pure (h.of.leaf rfl rfl)
  · refine .after fun delegates => .ite ?_ (.after fun around => .after fun kind => .ite ?_ ?_)
    · exact .bind h.assignment fun argument ha => .after fun loc => .pure (hargument ha)
    · exact .after fun loc => .pure (h.of.leaf rfl rfl)
    · exact .bind h.assignment fun argument ha => .after fun loc => .pure (hargument ha)

theorem conditionalOrAssignment :
    g.conditionalOrAssignment.Yields fun e => (Node.expr e).All Node.Joined :=
  (h.carries.conditionalOrAssignment h.conditional.tells).yields

theorem assignmentBody : g.assignmentBody.Yields fun e => (Node.expr e).All Node.Joined :=
  .after fun _ => .after fun _ => .ite h.yieldExpression h.conditionalOrAssignment

end Grammar.Orders

/-! ## The grammar of all levels -/

/-- At the limit of nesting nothing is read. -/
theorem Grammar.orders_limit : Grammar.limit.Orders where
  of := Node.joined_ofOperations
  statement _ := .after fun _ => .fail _ _
  assignment := .after fun _ => .fail _ _
  leftHandSide := .after fun _ => .fail _ _
  arrayPattern := .after fun _ => .fail _ _
  objectPattern := .after fun _ => .fail _ _
  operation _ _ _ := .after fun _ _ => .fail _ _
  unary := .after fun _ => .fail _ _
  newExpr := .after fun _ => .fail _ _

/-- A level more around a grammar that keeps operators in order keeps them in order. -/
theorem Grammar.Orders.deeper {g : Grammar} (h : g.Orders) : g.deeper.Orders where
  of := h.of
  statement := h.statementBody
  assignment := h.assignmentBody
  leftHandSide := h.leftHandSideBody.mono fun _ he => he.all
  arrayPattern := h.carries.arrayPatternBody.yields
  objectPattern := h.carries.objectPatternBody.yields
  operation := h.operationBody
  unary := h.unaryBody
  newExpr := h.newBody

theorem Grammar.orders_nest (n : Nat) : (Grammar.nest n).Orders := by
  induction n with
  | zero => exact orders_limit
  | succ n ih => exact ih.deeper

/-- **Operators in order.** In a tree that has been read every operator has operands that it may
have: tighter operators to its right, operators that are as tight at least to its left, and no
assignment, conditional, list, `yield` or spread on either side. -/
theorem joined_of_parse {options : Options} {source : List Char} {p : Program}
    (h : parse options source = .ok p) : ∀ s ∈ p.body, (Node.stmt s).All Node.Joined :=
  YieldsIn.of_parse ((Grammar.orders_nest Grammar.maxNesting).program _) h

/-- Operators of several precedences, one after the other, with an arrow function to the right. -/
theorem joined_of_parse_mixed :
    ∃ p, parse ⟨.script, false, false⟩ "a ** b ** c * -d - e < f && g ?? h => i".toList = .ok p ∧
      p.body.length = 1 ∧ ∀ s ∈ p.body, (Node.stmt s).All Node.Joined := by
  have hread : (parse ⟨.script, false, false⟩ "a ** b ** c * -d - e < f && g ?? h => i".toList
      ).toOption.any fun p => p.body.length = 1 := by decide +kernel
  cases h : parse ⟨.script, false, false⟩ "a ** b ** c * -d - e < f && g ?? h => i".toList with
  | error e =>
    rw [h] at hread
    cases hread
  | ok p =>
    rw [h] at hread
    exact ⟨p, rfl, of_decide_eq_true hread, joined_of_parse h⟩

end WithScope
