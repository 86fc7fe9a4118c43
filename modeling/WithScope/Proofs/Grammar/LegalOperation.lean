import WithScope.Grammar.Operation
import WithScope.Proofs.Grammar.LegalPrimary

/-!
# Operations are read as legal trees

Member accesses, calls, operators and assignments. What stands to the left of an assignment is read
again as a pattern, which for any operator but `=` is a name or a member access.
-/

namespace WithScope

open WithScope.Parser (Yields)

namespace Grammar.Legal

variable {g : Grammar} (h : g.Legal)
include h

/-! ## Member accesses and calls -/

omit h in
theorem memberName : Grammar.memberName.Yields fun name => (Node.memberName name).Legal :=
  .after fun _ => .ite (.after fun _ => .pure (.leaf trivial rfl))
    (.after fun _ => .pure (.leaf trivial rfl))

omit h in
/-- An access to a legal operand. -/
theorem operand_member {loc : Span} {e : Expr} {name : MemberName} {isOptional : Bool}
    (he : e.Operand) (hname : (Node.memberName name).Legal) :
    (Expr.member loc e name isOptional).Operand :=
  ⟨.intro trivial (List.forall_mem_cons.2 ⟨he.legal, List.forall_mem_singleton.2 hname⟩), rfl⟩

omit h in
/-- A call of a legal operand. -/
theorem operand_call {loc : Span} {e : Expr} {arguments : List Expr} {isOptional : Bool}
    (he : e.Operand) (ha : ∀ e ∈ arguments, (Node.expr e).Legal) :
    (Expr.call loc e arguments isOptional).Operand :=
  ⟨.intro trivial (List.forall_mem_cons.2 ⟨he.legal, List.forall_mem_map.2 ha⟩), rfl⟩

omit h in
/-- A legal operand before a template. -/
theorem operand_taggedTemplate {loc : Span} {e : Expr} {t : Template} (he : e.Operand)
    (ht : (Node.template t).Legal) : (Expr.taggedTemplate loc e t).Operand :=
  ⟨.intro trivial (List.forall_mem_cons.2 ⟨he.legal, List.forall_mem_singleton.2 ht⟩), rfl⟩

theorem computedName :
    g.bracketExpression.Yields fun e => (Node.memberName (.computed e)).Legal :=
  h.bracketExpression.mono fun _ he => .intro trivial (List.forall_mem_singleton.2 he)

theorem memberAccess? (start : Position) {e : Expr} (he : e.Operand) :
    (g.memberAccess? start e).Yields fun e' => ∀ a ∈ e', a.Operand := by
  refine .after fun kind => ?_
  split
  · exact .after fun _ => .bind memberName fun name hname => .after fun loc =>
      .pureSome (operand_member he hname)
  · exact .after fun _ => .bind h.computedName fun name hname => .after fun loc =>
      .pureSome (operand_member he hname)
  · exact .bind (h.template true) fun t ht => .after fun loc =>
      .pureSome (operand_taggedTemplate he ht)
  · exact .bind (h.template true) fun t ht => .after fun loc =>
      .pureSome (operand_taggedTemplate he ht)
  · exact .none

theorem optionalAccess (start : Position) {e : Expr} (he : e.Operand) :
    (g.optionalAccess start e).Yields Expr.Operand := by
  refine .after fun _ => .after fun isCall => .ite ?_ (.after fun isComputed => .ite ?_ ?_)
  · exact .bind h.arguments fun arguments ha => .after fun loc => .pure (operand_call he ha)
  · exact .bind h.computedName fun name hname => .after fun loc => .pure (operand_member he hname)
  · exact .bind memberName fun name hname => .after fun loc => .pure (operand_member he hname)

theorem access? (start : Position) {e : Expr} (he : e.Operand) :
    (g.access? start e).Yields fun e' => ∀ a ∈ e', a.Operand := by
  refine .after fun kind => ?_
  split
  · exact .bind (h.optionalAccess start he) fun e' he' => .pureSome he'
  · exact .bind h.arguments fun arguments ha => .after fun loc => .pureSome (operand_call he ha)
  · exact h.memberAccess? start he

omit h in
theorem accesses {step : Expr → Parser (Option Expr)}
    (hstep : ∀ e, e.Operand → (step e).Yields fun e' => ∀ a ∈ e', a.Operand) {e : Expr}
    (he : e.Operand) : (Grammar.accesses step e).Yields Expr.Operand := by
  refine .repeatFrom (P := Expr.Operand) (fun e he => .bind (hstep e he) fun e' he' => ?_) he
  cases e' with
  | none => exact .pure he
  | some a => exact .pure (he' a rfl)

/-! ## `new` -/

omit h in
theorem newTarget (start : Position) (word : Token) :
    (Grammar.newTarget start word).Yields Expr.Operand :=
  .after fun _ => .ite (.fail _ _) (.after fun _ => .ite (.fail _ _)
    (.after fun _ => .pure ⟨.leaf trivial rfl, rfl⟩))

theorem newCallee : g.newCallee.Yields Expr.Operand := by
  refine .after fun start => .after fun isNew => .join h.newExpr h.primary fun first hfirst => ?_
  refine .bind (accesses (fun e he => h.memberAccess? start he) hfirst) fun callee hcallee => ?_
  exact .after fun _ => .ite (.after fun _ => .fail _ _) (.pure hcallee)

theorem newBody : g.newBody.Yields Expr.Operand := by
  refine .after fun start => .after fun word => .after fun isMeta => .ite (newTarget start word) ?_
  refine .bind h.newCallee fun callee hcallee => ?_
  refine .after fun hasArguments => ?_
  refine .join h.arguments (.pure (List.forall_mem_nil _)) fun arguments ha => ?_
  refine .after fun loc => .pure ⟨.intro trivial ?_, rfl⟩
  exact List.forall_mem_cons.2 ⟨hcallee.legal, List.forall_mem_map.2 ha⟩

theorem leftHandSideBody : g.leftHandSideBody.Yields Expr.Operand := by
  refine .after fun start => .after fun isNew => .join h.newBody h.primary fun e he => ?_
  exact .ite (.pure he) (accesses (fun e he => h.access? start he) he)

/-! ## Operators of one operand -/

theorem postfixOperand (start : Position) : (g.postfixOperand start).Yields Expr.Operand := by
  refine .bind h.leftHandSideBody fun e he => .after fun kind => ?_
  split
  · exact .pure he
  · refine .after fun _ => .ite (.pure he) (.after fun _ => .after fun _ => .after fun loc => ?_)
    exact .pure ⟨.intro trivial (List.forall_mem_singleton.2 he.legal), rfl⟩

theorem unaryBody : g.unaryBody.Yields Expr.Operand := by
  refine .after fun start => .after fun _ => .after fun _ => ?_
  split
  · refine .after fun _ => .bind h.unary fun argument ha => .after fun loc => .pure ⟨?_, rfl⟩
    exact .intro trivial (List.forall_mem_singleton.2 ha.legal)
  · refine .after fun _ => .bind h.unary fun argument ha => .after fun _ => .after fun loc =>
      .pure ⟨?_, rfl⟩
    exact .intro trivial (List.forall_mem_singleton.2 ha.legal)
  · refine .after fun around => .after fun t => .ite ?_ (h.postfixOperand start)
    refine .after fun _ => .bind h.unary fun argument ha => .after fun loc => .pure ⟨?_, rfl⟩
    exact .intro trivial (List.forall_mem_singleton.2 ha.legal)

/-! ## Operators of two operands -/

theorem privateIn (start : Position) (floor : Nat) :
    (g.privateIn start floor).Yields Expr.Operand := by
  refine .after fun around => .ite .unexpected (.after fun next => .ite .unexpected ?_)
  refine .after fun t => .after fun _ => .bind (h.operation _) fun right hr => .after fun loc =>
    .pure ⟨?_, rfl⟩
  exact .intro trivial (List.forall_mem_singleton.2 hr.legal)

omit h in
/-- Two legal operands with an operator between them. -/
theorem operand_apply {loc : Span} {left right : Expr} (op : InfixOp) (hl : left.Operand)
    (hr : right.Operand) : (op.apply loc left right).Operand := by
  have hchildren : ∀ c ∈ [Node.expr left, .expr right], c.Legal :=
    List.forall_mem_cons.2 ⟨hl.legal, List.forall_mem_singleton.2 hr.legal⟩
  cases op with
  | binary op => exact ⟨.intro trivial hchildren, rfl⟩
  | logical op => exact ⟨.intro trivial hchildren, rfl⟩

theorem operations (start : Position) (floor : Nat) {first : Expr} (hfirst : first.Operand) :
    (g.operations start floor first).Yields Expr.Operand := by
  refine .repeatFrom (P := Expr.Operand) (fun left hleft => .after fun op => ?_) hfirst
  split
  · exact .pure hleft
  · refine .ite (.fail _ _) (.after fun _ => .bind (h.operation _) fun right hright => ?_)
    exact .after fun loc => .pure (operand_apply _ hleft hright)

theorem operationBody (floor : Nat) : (g.operationBody floor).Yields Expr.Operand := by
  refine .after fun start => .after fun isPrivate =>
    .join (h.privateIn start floor) h.unaryBody fun first hfirst => ?_
  exact .ite (.pure hfirst) (h.operations start floor hfirst)

theorem conditional : g.conditional.Yields Expr.Operand := by
  refine .after fun start => .bind (h.operationBody 0) fun test ht => .ite (.pure ht) ?_
  refine .after fun isChoice => .ite ?_ (.pure ht)
  refine .bind h.assignment.allowIn fun consequent hc => .after fun _ =>
    .bind h.assignment fun alternate ha => .after fun loc => .pure ⟨.intro trivial ?_, rfl⟩
  exact List.forall_mem_cons.2
    ⟨ht.legal, List.forall_mem_cons.2 ⟨hc.legal, List.forall_mem_singleton.2 ha.legal⟩⟩

/-! ## Assignments -/

omit h in
/-- The target that a legal expression spells. -/
theorem assignTarget {op : AssignOp} {left : Expr} (hl : left.Operand) {p : Pat}
    (hp : Grammar.assignTarget op left = .ok p) :
    p.Target .assignment ∧ (op ≠ .assign → p.isSimple) := by
  unfold Grammar.assignTarget at hp
  split at hp
  case isTrue hop =>
    rw [Bool.and_eq_true, decide_eq_true_eq] at hop
    exact ⟨left.target_of_toPattern false hl.legal hp, fun hne => absurd hop.1 hne⟩
  case isFalse =>
    exact ⟨left.target_of_toSimpleTarget hl.legal hp, fun _ => left.isSimple_of_toSimpleTarget hp⟩

theorem yieldExpression : g.yieldExpression.Yields Expr.Operand := by
  have hargument {loc : Span} {delegate : Bool} {argument : Expr} (ha : argument.Operand) :
      (Expr.yield loc delegate (some argument)).Operand :=
    ⟨.intro trivial (List.forall_mem_singleton.2 ha.legal), rfl⟩
  refine .after fun start => .after fun _ => .after fun isAlone => .ite ?_ ?_
  · exact .after fun loc => .pure ⟨.leaf trivial rfl, rfl⟩
  · refine .after fun delegates => .ite ?_ (.after fun around => .after fun kind => .ite ?_ ?_)
    · exact .bind h.assignment fun argument ha => .after fun loc => .pure (hargument ha)
    · exact .after fun loc => .pure ⟨.leaf trivial rfl, rfl⟩
    · exact .bind h.assignment fun argument ha => .after fun loc => .pure (hargument ha)

theorem conditionalOrAssignment : g.conditionalOrAssignment.Yields Expr.Operand := by
  refine .after fun start => .bind h.conditional fun left hleft => .after fun kind => ?_
  split
  · exact .pure hleft
  · refine .ite (.pure hleft) (.bind (.ofExcept fun p hp => assignTarget hleft hp) ?_)
    intro target htarget
    refine .after fun _ => .bind h.assignment fun right hright => .after fun loc => .pure ⟨?_, rfl⟩
    refine .intro ⟨htarget.1.isRest, htarget.2⟩ (List.forall_mem_cons.2 ⟨htarget.1.legal, ?_⟩)
    exact List.forall_mem_singleton.2 hright.legal

theorem assignmentBody : g.assignmentBody.Yields Expr.Operand :=
  .after fun _ => .after fun _ => .ite h.yieldExpression h.conditionalOrAssignment

end Grammar.Legal

end WithScope
