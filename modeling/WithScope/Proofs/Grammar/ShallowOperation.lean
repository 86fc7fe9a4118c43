import WithScope.Grammar.Operation
import WithScope.Proofs.Grammar.ShallowPrimary

/-!
# Operations are read as shallow trees

Member accesses, calls, operators and assignments, of which the deepest add eight levels: an
assignment, its target read again, a conditional, an operand with an operator after it, `new` and
what is called by it. The loops that read chains of accesses and of operators add nothing, since each
round takes what has been read so far as the head of a new expression.
-/

namespace WithScope

open WithScope.Parser (Yields)

namespace Grammar.Shallow

variable {g : Grammar} {k : Nat} (h : g.Shallow k)
include h

/-! ## Member accesses and calls -/

omit h in
theorem memberName : Grammar.memberName.Yields fun name => (Node.memberName name).Shallow k :=
  .after fun _ => .ite (.after fun _ => .pure (.part rfl rfl (List.forall_mem_nil _)))
    (.after fun _ => .pure (.part rfl rfl (List.forall_mem_nil _)))

theorem computedName :
    g.bracketExpression.Yields fun e => (Node.memberName (.computed e)).Shallow (k + 1) :=
  h.bracketExpression.mono fun _ he => .part rfl rfl (List.forall_mem_singleton.2 he)

variable {m : Nat} (hm : k + 1 ≤ m)

omit h in
/-- An access is no deeper than the operand, if the operand is deeper than the name. -/
theorem shallow_member {loc : Span} {e : Expr} {name : MemberName} {isOptional : Bool}
    (he : (Node.expr e).Shallow (m + 1)) (hname : (Node.memberName name).Shallow m) :
    (Node.expr (.member loc e name isOptional)).Shallow (m + 1) :=
  .chain rfl rfl he (List.forall_mem_singleton.2 hname)

omit h in
/-- A call is no deeper than the operand, if the operand is deeper than the arguments. -/
theorem shallow_call {loc : Span} {e : Expr} {arguments : List Expr} {isOptional : Bool}
    (he : (Node.expr e).Shallow (m + 1)) (ha : ∀ e ∈ arguments, (Node.expr e).Shallow m) :
    (Node.expr (.call loc e arguments isOptional)).Shallow (m + 1) :=
  .chain rfl rfl he (List.forall_mem_map.2 ha)

omit h in
/-- A tagged template is no deeper than the tag, if the tag is deeper than the template. -/
theorem shallow_taggedTemplate {loc : Span} {e : Expr} {t : Template}
    (he : (Node.expr e).Shallow (m + 1)) (ht : (Node.template t).Shallow m) :
    (Node.expr (.taggedTemplate loc e t)).Shallow (m + 1) :=
  .chain rfl rfl he (List.forall_mem_singleton.2 ht)

include hm

theorem memberAccess? (start : Position) {e : Expr} (he : (Node.expr e).Shallow (m + 1)) :
    (g.memberAccess? start e).Yields fun e' =>
      ∀ a ∈ e', (Node.expr a).Shallow (m + 1) := by
  refine .after fun kind => ?_
  split
  · exact .after fun _ => .bind memberName fun name hname => .after fun loc =>
      .pureSome (shallow_member he hname)
  · exact .after fun _ => .bind h.computedName fun name hname => .after fun loc =>
      .pureSome (shallow_member he (hname.weaken hm))
  · exact .bind (h.template true) fun t ht => .after fun loc =>
      .pureSome (shallow_taggedTemplate he (ht.weaken hm))
  · exact .bind (h.template true) fun t ht => .after fun loc =>
      .pureSome (shallow_taggedTemplate he (ht.weaken hm))
  · exact .none

theorem optionalAccess (start : Position) {e : Expr} (he : (Node.expr e).Shallow (m + 1)) :
    (g.optionalAccess start e).Yields fun e' => (Node.expr e').Shallow (m + 1) := by
  refine .after fun _ => .after fun isCall => .ite ?_ (.after fun isComputed => .ite ?_ ?_)
  · exact .bind h.arguments fun arguments ha => .after fun loc =>
      .pure (shallow_call he fun e hmem => (ha e hmem).weaken hm)
  · exact .bind h.computedName fun name hname => .after fun loc =>
      .pure (shallow_member he (hname.weaken hm))
  · exact .bind memberName fun name hname => .after fun loc => .pure (shallow_member he hname)

theorem access? (start : Position) {e : Expr} (he : (Node.expr e).Shallow (m + 1)) :
    (g.access? start e).Yields fun e' => ∀ a ∈ e', (Node.expr a).Shallow (m + 1) := by
  refine .after fun kind => ?_
  split
  · exact .bind (h.optionalAccess hm start he) fun e' he' => .pureSome he'
  · exact .bind h.arguments fun arguments ha => .after fun loc =>
      .pureSome (shallow_call he fun e hmem => (ha e hmem).weaken hm)
  · exact h.memberAccess? hm start he

omit h hm in
/-- However many accesses follow an operand, they make it no deeper. -/
theorem accesses {step : Expr → Parser (Option Expr)}
    (hstep : ∀ e, (Node.expr e).Shallow m →
      (step e).Yields fun e' => ∀ a ∈ e', (Node.expr a).Shallow m)
    {e : Expr} (he : (Node.expr e).Shallow m) :
    (Grammar.accesses step e).Yields fun e' => (Node.expr e').Shallow m := by
  refine .repeatFrom (P := fun e => (Node.expr e).Shallow m)
    (fun e he => .bind (hstep e he) fun e' he' => ?_) he
  cases e' with
  | none => exact .pure he
  | some a => exact .pure (he' a rfl)

omit hm

/-! ## `new` -/

omit h in
theorem newTarget (start : Position) (word : Token) :
    (Grammar.newTarget start word).Yields fun e => (Node.expr e).Shallow (k + 1) :=
  .after fun _ => .ite (.fail _ _) (.after fun _ => .ite (.fail _ _)
    (.after fun _ => .pure (.leaf rfl rfl rfl)))

theorem newCallee : g.newCallee.Yields fun e => (Node.expr e).Shallow (k + 3) := by
  have hnew := h.newExpr.mono fun e he => he.weaken (Nat.le_add_right k 3)
  refine .after fun start => .after fun isNew => .join hnew h.primary fun first hfirst => ?_
  refine .bind (accesses (fun e he => h.memberAccess? (Nat.le_succ _) start he) hfirst)
    fun callee hcallee => ?_
  exact .after fun _ => .ite (.after fun _ => .fail _ _) (.pure hcallee)

theorem newBody : g.newBody.Yields fun e => (Node.expr e).Shallow (k + 4) := by
  refine .after fun start => .after fun word => .after fun isMeta => .ite (newTarget start word) ?_
  refine .bind h.newCallee fun callee hcallee => ?_
  refine .after fun hasArguments => ?_
  refine .join h.arguments (.pure (List.forall_mem_nil _)) fun arguments ha => ?_
  refine .after fun loc => ?_
  refine .pure (.succ rfl rfl (List.forall_mem_cons.2 ⟨hcallee, List.forall_mem_map.2 fun e he =>
    ?_⟩))
  exact (ha e he).weaken (Nat.le_add_right (k + 1) 2)

theorem leftHandSideBody : g.leftHandSideBody.Yields fun e => (Node.expr e).Shallow (k + 4) := by
  have hprimary := h.primary.mono fun e he => he.weaken (Nat.le_succ _)
  refine .after fun start => .after fun isNew => .join h.newBody hprimary fun e he => ?_
  exact .ite (.pure he)
    (accesses (fun e he => h.access? (Nat.le_add_right (k + 1) 2) start he) he)

/-! ## Operators of one operand -/

theorem postfixOperand (start : Position) :
    (g.postfixOperand start).Yields fun e => (Node.expr e).Shallow (k + 5) := by
  refine .bind h.leftHandSideBody fun e he => .after fun kind => ?_
  have hoperand := he.weaken (Nat.le_succ _)
  split
  · exact .pure hoperand
  · refine .after fun _ => .ite (.pure hoperand)
      (.after fun _ => .after fun _ => .after fun loc => ?_)
    exact .pure (.succ rfl rfl (List.forall_mem_singleton.2 he))

theorem unaryBody : g.unaryBody.Yields fun e => (Node.expr e).Shallow (k + 5) := by
  have hunary := h.unary.mono fun e he => he.weaken (Nat.le_add_right k 4)
  refine .after fun start => .after fun _ => .after fun _ => ?_
  split
  · refine .after fun _ => .bind hunary fun argument ha => .after fun loc => .pure ?_
    exact .succ rfl rfl (List.forall_mem_singleton.2 ha)
  · refine .after fun _ => .bind hunary fun argument ha => .after fun _ => .after fun loc =>
      .pure ?_
    exact .succ rfl rfl (List.forall_mem_singleton.2 ha)
  · refine .after fun around => .after fun t => .ite ?_ (h.postfixOperand start)
    refine .after fun _ => .bind hunary fun argument ha => .after fun loc => .pure ?_
    exact .succ rfl rfl (List.forall_mem_singleton.2 ha)

/-! ## Operators of two operands -/

theorem privateIn (start : Position) (floor : Nat) :
    (g.privateIn start floor).Yields fun e => (Node.expr e).Shallow (k + 1) := by
  refine .after fun around => .ite .unexpected (.after fun next => .ite .unexpected ?_)
  refine .after fun t => .after fun _ => .bind (h.operation _) fun right hr => .after fun loc =>
    .pure ?_
  exact .succ rfl rfl (List.forall_mem_singleton.2 hr)

omit h in
/-- An operation is no deeper than the left operand, if that is deeper than the right one. -/
theorem shallow_apply {loc : Span} {left right : Expr} (op : InfixOp)
    (hl : (Node.expr left).Shallow (m + 1)) (hr : (Node.expr right).Shallow m) :
    (Node.expr (op.apply loc left right)).Shallow (m + 1) := by
  cases op <;> exact .chain rfl rfl hl (List.forall_mem_singleton.2 hr)

/-- However many operators follow an operand, they make it no deeper. -/
theorem operations (start : Position) (floor : Nat) {first : Expr}
    (hfirst : (Node.expr first).Shallow (k + 5)) :
    (g.operations start floor first).Yields fun e => (Node.expr e).Shallow (k + 5) := by
  refine .repeatFrom (P := fun e => (Node.expr e).Shallow (k + 5))
    (fun left hleft => .after fun op => ?_) hfirst
  split
  · exact .pure hleft
  · refine .ite (.fail _ _) (.after fun _ => .bind (h.operation _) fun right hright => ?_)
    have hright := hright.weaken (Nat.le_add_right k 4)
    exact .after fun loc => .pure (shallow_apply _ hleft hright)

theorem operationBody (floor : Nat) :
    (g.operationBody floor).Yields fun e => (Node.expr e).Shallow (k + 5) := by
  have hprivate (start : Position) := (h.privateIn start floor).mono fun e he =>
    he.weaken (Nat.le_add_right (k + 1) 4)
  refine .after fun start => .after fun isPrivate =>
    .join (hprivate start) h.unaryBody fun first hfirst => ?_
  exact .ite (.pure hfirst) (h.operations start floor hfirst)

theorem conditional : g.conditional.Yields fun e => (Node.expr e).Shallow (k + 6) := by
  have hbranch := h.assignment.mono fun e he => he.weaken (Nat.le_add_right k 5)
  refine .after fun start => .bind (h.operationBody 0) fun test ht =>
    .ite (.pure (ht.weaken (Nat.le_succ _))) ?_
  refine .after fun isChoice => .ite ?_ (.pure (ht.weaken (Nat.le_succ _)))
  refine .bind hbranch.allowIn fun consequent hc => .after fun _ =>
    .bind hbranch fun alternate ha => .after fun loc => .pure (.succ rfl rfl ?_)
  exact List.forall_mem_cons.2
    ⟨ht, List.forall_mem_cons.2 ⟨hc, List.forall_mem_singleton.2 ha⟩⟩

/-! ## Assignments -/

omit h in
/-- The target that an expression spells is deeper than the expression by one at most. -/
theorem shallow_assignTarget {op : AssignOp} {left : Expr} (hl : (Node.expr left).Shallow m)
    {p : Pat} (hp : Grammar.assignTarget op left = .ok p) :
    (Node.pat .assignment p).Shallow (m + 1) := by
  unfold Grammar.assignTarget at hp
  split at hp
  · exact left.shallow_toPattern false .assignment hl hp
  · exact left.shallow_toSimpleTarget hl hp

theorem yieldExpression : g.yieldExpression.Yields fun e => (Node.expr e).Shallow (k + 1) := by
  have hargument {loc : Span} {delegate : Bool} {argument : Expr}
      (ha : (Node.expr argument).Shallow k) :
      (Node.expr (.yield loc delegate (some argument))).Shallow (k + 1) :=
    .succ rfl rfl (List.forall_mem_singleton.2 ha)
  refine .after fun start => .after fun _ => .after fun isAlone => .ite ?_ ?_
  · exact .after fun loc => .pure (.leaf rfl rfl rfl)
  · refine .after fun delegates => .ite ?_ (.after fun around => .after fun kind => .ite ?_ ?_)
    · exact .bind h.assignment fun argument ha => .after fun loc => .pure (hargument ha)
    · exact .after fun loc => .pure (.leaf rfl rfl rfl)
    · exact .bind h.assignment fun argument ha => .after fun loc => .pure (hargument ha)

theorem conditionalOrAssignment :
    g.conditionalOrAssignment.Yields fun e => (Node.expr e).Shallow (k + 8) := by
  refine .after fun start => .bind h.conditional fun left hleft => .after fun kind => ?_
  have hvalue := hleft.weaken (Nat.le_add_right (k + 6) 2)
  split
  · exact .pure hvalue
  · refine .ite (.pure hvalue) (.bind (.ofExcept fun p hp => shallow_assignTarget hleft hp) ?_)
    intro target htarget
    refine .after fun _ => .bind h.assignment fun right hright => .after fun loc =>
      .pure (.succ rfl rfl (List.forall_mem_cons.2 ⟨htarget, List.forall_mem_singleton.2 ?_⟩))
    exact hright.weaken (Nat.le_add_right k 7)

theorem assignmentBody : g.assignmentBody.Yields fun e => (Node.expr e).Shallow (k + 8) := by
  have hyield := h.yieldExpression.mono fun e he => he.weaken (Nat.le_add_right (k + 1) 7)
  exact .after fun _ => .after fun _ => .ite hyield h.conditionalOrAssignment

end Grammar.Shallow

end WithScope
