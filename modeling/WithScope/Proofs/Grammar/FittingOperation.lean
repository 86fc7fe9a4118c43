import WithScope.Grammar.Operation
import WithScope.Proofs.Grammar.FittingPrimary

/-!
# Operations fit where they are read

Member accesses, calls, operators and assignments. Three expressions depend on what surrounds them:
`new.target`, `await` and `yield`. The first is an error where the surrounding does not allow it; the
other two are names there, so the words alone do not make an operator.
-/

namespace WithScope

open WithScope.Parser (YieldsIn)

namespace Grammar.Fitting

variable {g : Grammar} (h : g.Fitting) {env : Surrounding} {fs : List Frame}
  (hd : env.Describes fs)
include h hd

/-! ## Member accesses and calls -/

omit h hd in
theorem memberName :
    Grammar.memberName.YieldsIn env fun name => (Node.memberName name).Fits env.options fs :=
  .after fun _ => .ite (.after fun _ => .pure (.leaf trivial rfl))
    (.after fun _ => .pure (.leaf trivial rfl))

theorem computedName :
    g.bracketExpression.YieldsIn env fun e =>
      (Node.memberName (.computed e)).Fits env.options fs :=
  (h.bracketExpression hd).mono fun _ he => .intro trivial (List.forall_mem_singleton.2 he)

omit h hd in
/-- An access fits where the operand and the name do. -/
theorem fits_member {o : Options} {loc : Span} {e : Expr} {name : MemberName} {isOptional : Bool}
    (he : (Node.expr e).Fits o fs) (hname : (Node.memberName name).Fits o fs) :
    (Node.expr (.member loc e name isOptional)).Fits o fs :=
  .intro trivial (List.forall_mem_cons.2 ⟨he, List.forall_mem_singleton.2 hname⟩)

omit h hd in
/-- A call fits where the operand and the arguments do. -/
theorem fits_call {o : Options} {loc : Span} {e : Expr} {arguments : List Expr} {isOptional : Bool}
    (he : (Node.expr e).Fits o fs) (ha : ∀ e ∈ arguments, (Node.expr e).Fits o fs) :
    (Node.expr (.call loc e arguments isOptional)).Fits o fs :=
  .intro trivial (List.forall_mem_cons.2 ⟨he, List.forall_mem_map.2 ha⟩)

omit h hd in
/-- A tagged template fits where the tag and the template do. -/
theorem fits_taggedTemplate {o : Options} {loc : Span} {e : Expr} {t : Template}
    (he : (Node.expr e).Fits o fs) (ht : (Node.template t).Fits o fs) :
    (Node.expr (.taggedTemplate loc e t)).Fits o fs :=
  .intro trivial (List.forall_mem_cons.2 ⟨he, List.forall_mem_singleton.2 ht⟩)

theorem memberAccess? (start : Position) {e : Expr} (he : (Node.expr e).Fits env.options fs) :
    (g.memberAccess? start e).YieldsIn env fun e' =>
      ∀ a ∈ e', (Node.expr a).Fits env.options fs := by
  refine .after fun kind => ?_
  split
  · exact .after fun _ => .bind memberName fun name hname => .after fun loc =>
      .pureSome (fits_member he hname)
  · exact .after fun _ => .bind (h.computedName hd) fun name hname => .after fun loc =>
      .pureSome (fits_member he hname)
  · exact .bind (h.template hd true) fun t ht => .after fun loc =>
      .pureSome (fits_taggedTemplate he ht)
  · exact .bind (h.template hd true) fun t ht => .after fun loc =>
      .pureSome (fits_taggedTemplate he ht)
  · exact .none

theorem optionalAccess (start : Position) {e : Expr} (he : (Node.expr e).Fits env.options fs) :
    (g.optionalAccess start e).YieldsIn env fun e' => (Node.expr e').Fits env.options fs := by
  refine .after fun _ => .after fun isCall => .ite ?_ (.after fun isComputed => .ite ?_ ?_)
  · exact .bind (h.arguments hd) fun arguments ha => .after fun loc => .pure (fits_call he ha)
  · exact .bind (h.computedName hd) fun name hname => .after fun loc =>
      .pure (fits_member he hname)
  · exact .bind memberName fun name hname => .after fun loc => .pure (fits_member he hname)

theorem access? (start : Position) {e : Expr} (he : (Node.expr e).Fits env.options fs) :
    (g.access? start e).YieldsIn env fun e' => ∀ a ∈ e', (Node.expr a).Fits env.options fs := by
  refine .after fun kind => ?_
  split
  · exact .bind (h.optionalAccess hd start he) fun e' he' => .pureSome he'
  · exact .bind (h.arguments hd) fun arguments ha => .after fun loc =>
      .pureSome (fits_call he ha)
  · exact h.memberAccess? hd start he

omit h hd in
theorem accesses {step : Expr → Parser (Option Expr)}
    (hstep : ∀ e, (Node.expr e).Fits env.options fs →
      (step e).YieldsIn env fun e' => ∀ a ∈ e', (Node.expr a).Fits env.options fs)
    {e : Expr} (he : (Node.expr e).Fits env.options fs) :
    (Grammar.accesses step e).YieldsIn env fun e' => (Node.expr e').Fits env.options fs := by
  refine .repeatFrom (P := fun e => (Node.expr e).Fits env.options fs)
    (fun e he => .bind (hstep e he) fun e' he' => ?_) he
  cases e' with
  | none => exact .pure he
  | some a => exact .pure (he' a rfl)

/-! ## `new` -/

omit h in
theorem newTarget (start : Position) (word : Token) :
    (Grammar.newTarget start word).YieldsIn env fun e => (Node.expr e).Fits env.options fs := by
  refine .after fun property => .ite (.fail _ _) (.context (.choice (fun _ => .fail _ _) ?_))
  intro hallowed
  rw [Bool.not_eq_true, Bool.not_eq_false'] at hallowed
  exact .after fun loc => .pure (.leaf (fun _ => hd.newTarget.1 hallowed) rfl)

theorem newCallee : g.newCallee.YieldsIn env fun e => (Node.expr e).Fits env.options fs := by
  refine .after fun start => .after fun isNew => .join (h.newExpr hd) (h.primary hd)
    fun first hfirst => ?_
  refine .bind (accesses (fun e he => h.memberAccess? hd start he) hfirst) fun callee hcallee => ?_
  exact .after fun _ => .ite (.after fun _ => .fail _ _) (.pure hcallee)

theorem newBody : g.newBody.YieldsIn env fun e => (Node.expr e).Fits env.options fs := by
  refine .after fun start => .after fun word => .after fun isMeta =>
    .ite (newTarget hd start word) ?_
  refine .bind (h.newCallee hd) fun callee hcallee => ?_
  refine .after fun hasArguments => ?_
  refine .join (h.arguments hd) (.pure (List.forall_mem_nil _)) fun arguments ha => ?_
  refine .after fun loc => .pure (.intro trivial ?_)
  exact List.forall_mem_cons.2 ⟨hcallee, List.forall_mem_map.2 ha⟩

theorem leftHandSideBody :
    g.leftHandSideBody.YieldsIn env fun e => (Node.expr e).Fits env.options fs := by
  refine .after fun start => .after fun isNew => .join (h.newBody hd) (h.primary hd)
    fun e he => ?_
  exact .ite (.pure he) (accesses (fun e he => h.access? hd start he) he)

/-! ## Operators of one operand -/

theorem postfixOperand (start : Position) :
    (g.postfixOperand start).YieldsIn env fun e => (Node.expr e).Fits env.options fs := by
  refine .bind (h.leftHandSideBody hd) fun e he => .after fun kind => ?_
  split
  · exact .pure he
  · refine .after fun _ => .ite (.pure he) (.after fun _ => .after fun _ => .after fun loc => ?_)
    exact .pure (.intro trivial (List.forall_mem_singleton.2 he))

theorem unaryBody : g.unaryBody.YieldsIn env fun e => (Node.expr e).Fits env.options fs := by
  refine .after fun start => .after fun _ => .after fun _ => ?_
  split
  · refine .after fun _ => .bind (h.unary hd) fun argument ha => .after fun loc => .pure ?_
    exact .intro trivial (List.forall_mem_singleton.2 ha)
  · refine .after fun _ => .bind (h.unary hd) fun argument ha => .after fun _ =>
      .after fun loc => .pure ?_
    exact .intro trivial (List.forall_mem_singleton.2 ha)
  · refine .context (.after fun t => .choice (fun hawait => ?_) fun _ => h.postfixOperand hd start)
    have hallowed := hd.awaitAllowed.1 (Bool.and_eq_true_iff.1 hawait).1
    refine .after fun _ => .bind (h.unary hd) fun argument ha => .after fun loc => .pure ?_
    exact .intro hallowed (List.forall_mem_singleton.2 ha)

/-! ## Operators of two operands -/

theorem privateIn (start : Position) (floor : Nat) :
    (g.privateIn start floor).YieldsIn env fun e => (Node.expr e).Fits env.options fs := by
  refine .after fun around => .ite .unexpected (.after fun next => .ite .unexpected ?_)
  refine .after fun t => .after fun _ => .bind (h.operation hd _) fun right hr =>
    .after fun loc => .pure ?_
  exact .intro trivial (List.forall_mem_singleton.2 hr)

omit h hd in
/-- Two operands with an operator between them fit where the operands do. -/
theorem fits_apply {o : Options} {loc : Span} {left right : Expr} (op : InfixOp)
    (hl : (Node.expr left).Fits o fs) (hr : (Node.expr right).Fits o fs) :
    (Node.expr (op.apply loc left right)).Fits o fs := by
  cases op <;>
    exact .intro trivial (List.forall_mem_cons.2 ⟨hl, List.forall_mem_singleton.2 hr⟩)

theorem operations (start : Position) (floor : Nat) {first : Expr}
    (hfirst : (Node.expr first).Fits env.options fs) :
    (g.operations start floor first).YieldsIn env fun e => (Node.expr e).Fits env.options fs := by
  refine .repeatFrom (P := fun e => (Node.expr e).Fits env.options fs)
    (fun left hleft => .after fun op => ?_) hfirst
  split
  · exact .pure hleft
  · refine .ite (.fail _ _) (.after fun _ => .bind (h.operation hd _) fun right hright => ?_)
    exact .after fun loc => .pure (fits_apply _ hleft hright)

theorem operationBody (floor : Nat) :
    (g.operationBody floor).YieldsIn env fun e => (Node.expr e).Fits env.options fs := by
  refine .after fun start => .after fun isPrivate =>
    .join (h.privateIn hd start floor) (h.unaryBody hd) fun first hfirst => ?_
  exact .ite (.pure hfirst) (h.operations hd start floor hfirst)

theorem conditional : g.conditional.YieldsIn env fun e => (Node.expr e).Fits env.options fs := by
  refine .after fun start => .bind (h.operationBody hd 0) fun test ht => .ite (.pure ht) ?_
  refine .after fun isChoice => .ite ?_ (.pure ht)
  refine .bind (h.enclosedAssignment hd) fun consequent hc => .after fun _ =>
    .bind (h.assignment hd) fun alternate ha => .after fun loc => .pure (.intro trivial ?_)
  exact List.forall_mem_cons.2
    ⟨ht, List.forall_mem_cons.2 ⟨hc, List.forall_mem_singleton.2 ha⟩⟩

/-! ## Assignments -/

omit h hd in
/-- The target that an expression spells fits where the expression does. -/
theorem fits_assignTarget {o : Options} {op : AssignOp} {left : Expr}
    (hl : (Node.expr left).Fits o fs) {p : Pat} (hp : Grammar.assignTarget op left = .ok p) :
    (Node.pat .assignment p).Fits o fs := by
  unfold Grammar.assignTarget at hp
  split at hp
  · exact left.fits_toPattern false .assignment hl hp
  · exact left.fits_toSimpleTarget hl hp

theorem yieldExpression (hallowed : env.context.yieldAllowed = true) :
    g.yieldExpression.YieldsIn env fun e => (Node.expr e).Fits env.options fs := by
  have howner := hd.yieldAllowed.1 hallowed
  have hargument {loc : Span} {delegate : Bool} {argument : Expr}
      (ha : (Node.expr argument).Fits env.options fs) :
      (Node.expr (.yield loc delegate (some argument))).Fits env.options fs :=
    .intro howner (List.forall_mem_singleton.2 ha)
  refine .after fun start => .after fun _ => .after fun isAlone => .ite ?_ ?_
  · exact .after fun loc => .pure (.leaf howner rfl)
  · refine .after fun delegates => .ite ?_ (.after fun around => .after fun kind => .ite ?_ ?_)
    · exact .bind (h.assignment hd) fun argument ha => .after fun loc => .pure (hargument ha)
    · exact .after fun loc => .pure (.leaf howner rfl)
    · exact .bind (h.assignment hd) fun argument ha => .after fun loc => .pure (hargument ha)

theorem conditionalOrAssignment :
    g.conditionalOrAssignment.YieldsIn env fun e => (Node.expr e).Fits env.options fs := by
  refine .after fun start => .bind (h.conditional hd) fun left hleft => .after fun kind => ?_
  split
  · exact .pure hleft
  · refine .ite (.pure hleft) (.bind (.ofExcept fun p hp => fits_assignTarget hleft hp) ?_)
    intro target htarget
    refine .after fun _ => .bind (h.assignment hd) fun right hright => .after fun loc =>
      .pure (.intro trivial ?_)
    exact List.forall_mem_cons.2 ⟨htarget, List.forall_mem_singleton.2 hright⟩

theorem assignmentBody :
    g.assignmentBody.YieldsIn env fun e => (Node.expr e).Fits env.options fs := by
  refine .context (.after fun t => .choice (fun hyield => ?_) fun _ =>
    h.conditionalOrAssignment hd)
  exact h.yieldExpression hd (Bool.and_eq_true_iff.1 hyield).1

end Grammar.Fitting

end WithScope
