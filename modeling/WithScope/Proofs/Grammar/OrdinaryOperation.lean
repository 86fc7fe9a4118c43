import WithScope.Grammar.Operation
import WithScope.Proofs.Grammar.OrdinaryPrimary

/-!
# Ordinary parts of operations

Operations are not ordinary, but the names after a point are, and so are assignments: of the targets
that are read again as patterns there is nothing to say.
-/

namespace WithScope.Grammar.Carries

variable {I : ParserState → Prop} [ParserState.Kept I] {P : Node → Prop} {g : Grammar}
  (h : g.Carries I P)
include h

/-! ## Operands -/

theorem memberName : Grammar.memberName.Tells I fun name => (Node.memberName name).All P :=
  .after fun _ => .ite (.after fun _ => .pure (h.off.leaf rfl rfl))
    (.after fun _ => .pure (h.off.leaf rfl rfl))

theorem computedName :
    g.bracketExpression.Tells I fun e => (Node.memberName (.computed e)).All P :=
  h.bracketExpression.mono fun _ he => h.off.intro rfl (List.forall_mem_singleton.2 he)

theorem newTarget (start : Position) (word : Token) :
    (Grammar.newTarget start word).Tells I (Expr.Whole P) :=
  .after fun _ => .ite (.fail _ _) (.after fun _ => .ite (.fail _ _)
    (.after fun _ => .pure ⟨h.off.leaf rfl rfl, rfl, rfl⟩))

omit h [ParserState.Kept I] in
/-- What each access keeps all of them keep. -/
theorem accesses {Q : Expr → Prop} {step : Expr → Parser (Option Expr)}
    (hstep : ∀ e, Q e → (step e).Tells I fun e' => ∀ a ∈ e', Q a) {e : Expr} (he : Q e) :
    (Grammar.accesses step e).Tells I Q := by
  refine .repeatFrom (P := Q) (fun e he => .bind (hstep e he) fun e' he' => ?_) he
  cases e' with
  | none => exact .pure he
  | some a => exact .pure (he' a rfl)

/-! ## Assignments -/

omit [ParserState.Kept I] in
/-- The target that an expression spells. -/
theorem assignTarget {op : AssignOp} {left : Expr} (hl : (Node.expr left).All P) {p : Pat}
    (hp : Grammar.assignTarget op left = .ok p) : (Node.pat .assignment p).All P := by
  unfold Grammar.assignTarget at hp
  split at hp
  · exact h.off.offPatterns.toPattern false .assignment left hl hp
  · exact h.off.offPatterns.toSimpleTarget hl hp

theorem conditionalOrAssignment
    (hconditional : g.conditional.Tells I fun e => (Node.expr e).All P) :
    g.conditionalOrAssignment.Tells I fun e => (Node.expr e).All P := by
  refine .after fun start => .bind hconditional fun left hleft => .after fun kind => ?_
  split
  · exact .pure hleft
  · refine .ite (.pure hleft) (.bind (.ofExcept fun p hp => h.assignTarget hleft hp) ?_)
    refine fun target ht => .after fun _ => .bind h.assignment fun right hright => .after fun loc =>
      .pure ?_
    exact h.off.intro rfl (List.forall_mem_cons.2 ⟨ht, List.forall_mem_singleton.2 hright⟩)

end WithScope.Grammar.Carries
