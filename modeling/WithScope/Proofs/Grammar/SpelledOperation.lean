import WithScope.Proofs.Grammar.NestedOperation
import WithScope.Proofs.Grammar.OrdinaryOperation
import WithScope.Proofs.Grammar.SpelledPrimary

/-!
# Operations are spelled as their kinds say

Of most operations there is nothing to say but what their operands say. The exceptions are those
that a line end would cut in two: an operand and the operator that updates it, and the word `yield`
and what is given to it.
-/

namespace WithScope

open WithScope.Parser (Leaves)
open WithScope.ParserState (From)

variable {source : List Char} {start : Position} {env : Surrounding} {s s' : ParserState}

namespace Grammar

/-- An operator has one spelling. -/
theorem mem_allSpellings_of_updateOp? {kind : TokenKind} {op : UpdateOp}
    (h : updateOp? kind = some op) :
    ∃ mark, kind = .punctuator mark ∧ (op.spelling, mark) ∈ Punctuator.allSpellings := by
  unfold updateOp? at h
  split at h
  · cases h
    exact ⟨_, rfl, by decide⟩
  · cases h
    exact ⟨_, rfl, by decide⟩
  · cases h

theorem leaves_checkUpdateTarget (e : Expr) :
    Leaves env s (checkUpdateTarget e) fun _ s' => s' = s ∧ True :=
  .ite (fun _ => .pure ⟨rfl, trivial⟩) fun _ => .fail _ _

namespace Spells

variable {g : Grammar} (h : g.Spells source)
include h

/-! ## Accesses and calls -/

/-- A template that is given to a function. -/
theorem taggedTemplate (first : Position) {e : Expr} (he : (Node.expr e).Written source)
    (hs : s.From source start) (hk : s.token.kind.IsPart '\x60') :
    Leaves env s (do let quasi ← g.template true
                     return some (.taggedTemplate (← Parser.spanFrom first) e quasi) :
                   Parser (Option Expr)) fun o s' =>
      s'.From source start ∧ ∀ a ∈ o, (Node.expr a).Written source := by
  refine .bind (h.template true hs hk) fun t s₁ ⟨hs₁, ht, _⟩ => .spanFrom ?_
  refine Parser.Tells.pureSome (.intro ⟨trivial, trivial, trivial⟩ ?_) _ _ hs₁
  exact List.forall_mem_cons.2 ⟨he, List.forall_mem_singleton.2 ht⟩

theorem memberAccess? (first : Position) {e : Expr} (he : (Node.expr e).Written source) :
    (g.memberAccess? first e).Tells (From source start) fun o =>
      ∀ a ∈ o, (Node.expr a).Written source := by
  have hmember {name : MemberName} (loc : Span) (hname : (Node.memberName name).Written source) :
      (Node.expr (.member loc e name false)).Written source :=
    .intro ⟨trivial, trivial, trivial⟩
      (List.forall_mem_cons.2 ⟨he, List.forall_mem_singleton.2 hname⟩)
  intro env s hs
  refine .kind ?_
  split
  · refine .bind Parser.leaves_discardBump fun _ s₁ hpast => ?_
    refine .bind (h.carries.memberName env s₁ (hs.past hpast)) fun name s₂ ⟨hs₂, hname⟩ => ?_
    refine .spanFrom (Parser.Tells.pureSome ?_ _ _ hs₂)
    exact hmember _ hname
  · refine .bind Parser.leaves_discardBump fun _ s₁ hpast => ?_
    refine .bind (h.carries.computedName env s₁ (hs.past hpast)) fun name s₂ ⟨hs₂, hname⟩ => ?_
    refine .spanFrom (Parser.Tells.pureSome ?_ _ _ hs₂)
    exact hmember _ hname
  · next hk => exact h.taggedTemplate first he hs (by rw [hk]; rfl)
  · next hk => exact h.taggedTemplate first he hs (by rw [hk]; rfl)
  · exact Parser.Tells.none _ _ hs

theorem optionalAccess (first : Position) {e : Expr} (he : (Node.expr e).Written source) :
    (g.optionalAccess first e).Tells (From source start) fun e => (Node.expr e).Written source := by
  refine .after fun _ => .after fun isCall => .ite ?_ (.after fun isComputed => .ite ?_ ?_)
  · refine .bind h.carries.arguments fun arguments ha => .after fun loc => .pure ?_
    exact .intro ⟨trivial, trivial, trivial⟩ (List.forall_mem_cons.2 ⟨he, List.forall_mem_map.2 ha⟩)
  · refine .bind h.carries.computedName fun name hname => .after fun loc => .pure ?_
    exact .intro ⟨trivial, trivial, trivial⟩
      (List.forall_mem_cons.2 ⟨he, List.forall_mem_singleton.2 hname⟩)
  · refine .bind h.carries.memberName fun name hname => .after fun loc => .pure ?_
    exact .intro ⟨trivial, trivial, trivial⟩
      (List.forall_mem_cons.2 ⟨he, List.forall_mem_singleton.2 hname⟩)

theorem access? (first : Position) {e : Expr} (he : (Node.expr e).Written source) :
    (g.access? first e).Tells (From source start) fun o =>
      ∀ a ∈ o, (Node.expr a).Written source := by
  refine .after fun kind => ?_
  split
  · exact .bind (h.optionalAccess first he) fun a ha => .pureSome ha
  · refine .bind h.carries.arguments fun arguments ha => .after fun loc => .pureSome ?_
    exact .intro ⟨trivial, trivial, trivial⟩ (List.forall_mem_cons.2 ⟨he, List.forall_mem_map.2 ha⟩)
  · exact h.memberAccess? first he

/-! ## `new` -/

theorem newCallee :
    g.newCallee.Tells (From source start) fun e => (Node.expr e).Written source := by
  refine .after fun first => .after fun isNew => .join h.newExpr h.primary fun e he => ?_
  refine .bind (Carries.accesses (fun e he => h.memberAccess? first he) he) fun callee hcallee => ?_
  exact .after fun _ => .ite (.after fun _ => .fail _ _) (.pure hcallee)

theorem newBody : g.newBody.Tells (From source start) fun e => (Node.expr e).Written source := by
  refine .after fun first => .after fun word => .after fun isMeta =>
    .ite ((h.carries.newTarget first word).mono fun _ he => he.all) ?_
  refine .bind h.newCallee fun callee hcallee => ?_
  refine .after fun hasArguments => ?_
  refine .join h.carries.arguments (.pure (List.forall_mem_nil _)) fun arguments ha => ?_
  refine .after fun loc => .pure (.intro ⟨trivial, trivial, trivial⟩ ?_)
  exact List.forall_mem_cons.2 ⟨hcallee, List.forall_mem_map.2 ha⟩

theorem leftHandSideBody :
    g.leftHandSideBody.Tells (From source start) fun e => (Node.expr e).Written source := by
  refine .after fun first => .after fun isNew => .join h.newBody h.primary fun e he => ?_
  exact .ite (.pure he) (Carries.accesses (fun e he => h.access? first he) he)

/-! ## Operators of one operand -/

/-- An operator after an operand stands on the line where the operand ends. -/
theorem postfixOperand (first : Position) :
    (g.postfixOperand first).Tells (From source start) fun e => (Node.expr e).Written source := by
  intro env s hs
  refine .bind (Parser.leaves_construct hs h.leftHandSideBody h.nests.leftHandSideBody)
    fun e s₁ ⟨hs₁, he, _, hloc⟩ => .kind ?_
  replace hloc : e.loc = ⟨s.here, s₁.lastEnd⟩ := hloc
  split
  · exact .pure ⟨hs₁, he⟩
  · next op hop =>
    refine .look Parser.leaves_afterNewline fun isAfter hline => .ite (fun _ => .pure ⟨hs₁, he⟩)
      fun hgoes => .look (leaves_checkUpdateTarget e) fun _ _ => .bind Parser.leaves_discardBump
      fun _ s₂ hpast => .spanFrom (.pure ⟨hs₁.past hpast, .intro ⟨trivial, ?_, trivial⟩ ?_⟩)
    · obtain ⟨hsame, -⟩ := Bool.or_eq_false_iff.1 (Bool.eq_false_iff.2 hgoes)
      obtain ⟨mark, hk, hmark⟩ := mem_allSpellings_of_updateOp? hop
      refine ⟨s₁.here, ?_, hpast.lastEnd ▸ hs₁.tight.mark hk hmark⟩
      rw [hloc]
      exact hs₁.tight.adjoins (hline ▸ hsame)
    · exact List.forall_mem_singleton.2 he

theorem unaryBody :
    g.unaryBody.Tells (From source start) fun e => (Node.expr e).Written source := by
  have hoperation {e argument : Expr} (hspelled : (Node.expr e).Spelled source)
      (hchildren : (Node.expr e).children = [.expr argument])
      (ha : (Node.expr argument).Written source) : (Node.expr e).Written source :=
    .intro hspelled (hchildren ▸ List.forall_mem_singleton.2 ha)
  refine .after fun first => .after fun _ => .after fun _ => ?_
  split
  · exact .after fun _ => .bind h.unary fun argument ha => .after fun loc =>
      .pure (hoperation ⟨trivial, trivial, trivial⟩ rfl ha)
  · exact .after fun _ => .bind h.unary fun argument ha => .after fun _ => .after fun loc =>
      .pure (hoperation ⟨trivial, trivial, trivial⟩ rfl ha)
  · refine .after fun around => .after fun t => .ite ?_ (h.postfixOperand first)
    exact .after fun _ => .bind h.unary fun argument ha => .after fun loc =>
      .pure (hoperation ⟨trivial, trivial, trivial⟩ rfl ha)

/-! ## Operators of two operands -/

theorem privateIn (first : Position) (floor : Nat) :
    (g.privateIn first floor).Tells (From source start) fun e => (Node.expr e).Written source := by
  refine .after fun around => .ite .unexpected (.after fun next => .ite .unexpected ?_)
  refine .after fun t => .after fun _ => .bind (h.operation _) fun right hr => .after fun loc => ?_
  exact .pure (.intro ⟨trivial, trivial, trivial⟩ (List.forall_mem_singleton.2 hr))

theorem operations (first : Position) (floor : Nat) {e : Expr} (he : (Node.expr e).Written source) :
    (g.operations first floor e).Tells (From source start) fun e =>
      (Node.expr e).Written source := by
  refine .repeatFrom (P := fun e => (Node.expr e).Written source) (fun left hl => ?_) he
  refine .after fun op => ?_
  split
  · exact .pure hl
  · next op =>
    refine .ite (.fail _ _) (.after fun _ => .bind (h.operation _) fun right hr => .after fun loc =>
      .pure ?_)
    have hoperands := List.forall_mem_cons.2 ⟨hl, List.forall_mem_singleton.2 hr⟩
    cases op <;> exact .intro ⟨trivial, trivial, trivial⟩ hoperands

theorem operationBody (floor : Nat) :
    (g.operationBody floor).Tells (From source start) fun e => (Node.expr e).Written source := by
  refine .after fun first => .after fun isPrivate => .join (h.privateIn first floor) h.unaryBody
    fun e he => ?_
  exact .ite (.pure he) (h.operations first floor he)

theorem conditional :
    g.conditional.Tells (From source start) fun e => (Node.expr e).Written source := by
  refine .after fun first => .bind (h.operationBody 0) fun test ht => .ite (.pure ht) ?_
  refine .after fun isChoice => .ite ?_ (.pure ht)
  refine .bind h.assignment.allowIn fun consequent hc => ?_
  refine .after fun _ => .bind h.assignment fun alternate ha => ?_
  refine .after fun loc => .pure (.intro ⟨trivial, trivial, trivial⟩ ?_)
  exact List.forall_mem_cons.2 ⟨ht, List.forall_mem_cons.2 ⟨hc, List.forall_mem_singleton.2 ha⟩⟩

/-! ## Assignments -/

/-- What is given to `yield`, or the star before it, stands on the line of the word. -/
theorem yieldExpression (hs : s.Tight source) (hname : s.token.isIdentifier "yield" = true) :
    Leaves env s g.yieldExpression fun e s' =>
      s'.From source s.here ∧ (Node.expr e).Written source := by
  have halone (loc : Span) : (Node.expr (.yield loc false none)).Written source :=
    .intro ⟨trivial, trivial, trivial⟩ (List.forall_mem_nil _)
  refine .here (.bind Parser.leaves_discardBump fun _ s₁ hpast => .look Parser.leaves_afterNewline
    fun isAfter hline => .ite (fun _ => .spanFrom (.pure ⟨hs.fromHere.past hpast, halone _⟩))
    fun hgoes => ?_)
  have hs₁ := hs.fromHere.past hpast
  have hafter : AfterName source s.here "yield" s₁.here :=
    hs.afterName hs₁.tight hpast.lastEnd (hline ▸ Bool.eq_false_iff.2 hgoes) hname
  refine .bind (Parser.leaves_eatKind _) fun isStar s₂ ⟨hstar, hnone⟩ => .ite (fun hyes => ?_)
    fun hno => ?_
  · obtain ⟨hk, hpast₂⟩ := hstar hyes
    have hmark : TextBetween source s₁.here s₁.token.span.stop ['*'] :=
      hs₁.tight.mark hk (by decide)
    refine .bind (h.assignment env s₂ (hs₁.past hpast₂)) fun argument s₃ ⟨hs₃, ha⟩ =>
      .spanFrom (.pure ⟨hs₃, .intro ⟨trivial, ⟨_, _, hafter, hmark⟩, trivial⟩ ?_⟩)
    exact List.forall_mem_singleton.2 ha
  · obtain rfl := hnone (Bool.eq_false_iff.2 hno)
    refine .context (.kind (.ite (fun _ => .spanFrom (.pure ⟨hs₁, halone _⟩)) fun _ => ?_))
    refine .bind (Parser.leaves_construct hs₁ h.assignment h.nests.assignment)
      fun argument s₃ ⟨hs₃, ha, _, hloc⟩ => .spanFrom (.pure
      ⟨hs₃, .intro ⟨trivial, ?_, trivial⟩ (List.forall_mem_singleton.2 ha)⟩)
    show AfterName source s.here "yield" (Located.expr argument).loc.start
    rw [hloc]
    exact hafter

theorem assignmentBody :
    g.assignmentBody.Tells (From source start) fun e => (Node.expr e).Written source := by
  refine Parser.tells_of_here fun env s hs =>
    .context (.token (.ite (fun hyield => ?_) fun _ => ?_))
  · exact h.yieldExpression hs (Bool.and_eq_true_iff.1 hyield).2
  · exact h.carries.conditionalOrAssignment h.conditional env s hs.fromHere

end Spells

end Grammar

end WithScope
