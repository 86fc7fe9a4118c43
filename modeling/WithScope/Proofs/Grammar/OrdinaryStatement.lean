import WithScope.Grammar.Program
import WithScope.Proofs.Grammar.OrdinaryPrimary

/-!
# Ordinary statements

Declarations without their semicolon, and the statements that hold other statements, are ordinary,
so all of them have what the expressions and statements in them have.
-/

namespace WithScope

namespace Grammar.Carries

variable {I : ParserState → Prop} [ParserState.Kept I] {P : Node → Prop} {g : Grammar}
  (h : g.Carries I P)
include h

/-! ## Declarations and choices -/

/-- A declarator has the property with its target and its value. -/
theorem declarator (kind : VarKind) :
    (g.declarator kind).Tells I fun d => (Node.declarator kind d).All P := by
  refine .after fun start => .bind h.bindingTarget fun p hp => ?_
  refine .after fun _ => .after fun _ => .join h.assignment.some .none fun value hvalue => ?_
  refine .after fun loc => .pure (h.off.intro rfl ?_)
  exact List.forall_mem_cons.2 ⟨hp, forall_mem_toList hvalue⟩

/-- What holds of each declarator holds of the declaration. -/
theorem varDecl : g.varDecl.Tells I fun d => (Node.varDecl d).All P := by
  refine .after fun start => .after fun kind => .bind (h.declarator kind) fun first hfirst => ?_
  refine .bind (h.declarator kind).afterCommas fun others hothers => ?_
  refine .after fun loc => .pure (h.off.intro rfl ?_)
  exact List.forall_mem_map.2 (List.forall_mem_cons.2 ⟨hfirst, hothers⟩)

/-- An `if` has the property with its test and its branches. -/
theorem ifStatement (start : Position) :
    (g.ifStatement start).Tells I fun s => (Node.stmt s).All P := by
  refine .after fun _ => .bind h.parenExpression fun test ht => ?_
  refine .bind (h.statement false) fun consequent hc => ?_
  refine .after fun _ => .join (h.statement false).some .none fun alternate ha => ?_
  refine .after fun loc => .pure (h.off.intro rfl ?_)
  exact List.forall_mem_cons.2
    ⟨ht, List.forall_mem_cons.2 ⟨hc, forall_mem_toList ha⟩⟩

/-- The test of a case has the property if it is there. -/
theorem caseTest : g.caseTest.Tells I fun test => ∀ e ∈ test, (Node.expr e).All P :=
  .after fun _ => .ite (.bind h.expression.allowIn fun _ he => .pureSome he)
    (.after fun _ => .none)

/-- A case has the property with its test and its statements. -/
theorem switchCase : g.switchCase.Tells I fun c => (Node.switchCase c).All P := by
  refine .after fun start => .bind h.caseTest fun test ht => ?_
  refine .after fun _ => .bind (.collectUntil (h.statement false)) fun consequent hc => ?_
  refine .after fun _ => .ite .unexpected (.after fun loc => .pure (h.off.intro rfl ?_))
  exact List.forall_mem_append.2 ⟨forall_mem_toList ht, List.forall_mem_map.2 hc⟩

/-- A switch has the property with its value and its cases. -/
theorem switchStatement (start : Position) :
    (g.switchStatement start).Tells I fun s => (Node.stmt s).All P := by
  refine .after fun _ => .bind h.parenExpression fun discriminant hd => ?_
  refine .after fun _ => .bind (.withContext (.collectUntil h.switchCase)) fun cases hc => ?_
  refine .after fun loc => .pure (h.off.intro rfl ?_)
  refine List.forall_mem_cons.2 ⟨hd, List.forall_mem_singleton.2 ?_⟩
  exact h.off.intro rfl (List.forall_mem_map.2 hc)

/-! ## Loops -/

omit [ParserState.Kept I] in
/-- The body of a loop is a statement like any other. -/
theorem loopBody : g.loopBody.Tells I fun s => (Node.stmt s).All P :=
  .withContext (h.statement false)

/-- A loop has the property with its test and its body. -/
theorem whileStatement (start : Position) :
    (g.whileStatement start).Tells I fun s => (Node.stmt s).All P := by
  refine .after fun _ => .bind h.parenExpression fun test ht => .bind h.loopBody fun body hb =>
    .after fun loc => .pure (h.off.intro rfl ?_)
  exact List.forall_mem_cons.2 ⟨ht, List.forall_mem_singleton.2 hb⟩

/-- As `whileStatement`, with the body first. -/
theorem doWhileStatement (start : Position) :
    (g.doWhileStatement start).Tells I fun s => (Node.stmt s).All P := by
  refine .after fun _ => .bind h.loopBody fun body hb => ?_
  refine .after fun _ => .bind h.parenExpression fun test ht => ?_
  refine .after fun _ => .after fun loc => ?_
  refine .pure (h.off.intro rfl ?_)
  exact List.forall_mem_cons.2 ⟨hb, List.forall_mem_singleton.2 ht⟩

/-- What a loop starts with has the property, whichever of the three it is. -/
theorem forInit : g.forInit.Tells I fun init => init.node.All P :=
  .after fun _ => .ite (.bind h.varDecl fun _ hd => .pure hd)
    (.bind h.expression fun _ he => .pure he)

/-- A part of a loop's head has the property if it is there. -/
theorem optionalExpression (mark : Punctuator) :
    (g.optionalExpression mark).Tells I fun e => ∀ a ∈ e, (Node.expr a).All P :=
  .after fun _ => .ite .none (.bind h.expression.allowIn fun _ he => .pureSome he)

/-- A `for` has the property with the parts of its head and its body. -/
theorem forRest (start : Position) {init : Option ForInit} (hi : ∀ i ∈ init, i.node.All P) :
    (g.forRest start init).Tells I fun s => (Node.stmt s).All P := by
  refine .after fun _ => .bind (h.optionalExpression _) fun test ht => ?_
  refine .after fun _ => .bind (h.optionalExpression _) fun update hu => ?_
  refine .after fun _ => .bind h.loopBody fun body hb => ?_
  refine .after fun loc => .pure (h.off.intro rfl ?_)
  refine List.forall_mem_append.2 ⟨?_, List.forall_mem_singleton.2 hb⟩
  refine List.forall_mem_append.2 ⟨?_, forall_mem_toList hu⟩
  exact List.forall_mem_append.2 ⟨forall_mem_toList hi, forall_mem_toList ht⟩

omit [ParserState.Kept I] in
/-- What a loop over values assigns to. -/
theorem forTarget {init : ForInit} (hi : init.node.All P) :
    (Grammar.forTarget init).Tells I fun target => target.node.All P := by
  unfold Grammar.forTarget
  split
  -- a declaration is the target itself; an expression is read again as a pattern
  · split
    · exact .pure hi
    · exact .fail _ _
  · exact .bind (.ofExcept fun p hp => h.off.offPatterns.toPattern false .assignment _ hi hp)
      fun p hp => .pure hp

/-- As `forRest`, over the values of something. -/
theorem forOfRest (start : Position) (isAwait : Bool) {init : ForInit} (hi : init.node.All P) :
    (g.forOfRest start isAwait init).Tells I fun s => (Node.stmt s).All P := by
  refine .bind (h.forTarget hi) fun target ht => ?_
  refine .after fun _ => .bind h.assignment.allowIn fun right hr => ?_
  refine .after fun _ => .bind h.loopBody fun body hb => ?_
  refine .after fun loc => .pure (h.off.intro rfl ?_)
  exact List.forall_mem_cons.2 ⟨ht, List.forall_mem_cons.2 ⟨hr, List.forall_mem_singleton.2 hb⟩⟩

/-- As `forRest`, over the keys of something. -/
theorem forInRest (start : Position) {init : ForInit} (hi : init.node.All P) :
    (g.forInRest start init).Tells I fun s => (Node.stmt s).All P := by
  refine .bind (h.forTarget hi) fun target ht => ?_
  refine .after fun _ => .bind h.expression.allowIn fun right hr => ?_
  refine .after fun _ => .bind h.loopBody fun body hb => ?_
  refine .after fun loc => .pure (h.off.intro rfl ?_)
  exact List.forall_mem_cons.2 ⟨ht, List.forall_mem_cons.2 ⟨hr, List.forall_mem_singleton.2 hb⟩⟩

/-- Each of the three forms of a `for` has the property. -/
theorem forStatement (start : Position) :
    (g.forStatement start).Tells I fun s => (Node.stmt s).All P := by
  refine .after fun _ => .after fun isAwait => .after fun _ => .after fun _ => .ite ?_ ?_
  · exact h.forRest start nofun
  · refine .bind h.forInit.withContext fun init hi => .after fun _ => .ite ?_ ?_
    · exact h.forOfRest start isAwait hi
    · refine .after fun _ => .ite (h.forInRest start hi) (h.forRest start fun i heq => ?_)
      cases heq
      exact hi

/-! ## Other statements -/

/-- A handler has the property with its parameter and its block. -/
theorem catchClause : g.catchClause.Tells I fun c => ∀ a ∈ c, (Node.catchClause a).All P := by
  have hbody (start : Position) {param : Option Pat}
      (hp : ∀ p ∈ param, (Node.pat .binding p).All P) :
      (do let body ← g.block
          return some (.mk (← Parser.spanFrom start) param body) :
        Parser (Option CatchClause)).Tells I fun c => ∀ a ∈ c, (Node.catchClause a).All P := by
    refine .bind h.block fun body hb => .after fun loc => .pureSome (h.off.intro rfl ?_)
    exact List.forall_mem_append.2 ⟨forall_mem_toList hp, List.forall_mem_singleton.2 hb⟩
  refine .after fun start => .after fun _ => .ite (.after fun _ => .ite ?_ ?_) .none
  · exact .bind h.bindingTarget fun p hp => .after fun _ =>
      .bind (.pureSome hp) fun param hparam => hbody start hparam
  · exact .bind .none fun param hparam => hbody start hparam

/-- A `try` has the property with its three blocks. -/
theorem tryStatement (start : Position) :
    (g.tryStatement start).Tells I fun s => (Node.stmt s).All P := by
  refine .after fun _ => .bind h.block fun body hb => ?_
  refine .bind h.catchClause fun handler hh => ?_
  refine .after fun _ => .join h.block.some .none fun finalizer hf => ?_
  refine .ite (.after fun _ => .fail _ _) (.after fun loc => .pure (h.off.intro rfl ?_))
  refine List.forall_mem_cons.2 ⟨hb, List.forall_mem_append.2 ⟨?_, ?_⟩⟩
  · exact forall_mem_toList hh
  · exact forall_mem_toList hf

/-- A `with` has the property with its object and its body. -/
theorem withStatement (start : Position) :
    (g.withStatement start).Tells I fun s => (Node.stmt s).All P := by
  refine .after fun _ => .bind h.parenExpression fun object ho =>
    .bind (h.statement false) fun body hb => .after fun loc => .pure (h.off.intro rfl ?_)
  exact List.forall_mem_cons.2 ⟨ho, List.forall_mem_singleton.2 hb⟩

/-- A labelled statement has the property with what it labels. -/
theorem labeledStatement (start : Position) :
    (g.labeledStatement start).Tells I fun s => (Node.stmt s).All P := by
  refine .after fun label => .after fun surrounding => .ite (.fail _ _) (.after fun _ => ?_)
  refine .bind (h.statement false).withLabel fun body hb => .after fun loc => ?_
  exact .pure (h.off.intro rfl (List.forall_mem_singleton.2 hb))

end Grammar.Carries

end WithScope
