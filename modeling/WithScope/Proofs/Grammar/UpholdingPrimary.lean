import WithScope.Proofs.Grammar.OrdinaryPrimary

/-!
# Properties of operations are upheld

A property that says nothing of nodes other than operations is upheld by all productions but those
that put operations together, in whatever states they begin. `Grammar.Upholds P` says that the
productions through which the grammar contains itself yield trees all of whose nodes have the
property `P`. Then so do the productions that are made of them: the ordinary ones, and here those of
arrow functions, fields, templates and primary expressions, which are whole operands besides.
-/

namespace WithScope

open WithScope.Parser (Yields)

/-- Operations are not ordinary. -/
theorem Node.OfOperations.offOrdinary {P : Node → Prop} (hP : Node.OfOperations P) :
    Node.OffOrdinary P := by
  refine ⟨fun n hn => hP.other n ?_⟩
  cases n with
  | expr e => cases e <;> first | rfl | cases hn
  | _ => rfl

/-- The productions through which a grammar contains itself, apart from those of operations alone,
yield trees all of whose nodes have a property of operations. -/
structure Grammar.Upholds (P : Node → Prop) (g : Grammar) : Prop where
  /-- it is a property of operations -/
  of : Node.OfOperations P
  statement : ∀ isTopLevel, (g.statement isTopLevel).Yields fun s => (Node.stmt s).All P
  assignment : g.assignment.Yields fun e => (Node.expr e).All P
  leftHandSide : g.leftHandSide.Yields fun e => (Node.expr e).All P
  arrayPattern : g.arrayPattern.Yields fun p => (Node.pat .binding p).All P
  objectPattern : g.objectPattern.Yields fun p => (Node.pat .binding p).All P

namespace Grammar.Upholds

variable {P : Node → Prop} {g : Grammar} (h : g.Upholds P)
include h

/-- The ordinary productions uphold it too. -/
theorem carries : g.Carries (fun _ => True) P where
  off := h.of.offOrdinary
  statement isTopLevel := (h.statement isTopLevel).tells
  assignment := h.assignment.tells
  leftHandSide := h.leftHandSide.tells
  arrayPattern := h.arrayPattern.tells
  objectPattern := h.objectPattern.tells

/-! ## Templates -/

theorem template (isTagged : Bool) :
    (g.template isTagged).Yields fun t => (Node.template t).All P := by
  -- what the rounds keep: the expressions read so far, the last one first
  let upheld (parts : Grammar.TemplateParts) : Prop :=
    ∀ e ∈ parts.expressions, (Node.expr e).All P
  have hstep : ∀ parts, upheld parts →
      (g.templateStep isTagged parts).Yields (Sum.elim upheld upheld) := by
    refine fun parts hparts => .after fun t => .ite (.fail _ _) (.ite (.pure hparts) ?_)
    refine .bind h.carries.expression.yields.allowIn fun e he => .after fun kind => ?_
    split
    · exact .pure (List.forall_mem_cons.2 ⟨he, hparts⟩)
    · exact .pure (List.forall_mem_cons.2 ⟨he, hparts⟩)
    · exact .unexpected
  refine .after fun start => .bind (.repeatFrom hstep (List.forall_mem_nil _)) fun parts hparts =>
    .after fun loc => .pure ?_
  exact h.of.intro rfl (List.forall_mem_map.2 fun e he => hparts e (List.mem_reverse.1 he))

/-! ## Functions -/

theorem arrowRest (start : Position) {params : List Pat} (isAsync : Bool)
    (hparams : ∀ p ∈ params, (Node.pat .binding p).All P) :
    (g.arrowRest start params isAsync).Yields (Expr.Whole P) := by
  have hbody : (do if ← Parser.atMark .leftBrace then
                     return ArrowBody.block (← Parser.allowIn g.block)
                   else return ArrowBody.expr (← g.assignment) : Parser ArrowBody).Yields
      fun body => body.node.All P := by
    refine .after fun isBlock => .ite ?_ ?_
    · exact .bind h.carries.block.yields.allowIn fun body hbody => .pure hbody
    · exact .bind h.assignment fun value hvalue => .pure hvalue
  refine .after fun _ => .after fun around => .bind hbody.inBody fun body hbody =>
    .after fun loc => .pure ⟨h.of.intro rfl ?_, rfl, rfl⟩
  exact List.forall_mem_append.2
    ⟨List.forall_mem_map.2 hparams, List.forall_mem_singleton.2 hbody⟩

/-- An arrow function of one bare parameter. -/
theorem arrowOfName (start : Position) (id : Ident) (isAsync : Bool) :
    (g.arrowRest start [.ident id] isAsync).Yields (Expr.Whole P) :=
  h.arrowRest start isAsync (List.forall_mem_singleton.2 (h.of.leaf rfl rfl))

/-! ## Classes -/

theorem classField (start : Position) (isStatic : Bool) {key : Key}
    (hkey : (Node.key key).All P) :
    (g.classField start isStatic key).Yields fun m => (Node.member m).All P := by
  refine .after fun hasValue => .join h.assignment.inBody.some .none fun value hvalue =>
    .after fun _ => .after fun loc => .pure (h.of.intro rfl (List.forall_mem_cons.2 ⟨hkey, ?_⟩))
  refine forall_mem_toList fun e he => ?_
  exact h.of.intro rfl (List.forall_mem_singleton.2 (hvalue e he))

theorem methodOrField (start : Position) (isStatic : Bool) :
    (g.methodOrField start isStatic).Yields fun m => (Node.member m).All P := by
  refine .after fun m => .bind h.carries.key.yields fun _ hkey => ?_
  refine .after fun _ => ?_
  exact .ite (h.carries.classMethod start isStatic m hkey).yields (.ite (h.classField start isStatic
    hkey) .unexpected)

theorem member : g.member.Yields fun m => (Node.member m).All P := by
  refine .after fun start => .after fun isStatic => .ite ?_ (h.methodOrField start false)
  refine .after fun _ => .after fun isBlock => .ite ?_ (h.methodOrField start true)
  refine .bind h.carries.block.yields.inBody fun b hb => .after fun loc => .pure (h.of.intro rfl ?_)
  -- the block is not kept, but its statements are
  exact (Node.all_iff.1 hb).2

theorem classDefinition (nameRequired : Bool) :
    (g.classDefinition nameRequired).Yields fun c => (Node.class c).All P :=
  (h.carries.classDefinition h.member.tells nameRequired).yields

/-! ## Primary expressions -/

theorem nameOrArrow (start : Position) : (g.nameOrArrow start).Yields (Expr.Whole P) :=
  .after fun id => .after fun _ =>
    .ite (h.arrowOfName start id false) (.pure ⟨h.of.leaf rfl rfl, rfl, rfl⟩)

theorem asyncArrow (start : Position) : (g.asyncArrow start).Yields (Expr.Whole P) :=
  .after fun _ => .after fun id => .after fun _ => .ite (h.arrowOfName start id true) .unexpected

theorem asyncCallOrArrow (start : Position) :
    (g.asyncCallOrArrow start).Yields (Expr.Whole P) := by
  refine .after fun callee => .bind h.carries.arguments.yields fun arguments ha =>
    .after fun _ => .ite ?_ ?_
  · refine .bind (.ofExcept fun ps hps => hps) fun params hparams => ?_
    exact h.arrowRest start true (h.of.offPatterns.toParams ha hparams)
  -- the call of a name is the only operation among primary expressions
  · refine .after fun loc => .pure ⟨.intro (h.of.call ..) ?_, rfl, rfl⟩
    refine List.forall_mem_cons.2 ⟨?_, ?_⟩
    · exact h.of.leaf rfl rfl
    · exact List.forall_mem_map.2 ha

theorem identifierExpression : g.identifierExpression.Yields (Expr.Whole P) := by
  refine .after fun start => .after fun _ => .ite ?_ (.after fun _ => .ite ?_ (h.nameOrArrow start))
  · refine .after fun _ => .bind (h.carries.function start true false).yields fun f hf =>
      .pure ⟨?_, rfl, rfl⟩
    exact h.of.intro rfl (List.forall_mem_singleton.2 hf)
  · refine .after fun next => .ite (h.nameOrArrow start) ?_
    split
    · exact h.asyncArrow start
    · exact h.asyncCallOrArrow start
    · exact h.nameOrArrow start

theorem parenOrArrow : g.parenOrArrow.Yields (Expr.Whole P) := by
  refine .after fun start => .after fun _ => ?_
  refine .bind h.carries.parenItems.yields.allowIn fun list ⟨hitems, hrest⟩ => ?_
  refine .after fun close => .after fun _ => ?_
  refine .ite ?_ ?_
  · refine .bind (.ofExcept fun ps hps => hps) fun params hparams => ?_
    refine h.arrowRest start false (List.forall_mem_append.2
      ⟨h.of.offPatterns.toParams hitems hparams, ?_⟩)
    exact fun p hp => hrest p (Option.mem_toList.1 hp)
  · split
    · exact .fail _ _
    · refine .ite (.fail _ _) (.after fun loc => .pure ⟨h.of.intro rfl ?_, rfl, rfl⟩)
      rw [‹list.items = _›] at hitems
      exact List.forall_mem_singleton.2 (h.of.offOrdinary.joined hitems)

theorem regExp : Grammar.regExp.Yields (Expr.Whole P) := by
  refine .after fun _ => .after fun t => ?_
  split
  · exact .pure ⟨h.of.leaf rfl rfl, rfl, rfl⟩
  · exact .fail _ _

/-- A primary expression, or an arrow function. -/
theorem primary : g.primary.Yields (Expr.Whole P) := by
  refine .after fun kind => ?_
  split
  · exact h.parenOrArrow
  · exact h.carries.arrayLiteral.yields
  · exact h.carries.objectLiteral.yields
  · refine .after fun start => .bind (h.carries.function start false false).yields fun f hf =>
      .pure ⟨?_, rfl, rfl⟩
    exact h.of.intro rfl (List.forall_mem_singleton.2 hf)
  · refine .bind (h.classDefinition false) fun c hc => .pure ⟨?_, rfl, rfl⟩
    exact h.of.intro rfl (List.forall_mem_singleton.2 hc)
  · exact h.carries.importExpression.yields
  · exact h.identifierExpression
  · refine .bind (h.template false) fun t ht => .pure ⟨?_, rfl, rfl⟩
    exact h.of.intro rfl (List.forall_mem_singleton.2 ht)
  · refine .bind (h.template false) fun t ht => .pure ⟨?_, rfl, rfl⟩
    exact h.of.intro rfl (List.forall_mem_singleton.2 ht)
  · exact (h.carries.literal fun env s hs _ => h.regExp.tells env s hs).yields

end Grammar.Upholds

end WithScope
