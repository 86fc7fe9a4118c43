import WithScope.Grammar.Primary
import WithScope.Proofs.Grammar.Yields
import WithScope.Proofs.Tree.Shallow

/-!
# Primary expressions are read as shallow trees

`Grammar.Shallow k` says that the productions through which the grammar contains itself yield trees
that are at most `k` deep. The productions that are made of them then yield trees that are deeper by
a few levels, as many as a production can add before it comes to another one of these: here patterns,
functions and classes, and primary expressions, of which the deepest add three.
-/

namespace WithScope

open WithScope.Parser (Yields)

/-- The productions through which a grammar contains itself yield trees of a depth. -/
structure Grammar.Shallow (k : Nat) (g : Grammar) : Prop where
  statement : ∀ isTopLevel, (g.statement isTopLevel).Yields fun s => (Node.stmt s).Shallow k
  assignment : g.assignment.Yields fun e => (Node.expr e).Shallow k
  operation : ∀ floor, (g.operation floor).Yields fun e => (Node.expr e).Shallow k
  unary : g.unary.Yields fun e => (Node.expr e).Shallow k
  leftHandSide : g.leftHandSide.Yields fun e => (Node.expr e).Shallow k
  newExpr : g.newExpr.Yields fun e => (Node.expr e).Shallow k
  arrayPattern : g.arrayPattern.Yields fun p => (Node.pat .binding p).Shallow k
  objectPattern : g.objectPattern.Yields fun p => (Node.pat .binding p).Shallow k

/-- What stands in parentheses is shallow, each item by itself. -/
def Grammar.ParenItems.Shallow (k : Nat) (list : Grammar.ParenItems) : Prop :=
  (∀ e ∈ list.items, (Node.expr e).Shallow k) ∧
    ∀ p ∈ list.rest, (Node.pat .binding p).Shallow (k + 2)

/-- A list of expressions is deeper than each of them by one. -/
theorem Grammar.shallow_joined {k : Nat} {first : Expr} {others : List Expr}
    (h : ∀ e ∈ first :: others, (Node.expr e).Shallow k) :
    (Node.expr (joined first others)).Shallow (k + 1) := by
  cases others with
  | nil => exact (h first (List.mem_cons_self ..)).weaken (Nat.le_succ k)
  | cons second others => exact .succ rfl rfl (List.forall_mem_map.2 h)

namespace Grammar.Shallow

variable {g : Grammar} {k : Nat} (h : g.Shallow k)
include h

/-! ## Expressions in brackets -/

/-- A sequence is one level above its expressions. -/
theorem expression : g.expression.Yields fun e => (Node.expr e).Shallow (k + 1) := by
  refine .after fun start => .bind h.assignment fun first hfirst => .after fun isList => .ite ?_ ?_
  · refine .bind h.assignment.afterCommas fun others hothers => .after fun loc => .pure ?_
    exact .succ rfl rfl (List.forall_mem_map.2 (List.forall_mem_cons.2 ⟨hfirst, hothers⟩))
  · exact .pure (hfirst.weaken (Nat.le_succ k))

/-- The parentheses of a statement add no level. -/
theorem parenExpression : g.parenExpression.Yields fun e => (Node.expr e).Shallow (k + 1) :=
  .after fun _ => .bind h.expression.allowIn fun _ he => .after fun _ => .pure he

/-- The brackets of an access add no level. -/
theorem bracketExpression : g.bracketExpression.Yields fun e => (Node.expr e).Shallow (k + 1) :=
  .bind h.expression.allowIn fun _ he => .after fun _ => .pure he

/-- A spread is one level above its argument. -/
theorem spreadOrAssignment :
    g.spreadOrAssignment.Yields fun e => (Node.expr e).Shallow (k + 1) := by
  refine .after fun start => .after fun isSpread =>
    .ite ?_ (h.assignment.mono fun e he => he.weaken (Nat.le_succ k))
  refine .bind h.assignment fun argument ha => .after fun loc => .pure ?_
  exact .succ rfl rfl (List.forall_mem_singleton.2 ha)

/-- Arguments are a list and no level of their own. -/
theorem arguments : g.arguments.Yields fun es => ∀ e ∈ es, (Node.expr e).Shallow (k + 1) :=
  .after fun _ => h.spreadOrAssignment.commaSeparated.allowIn

/-- A computed key is as deep as its expression. -/
theorem key : g.key.Yields fun key => (Node.key key).Shallow k := by
  refine .after fun kind => ?_
  split
  case h_5 =>
    refine .after fun _ => .bind h.assignment.allowIn fun e he => .after fun _ => .pure ?_
    exact .part rfl rfl (List.forall_mem_singleton.2 he)
  all_goals exact .after fun _ => .pure (.part rfl rfl (List.forall_mem_nil _))

/-- A template is no level, but its expressions may be sequences. -/
theorem template (isTagged : Bool) :
    (g.template isTagged).Yields fun t => (Node.template t).Shallow (k + 1) := by
  -- the expressions read so far are shallow
  let shallow (parts : Grammar.TemplateParts) : Prop :=
    ∀ e ∈ parts.expressions, (Node.expr e).Shallow (k + 1)
  have hstep : ∀ parts, shallow parts →
      (g.templateStep isTagged parts).Yields (Sum.elim shallow shallow) := by
    refine fun parts hparts => .after fun t => .ite (.fail _ _) (.ite (.pure hparts) ?_)
    refine .bind h.expression.allowIn fun e he => .after fun kind => ?_
    split
    case h_3 => exact .unexpected
    all_goals exact .pure (List.forall_mem_cons.2 ⟨he, hparts⟩)
  refine .after fun start => .bind (.repeatFrom hstep (List.forall_mem_nil _)) fun parts hparts =>
    .after fun loc => .pure (.part rfl rfl (List.forall_mem_map.2 fun e he => ?_))
  exact hparts e (List.mem_reverse.1 he)

/-! ## Patterns that declare names -/

/-- A name is one level; a pattern comes from the level below. -/
theorem bindingTarget :
    g.bindingTarget.Yields fun p => (Node.pat .binding p).Shallow (k + 1) := by
  refine .after fun kind => ?_
  split
  · exact h.arrayPattern.mono fun p hp => hp.weaken (Nat.le_succ k)
  · exact h.objectPattern.mono fun p hp => hp.weaken (Nat.le_succ k)
  · exact .after fun id => .pure (.leaf rfl rfl rfl)

/-- A default value makes one level more. -/
theorem bindingElement :
    g.bindingElement.Yields fun p => (Node.pat .binding p).Shallow (k + 2) := by
  refine .after fun start => .bind h.bindingTarget fun target ht => .after fun hasDefault =>
    .ite ?_ (.pure (ht.weaken (Nat.le_succ _)))
  refine .bind h.assignment.allowIn fun right hr => .after fun loc => .pure (.succ rfl rfl ?_)
  exact List.forall_mem_cons.2 ⟨ht, List.forall_mem_singleton.2 (hr.weaken (Nat.le_succ k))⟩

/-- A rest makes one level more. -/
theorem restBinding : g.restBinding.Yields fun p => (Node.pat .binding p).Shallow (k + 2) := by
  refine .after fun start => .after fun _ => .bind h.bindingTarget fun argument ha =>
    .after fun loc => .pure ?_
  exact .succ rfl rfl (List.forall_mem_singleton.2 ha)

/-- An element that is left out has no depth. -/
theorem bindingElementOrHole :
    g.bindingElementOrHole.Yields fun element =>
      ∀ p ∈ element, (Node.pat .binding p).Shallow (k + 2) :=
  .after fun _ => .ite .none h.bindingElement.itemAndComma.some

/-- An array pattern is one level above its elements. -/
theorem arrayPatternBody :
    g.arrayPatternBody.Yields fun p => (Node.pat .binding p).Shallow (k + 3) := by
  refine .after fun start => .after fun _ => ?_
  refine .bind (.itemsWithRest h.bindingElementOrHole h.restBinding.some fun _ he => he) fun
    elements ⟨_, hall⟩ => ?_
  refine .after fun loc => .pure (.succ rfl rfl ?_)
  exact forall_mem_elements fun p hp => hall _ hp p rfl

/-- A property is no level, and its value is an element. -/
theorem bindingProperty :
    g.bindingProperty.Yields fun p => (Node.patProperty .binding p).Shallow (k + 2) := by
  refine .after fun start => .after fun mayBeShorthand => .bind h.key fun key hkey =>
    .after fun hasValue => .ite ?_ ?_
  · refine .bind h.bindingElement fun value hv => .after fun loc => .pure (.part rfl rfl ?_)
    exact List.forall_mem_cons.2
      ⟨hkey.weaken (Nat.le_add_right k 2), List.forall_mem_singleton.2 hv⟩
  · split
    case h_2 => exact .unexpected
    refine .ite (.fail _ _) (.after fun hasDefault => .ite ?_ ?_)
    · refine .bind h.assignment.allowIn fun value hv => .after fun loc => .pure ?_
      exact .part rfl rfl (List.forall_mem_singleton.2 (hv.weaken (Nat.le_add_right k 2)))
    · exact .after fun loc => .pure (.part rfl rfl (List.forall_mem_nil _))

omit h in
/-- The rest of an object pattern is a name. -/
theorem restProperty :
    Grammar.restProperty.Yields fun p => (Node.patProperty .binding p).Shallow (k + 1) := by
  refine .after fun start => .after fun _ => .after fun id => .after fun loc => .pure ?_
  exact .part rfl rfl (List.forall_mem_singleton.2 (.leaf rfl rfl rfl))

/-- An object pattern is one level above its properties. -/
theorem objectPatternBody :
    g.objectPatternBody.Yields fun p => (Node.pat .binding p).Shallow (k + 3) := by
  refine .after fun start => .after fun _ => ?_
  refine .bind (.itemsWithRest h.bindingProperty.itemAndComma restProperty fun _ hp => hp) fun
    properties ⟨_, hall⟩ => ?_
  refine .after fun loc => .pure (.succ rfl rfl ?_)
  exact List.forall_mem_map.2 hall

/-! ## Functions -/

/-- A block as such is no level. -/
theorem block : g.block.Yields fun b => (Node.block b).Shallow k := by
  refine .after fun start => .after fun _ => ?_
  have hitem := h.statement false
  refine .bind (.collectUntil (.after fun isEnd => .ite .unexpected hitem)) fun body hbody => ?_
  refine .after fun _ => .after fun loc => ?_
  refine .pure (.part rfl rfl ?_)
  exact List.forall_mem_map.2 hbody

/-- Parameters are elements. -/
theorem params : g.params.Yields fun ps => ∀ p ∈ ps, (Node.pat .binding p).Shallow (k + 2) :=
  .after fun _ => .mono (.itemsWithRest h.bindingElement.itemAndComma h.restBinding
    fun _ hp => hp) fun _ hps => hps.2

/-- A function as such is no level above its parameters and its body. -/
theorem functionRest (start : Position) (id : Option Ident) (isAsync isGenerator : Bool) :
    (g.functionRest start id isAsync isGenerator).Yields fun f =>
      (Node.function f).Shallow (k + 2) := by
  have hbody : (do let params ← g.params
                   let body ← g.block
                   return (params, body) : Parser (List Pat × Block)).Yields fun f =>
      (∀ p ∈ f.1, (Node.pat .binding p).Shallow (k + 2)) ∧ (Node.block f.2).Shallow k :=
    .bind h.params fun params hparams => .bind h.block fun body hbody => .pure ⟨hparams, hbody⟩
  refine .bind hbody.inBody fun ⟨params, body⟩ ⟨hparams, hbody⟩ => .after fun loc =>
    .pure (.part rfl rfl (List.forall_mem_append.2 ⟨List.forall_mem_map.2 hparams, ?_⟩))
  exact List.forall_mem_singleton.2 (hbody.weaken (Nat.le_add_right k 2))

/-- As `functionRest`; its name adds nothing. -/
theorem function (start : Position) (isAsync nameRequired : Bool) :
    (g.function start isAsync nameRequired).Yields fun f =>
      (Node.function f).Shallow (k + 2) :=
  .after fun _ => .after fun isGenerator => .after fun id =>
    h.functionRest start id isAsync isGenerator

/-- As `functionRest`, for a method. -/
theorem methodRest (m : Grammar.MethodModifiers) :
    (g.methodRest m).Yields fun f => (Node.function f).Shallow (k + 2) :=
  .after fun start => h.functionRest start none m.isAsync m.isGenerator

/-- An arrow function is one level above its parameters. -/
theorem arrowRest (start : Position) {params : List Pat} (isAsync : Bool)
    (hparams : ∀ p ∈ params, (Node.pat .binding p).Shallow (k + 2)) :
    (g.arrowRest start params isAsync).Yields fun e => (Node.expr e).Shallow (k + 3) := by
  have hbody : (do if ← Parser.atMark .leftBrace then
                     return ArrowBody.block (← Parser.allowIn g.block)
                   else return ArrowBody.expr (← g.assignment) : Parser ArrowBody).Yields
      fun body => body.node.Shallow k := by
    refine .after fun isBlock => .ite ?_ ?_
    · exact .bind h.block.allowIn fun body hbody => .pure hbody
    · exact .bind h.assignment fun value hvalue => .pure hvalue
  refine .after fun _ => .after fun around => .bind hbody.inBody fun body hbody => ?_
  refine .after fun loc => ?_
  refine .pure (.succ rfl rfl (List.forall_mem_append.2 ⟨List.forall_mem_map.2 hparams, ?_⟩))
  exact List.forall_mem_singleton.2 (hbody.weaken (Nat.le_add_right k 2))

/-- An arrow function of one bare parameter. -/
theorem arrowOfName (start : Position) (id : Ident) (isAsync : Bool) :
    (g.arrowRest start [.ident id] isAsync).Yields fun e => (Node.expr e).Shallow (k + 3) :=
  h.arrowRest start isAsync (List.forall_mem_singleton.2 (.leaf rfl rfl rfl))

/-! ## Classes -/

/-- A method is as deep as its function. -/
theorem classMethod (start : Position) (isStatic : Bool) (m : Grammar.MethodModifiers) {key : Key}
    (hkey : (Node.key key).Shallow k) :
    (g.classMethod start isStatic m key).Yields fun m => (Node.member m).Shallow (k + 2) := by
  refine .bind (h.methodRest m) fun value hvalue => .after fun loc => .pure (.part rfl rfl ?_)
  exact List.forall_mem_cons.2
    ⟨hkey.weaken (Nat.le_add_right k 2), List.forall_mem_singleton.2 hvalue⟩

/-- A field is as deep as its value. -/
theorem classField (start : Position) (isStatic : Bool) {key : Key}
    (hkey : (Node.key key).Shallow k) :
    (g.classField start isStatic key).Yields fun m => (Node.member m).Shallow k := by
  refine .after fun hasValue => .join h.assignment.inBody.some .none fun value hvalue =>
    .after fun _ => .after fun loc => .pure (.part rfl rfl ?_)
  refine List.forall_mem_cons.2 ⟨hkey, forall_mem_toList fun e he => ?_⟩
  exact .part rfl rfl (List.forall_mem_singleton.2 (hvalue e he))

/-- Methods are deeper than fields by two levels at most. -/
theorem methodOrField (start : Position) (isStatic : Bool) :
    (g.methodOrField start isStatic).Yields fun m => (Node.member m).Shallow (k + 2) := by
  refine .after fun m => .bind h.key fun _ hkey => .after fun _ =>
    .ite (h.classMethod start isStatic m hkey) (.ite ?_ .unexpected)
  exact (h.classField start isStatic hkey).mono fun m hm => hm.weaken (Nat.le_add_right k 2)

/-- A static block is as deep as its statements. -/
theorem member : g.member.Yields fun m => (Node.member m).Shallow (k + 2) := by
  refine .after fun start => .after fun isStatic => .ite ?_ (h.methodOrField start false)
  refine .after fun _ => .after fun isBlock => .ite ?_ (h.methodOrField start true)
  refine .bind h.block.inBody fun b hb => .after fun loc => .pure (.part rfl rfl fun c hc => ?_)
  exact (hb.of_mem_children rfl rfl c hc).weaken (Nat.le_add_right k 2)

/-- The elements of a class are a list and no level. -/
theorem members : g.members.Yields fun ms => ∀ m ∈ ms, (Node.member m).Shallow (k + 2) := by
  refine .repeatFrom (P := fun ms => ∀ m ∈ ms, (Node.member m).Shallow (k + 2)) (fun ms hms => ?_)
    (List.forall_mem_nil _)
  refine .after fun isEnd => .ite ?_ (.after fun isEmpty => .ite ?_ ?_)
  · exact .pure fun m hm => hms m (List.mem_reverse.1 hm)
  · exact .pure hms
  · exact .bind h.member fun m hm => .pure (List.forall_mem_cons.2 ⟨hm, hms⟩)

/-- A class as such is no level above its elements. -/
theorem classDefinition (nameRequired : Bool) :
    (g.classDefinition nameRequired).Yields fun c => (Node.class c).Shallow (k + 2) := by
  refine .after fun start => .after fun _ => .after fun id => ?_
  refine .after fun hasSuperClass => .join h.leftHandSide.some .none fun superClass hsuper => ?_
  refine .after fun bodyStart => .after fun _ => .bind h.members fun ms hms => ?_
  refine .after fun bodyLoc => .after fun loc => ?_
  refine .pure (.part rfl rfl (List.forall_mem_append.2 ⟨?_, List.forall_mem_map.2 hms⟩))
  exact forall_mem_toList fun e he => (hsuper e he).weaken (Nat.le_add_right k 2)

/-! ## Primary expressions -/

omit h in
/-- A literal is one level. -/
theorem literal : Grammar.literal.Yields fun e => (Node.expr e).Shallow (k + 1) := by
  refine .after fun kind => ?_
  split
  case h_2 =>
    refine .after fun t => .after fun kind => ?_
    split
    case h_4 => exact .fail _ _
    all_goals exact .pure (.leaf rfl rfl rfl)
  case h_9 | h_10 =>
    refine .after fun _ => .after fun t => ?_
    split
    · exact .pure (.leaf rfl rfl rfl)
    · exact .fail _ _
  case h_11 => exact .unexpected
  all_goals exact .after fun _ => .pure (.leaf rfl rfl rfl)

/-- An arrow function with a name for its parameter. -/
theorem nameOrArrow (start : Position) :
    (g.nameOrArrow start).Yields fun e => (Node.expr e).Shallow (k + 3) :=
  .after fun id => .after fun _ =>
    .ite (h.arrowOfName start id false) (.pure (.leaf rfl rfl rfl))

/-- As `nameOrArrow`, for an `async` function. -/
theorem asyncArrow (start : Position) :
    (g.asyncArrow start).Yields fun e => (Node.expr e).Shallow (k + 3) :=
  .after fun _ => .after fun id => .after fun _ => .ite (h.arrowOfName start id true) .unexpected

/-- Arguments that become parameters gain one level at most. -/
theorem asyncCallOrArrow (start : Position) :
    (g.asyncCallOrArrow start).Yields fun e => (Node.expr e).Shallow (k + 3) := by
  refine .after fun callee => .bind h.arguments fun arguments ha => .after fun _ => .ite ?_ ?_
  · refine .bind (.ofExcept fun ps hps => hps) fun params hparams => ?_
    exact h.arrowRest start true (shallow_of_toParams ha hparams)
  · refine .after fun loc => .pure (.chain rfl rfl (.leaf rfl rfl rfl) ?_)
    exact List.forall_mem_map.2 fun e he => (ha e he).weaken (Nat.le_succ _)

/-- Of what an identifier begins, functions are the deepest. -/
theorem identifierExpression :
    g.identifierExpression.Yields fun e => (Node.expr e).Shallow (k + 3) := by
  refine .after fun start => .after fun _ => .ite ?_ (.after fun _ => .ite ?_ (h.nameOrArrow start))
  · refine .after fun _ => .bind (h.function start true false) fun f hf => .pure ?_
    exact .succ rfl rfl (List.forall_mem_singleton.2 hf)
  · refine .after fun next => .ite (h.nameOrArrow start) ?_
    split
    · exact h.asyncArrow start
    · exact h.asyncCallOrArrow start
    · exact h.nameOrArrow start

/-- Items are as deep as assignments, and the rest as a rest is. -/
theorem parenItemsStep (before : List Expr) (hb : ∀ e ∈ before, (Node.expr e).Shallow k) :
    (g.parenItemsStep before).Yields
      (Sum.elim (fun items => ∀ e ∈ items, (Node.expr e).Shallow k)
        (Grammar.ParenItems.Shallow k)) := by
  have hreverse {items : List Expr} (hitems : ∀ e ∈ items, (Node.expr e).Shallow k) :
      ∀ e ∈ items.reverse, (Node.expr e).Shallow k :=
    fun e he => hitems e (List.mem_reverse.1 he)
  have hnone : ∀ p ∈ (none : Option Pat), (Node.pat .binding p).Shallow (k + 2) :=
    fun p hp => by cases hp
  refine .after fun isEnd => .ite (.pure ⟨hreverse hb, hnone⟩) (.after fun isRest => .ite ?_ ?_)
  · refine .bind h.restBinding fun rest hrest => .pure ⟨hreverse hb, fun p hp => ?_⟩
    cases hp
    exact hrest
  · refine .bind h.assignment fun item hi => ?_
    have hitems : ∀ e ∈ item :: before, (Node.expr e).Shallow k :=
      List.forall_mem_cons.2 ⟨hi, hb⟩
    refine .after fun _ => .ite (.pure ⟨hreverse hitems, hnone⟩) ?_
    exact .after fun _ => .after fun _ => .ite (.pure ⟨hreverse hitems, hnone⟩) (.pure hitems)

/-- Parentheses are one level above a sequence, and an arrow function above its parameters. -/
theorem parenOrArrow : g.parenOrArrow.Yields fun e => (Node.expr e).Shallow (k + 3) := by
  refine .after fun start => .after fun _ => ?_
  refine .bind (.allowIn (.repeatFrom h.parenItemsStep (List.forall_mem_nil _))) fun list ⟨hitems,
    hrest⟩ => ?_
  refine .after fun close => .after fun _ => ?_
  refine .ite ?_ ?_
  · refine .bind (.ofExcept fun ps hps => hps) fun params hparams => ?_
    refine h.arrowRest start false (List.forall_mem_append.2 ⟨fun p hp => ?_, fun p hp => ?_⟩)
    · exact (shallow_of_toParams hitems hparams p hp).weaken (Nat.le_succ _)
    · exact hrest p (Option.mem_toList.1 hp)
  · split
    · exact .fail _ _
    · rename_i hfirst
      rw [hfirst] at hitems
      refine .ite (.fail _ _) (.after fun loc => .pure (.succ rfl rfl ?_))
      refine List.forall_mem_singleton.2 ((Grammar.shallow_joined hitems).weaken ?_)
      exact Nat.le_succ _

/-- A call is one level above its arguments. -/
theorem importExpression :
    g.importExpression.Yields fun e => (Node.expr e).Shallow (k + 3) := by
  refine .after fun start => .after fun word => .after fun isMeta => .ite ?_ ?_
  · exact .after fun property =>
      .ite (.after fun loc => .pure (.leaf rfl rfl rfl)) (.fail _ _)
  · refine .bind h.arguments fun arguments ha => ?_
    replace ha : ∀ e ∈ arguments, (Node.expr e).Shallow (k + 2) :=
      fun e he => (ha e he).weaken (Nat.le_succ _)
    split
    · exact .fail _ _
    · obtain ⟨hsource, -⟩ := List.forall_mem_cons.1 ha
      exact .after fun loc => .pure (.succ rfl rfl (List.forall_mem_singleton.2 hsource))
    · obtain ⟨hsource, hoptions⟩ := List.forall_mem_cons.1 ha
      refine .after fun loc => .pure (.succ rfl rfl (List.forall_mem_cons.2 ⟨hsource, ?_⟩))
      exact List.forall_mem_map.2 hoptions
    · exact .fail _ _

/-! ## Array and object literals -/

/-- An element that is left out has no depth. -/
theorem elementOrHole :
    g.elementOrHole.Yields fun element => ∀ e ∈ element, (Node.expr e).Shallow (k + 1) :=
  .after fun _ => .ite .none h.spreadOrAssignment.itemAndComma.some

/-- An array literal is one level above its elements. -/
theorem arrayLiteral : g.arrayLiteral.Yields fun e => (Node.expr e).Shallow (k + 3) := by
  refine .after fun start => .after fun _ => .bind (.allowIn (.collectUntil h.elementOrHole))
    fun elements he => .after fun loc => .pure (.succ rfl rfl ?_)
  exact forall_mem_elements fun e hmem => (he _ hmem e rfl).weaken (Nat.le_succ _)

/-- A default value is kept in an assignment, which is a level. -/
theorem nameProperty (start : Position) (id : Ident) :
    (g.nameProperty start id).Yields fun p => (Node.property p).Shallow (k + 2) := by
  refine .after fun hasDefault => .ite ?_
    (.after fun loc => .pure (.part rfl rfl (List.forall_mem_nil _)))
  refine .bind h.assignment fun right hr => .after fun loc => .pure (.part rfl rfl ?_)
  refine List.forall_mem_cons.2 ⟨.part rfl rfl (List.forall_mem_nil _), ?_⟩
  refine List.forall_mem_singleton.2 (.succ rfl rfl (List.forall_mem_cons.2 ⟨?_, ?_⟩))
  · exact .leaf rfl rfl rfl
  · exact List.forall_mem_singleton.2 (hr.weaken (Nat.le_succ k))

/-- Of what follows a key, a method is the deepest. -/
theorem propertyRest (start : Position) (m : Grammar.MethodModifiers) (mayBeShorthand : Bool)
    {key : Key} (hkey : (Node.key key).Shallow k) :
    (g.propertyRest start m mayBeShorthand key).Yields fun p =>
      (Node.property p).Shallow (k + 2) := by
  replace hkey := hkey.weaken (Nat.le_add_right k 2)
  refine .after fun isMethod => .ite ?_ (.ite .unexpected (.after fun hasValue => .ite ?_ ?_))
  · refine .bind (h.methodRest m) fun value hvalue => .after fun loc => .pure (.part rfl rfl ?_)
    exact List.forall_mem_cons.2 ⟨hkey, List.forall_mem_singleton.2 hvalue⟩
  · refine .bind h.assignment fun value hvalue => .after fun loc => .pure (.part rfl rfl ?_)
    refine List.forall_mem_cons.2 ⟨hkey, List.forall_mem_singleton.2 ?_⟩
    exact hvalue.weaken (Nat.le_add_right k 2)
  · split
    · exact .ite (h.nameProperty start _) (.fail _ _)
    · exact .unexpected

/-- A spread is as deep as its argument. -/
theorem property : g.property.Yields fun p => (Node.property p).Shallow (k + 2) := by
  refine .after fun start => .after fun isSpread => .ite ?_ ?_
  · refine .bind h.assignment fun argument ha => .after fun loc => .pure (.part rfl rfl ?_)
    exact List.forall_mem_singleton.2 (ha.weaken (Nat.le_add_right k 2))
  · exact .after fun m => .after fun mayBeShorthand => .bind h.key fun key hkey =>
      h.propertyRest start m mayBeShorthand hkey

/-- An object literal is one level above its properties. -/
theorem objectLiteral : g.objectLiteral.Yields fun e => (Node.expr e).Shallow (k + 3) := by
  refine .after fun start => .after fun _ => .bind h.property.commaSeparated.allowIn
    fun properties hp => .after fun loc => .pure (.succ rfl rfl ?_)
  exact List.forall_mem_map.2 hp

/-- No primary expression adds more than three levels. -/
theorem primary : g.primary.Yields fun e => (Node.expr e).Shallow (k + 3) := by
  refine .after fun kind => ?_
  split
  · exact h.parenOrArrow
  · exact h.arrayLiteral
  · exact h.objectLiteral
  · refine .after fun start => .bind (h.function start false false) fun f hf => .pure ?_
    exact .succ rfl rfl (List.forall_mem_singleton.2 hf)
  · refine .bind (h.classDefinition false) fun c hc => .pure ?_
    exact .succ rfl rfl (List.forall_mem_singleton.2 hc)
  · exact h.importExpression
  · exact h.identifierExpression
  · refine .bind (h.template false) fun t ht => .pure (.succ rfl rfl ?_)
    exact List.forall_mem_singleton.2 (ht.weaken (Nat.le_succ _))
  · refine .bind (h.template false) fun t ht => .pure (.succ rfl rfl ?_)
    exact List.forall_mem_singleton.2 (ht.weaken (Nat.le_succ _))
  · exact literal.mono fun e he => he.weaken (Nat.le_add_right (k + 1) 2)

end Grammar.Shallow

end WithScope
