import WithScope.Grammar.Primary
import WithScope.Proofs.Grammar.Yields
import WithScope.Proofs.Tree.Legal

/-!
# Primary expressions are read as legal trees

`Grammar.Legal` says that the productions through which the grammar contains itself yield legal
trees. Then so do the productions that are made of them: here those of patterns, functions and
classes, and of primary expressions. Parameters and patterns come legal from the productions that
declare names, and from the ones that read expressions again.
-/

namespace WithScope

open WithScope.Parser (Yields)

/-- The productions through which a grammar contains itself yield legal trees. -/
structure Grammar.Legal (g : Grammar) : Prop where
  statement : ∀ isTopLevel, (g.statement isTopLevel).Yields fun s => (Node.stmt s).Legal
  assignment : g.assignment.Yields Expr.Operand
  operation : ∀ floor, (g.operation floor).Yields Expr.Operand
  unary : g.unary.Yields Expr.Operand
  leftHandSide : g.leftHandSide.Yields Expr.Operand
  newExpr : g.newExpr.Yields Expr.Operand
  arrayPattern : g.arrayPattern.Yields (Pat.Target .binding)
  objectPattern : g.objectPattern.Yields (Pat.Target .binding)

/-- What stands in parentheses is legal, each item by itself. -/
def Grammar.ParenItems.Legal (list : Grammar.ParenItems) : Prop :=
  (∀ e ∈ list.items, e.Operand) ∧ ∀ p ∈ list.rest, (Node.pat .binding p).Legal

/-- Expressions separated by commas are legal as one expression. -/
theorem Grammar.legal_joined {first : Expr} {others : List Expr}
    (h : ∀ e ∈ first :: others, e.Operand) : (Node.expr (joined first others)).Legal := by
  cases others with
  | nil => exact (h first (List.mem_cons_self ..)).legal
  | cons second others => exact .intro trivial (List.forall_mem_map.2 fun e he => (h e he).legal)

namespace Grammar.Legal

variable {g : Grammar} (h : g.Legal)
include h

/-! ## Expressions in brackets -/

/-- A sequence is legal if its expressions are. -/
theorem expression : g.expression.Yields fun e => (Node.expr e).Legal := by
  refine .after fun start => .bind h.assignment fun first hfirst => .after fun isList => .ite ?_ ?_
  · refine .bind h.assignment.afterCommas fun others hothers => .after fun loc => .pure ?_
    refine .intro trivial (List.forall_mem_map.2 fun e he => ?_)
    exact (List.forall_mem_cons.2 ⟨hfirst, hothers⟩ e he).legal
  · exact .pure hfirst.legal

/-- The parentheses of a statement leave no node behind. -/
theorem parenExpression : g.parenExpression.Yields fun e => (Node.expr e).Legal :=
  .after fun _ => .bind h.expression.allowIn fun _ he => .after fun _ => .pure he

/-- The brackets of an access leave no node behind. -/
theorem bracketExpression : g.bracketExpression.Yields fun e => (Node.expr e).Legal :=
  .bind h.expression.allowIn fun _ he => .after fun _ => .pure he

/-- A spread is legal wherever it stands; only rest elements have to be the last. -/
theorem spreadOrAssignment : g.spreadOrAssignment.Yields fun e => (Node.expr e).Legal := by
  refine .after fun start => .after fun isSpread =>
    .ite ?_ (h.assignment.mono fun e he => he.legal)
  refine .bind h.assignment fun argument ha => .after fun loc => .pure ?_
  exact .intro trivial (List.forall_mem_singleton.2 ha.legal)

/-- The arguments of a call are legal, spreads among them. -/
theorem arguments : g.arguments.Yields fun es => ∀ e ∈ es, (Node.expr e).Legal :=
  .after fun _ => h.spreadOrAssignment.commaSeparated.allowIn

/-- A computed key is legal if its expression is. -/
theorem key : g.key.Yields fun k => (Node.key k).Legal := by
  refine .after fun kind => ?_
  split
  · exact .after fun _ => .pure (.leaf trivial rfl)
  · exact .after fun _ => .pure (.leaf trivial rfl)
  · exact .after fun _ => .pure (.leaf trivial rfl)
  · exact .after fun _ => .pure (.leaf trivial rfl)
  · refine .after fun _ => .bind h.assignment.allowIn fun e he => .after fun _ => .pure ?_
    exact .intro trivial (List.forall_mem_singleton.2 he.legal)
  · exact .after fun _ => .pure (.leaf trivial rfl)

/-- A template is legal if its expressions are. -/
theorem template (isTagged : Bool) :
    (g.template isTagged).Yields fun t => (Node.template t).Legal := by
  -- the expressions read so far are legal
  let legalParts (parts : Grammar.TemplateParts) : Prop :=
    ∀ e ∈ parts.expressions, (Node.expr e).Legal
  have hstep : ∀ parts, legalParts parts →
      (g.templateStep isTagged parts).Yields (Sum.elim legalParts legalParts) := by
    refine fun parts hparts => .after fun t => .ite (.fail _ _) (.ite (.pure hparts) ?_)
    refine .bind h.expression.allowIn fun e he => .after fun kind => ?_
    split
    · exact .pure (List.forall_mem_cons.2 ⟨he, hparts⟩)
    · exact .pure (List.forall_mem_cons.2 ⟨he, hparts⟩)
    · exact .unexpected
  refine .after fun start => .bind (.repeatFrom hstep (List.forall_mem_nil _)) fun parts hparts =>
    .after fun loc => .pure ?_
  refine .intro trivial (List.forall_mem_map.2 fun e he => ?_)
  exact hparts e (List.mem_reverse.1 he)

/-! ## Patterns that declare names -/

/-- A target that declares names is a name or a pattern that holds such targets. -/
theorem bindingTarget : g.bindingTarget.Yields (Pat.Target .binding) := by
  refine .after fun kind => ?_
  split
  · exact h.arrayPattern
  · exact h.objectPattern
  · exact .after fun id => .pure (Pat.target_ident .binding id)

/-- A target with a default value is a target, and no rest element. -/
theorem bindingElement : g.bindingElement.Yields (Pat.Target .binding) := by
  refine .after fun start => .bind h.bindingTarget fun target ht => .after fun hasDefault =>
    .ite ?_ (.pure ht)
  refine .bind h.assignment.allowIn fun right hr => .after fun loc => .pure ⟨?_, rfl⟩
  exact .intro ht.isRest (List.forall_mem_cons.2 ⟨ht.legal, List.forall_mem_singleton.2 hr.legal⟩)

/-- A rest element is legal by itself; where it stands is a matter of the list. -/
theorem restBinding : g.restBinding.Yields fun p => (Node.pat .binding p).Legal := by
  refine .after fun start => .after fun _ => .bind h.bindingTarget fun argument ha =>
    .after fun loc => .pure ?_
  exact .intro ha.isRest (List.forall_mem_singleton.2 ha.legal)

/-- An element that is left out is no rest element. -/
theorem bindingElementOrHole :
    g.bindingElementOrHole.Yields fun element => ∀ p ∈ element, p.Target .binding := by
  exact .after fun isHole => .ite .none h.bindingElement.itemAndComma.some

/-- A rest is read only at the end of an array pattern. -/
theorem arrayPatternBody : g.arrayPatternBody.Yields (Pat.Target .binding) := by
  refine .after fun start => .after fun _ => ?_
  refine .bind (.itemsWithRest h.bindingElementOrHole h.restBinding.some fun element he p hp => (he
    p hp).legal) fun elements ⟨hlast, hall⟩ => ?_
  refine .after fun loc => .pure ⟨.intro ?_ ?_, rfl⟩
  · intro element he
    cases element with
    | none => rfl
    | some p => exact (hlast _ he p rfl).isRest
  · exact forall_mem_elements fun p hp => hall _ hp p rfl

/-- A property that is not read as a rest is none. -/
theorem bindingProperty :
    g.bindingProperty.Yields fun p => (Node.patProperty .binding p).Legal ∧ p.isRest = false := by
  refine .after fun start => .after fun mayBeShorthand => .bind h.key fun key hkey =>
    .after fun hasValue => .ite ?_ ?_
  · refine .bind h.bindingElement fun value hv => .after fun loc => .pure ⟨.intro hv.isRest ?_, rfl⟩
    exact List.forall_mem_cons.2 ⟨hkey, List.forall_mem_singleton.2 hv.legal⟩
  · split
    · refine .ite (.fail _ _) (.after fun hasDefault => .ite ?_ ?_)
      · refine .bind h.assignment.allowIn fun value hv => .after fun loc => .pure ⟨?_, rfl⟩
        exact .intro trivial (List.forall_mem_singleton.2 hv.legal)
      · exact .after fun loc => .pure ⟨.leaf trivial rfl, rfl⟩
    · exact .unexpected

omit h in
/-- The rest of an object pattern is a name. -/
theorem restProperty : Grammar.restProperty.Yields fun p => (Node.patProperty .binding p).Legal := by
  refine .after fun start => .after fun _ => .after fun id => .after fun loc => .pure ?_
  exact .intro rfl (List.forall_mem_singleton.2 (Pat.target_ident .binding id).legal)

/-- A rest is read only at the end of an object pattern. -/
theorem objectPatternBody : g.objectPatternBody.Yields (Pat.Target .binding) := by
  refine .after fun start => .after fun _ => ?_
  refine .bind (.itemsWithRest h.bindingProperty.itemAndComma restProperty fun p hp => hp.1) fun
    properties ⟨hlast, hall⟩ => ?_
  refine .after fun loc => .pure ⟨.intro ?_ ?_, rfl⟩
  · exact fun p hp => (hlast p hp).2
  · exact List.forall_mem_map.2 hall

/-! ## Functions -/

/-- A block is legal if its statements are. -/
theorem block : g.block.Yields fun b => (Node.block b).Legal := by
  refine .after fun start => .after fun _ => ?_
  have hitem := h.statement false
  refine .bind (.collectUntil (.after fun isEnd => .ite .unexpected hitem)) fun body hbody => ?_
  refine .after fun _ => .after fun loc => ?_
  refine .pure ?_
  exact .intro trivial (List.forall_mem_map.2 hbody)

/-- A rest is read only as the last of the parameters. -/
theorem params : g.params.Yields fun ps =>
    RestLast Pat.isRest ps ∧ ∀ p ∈ ps, (Node.pat .binding p).Legal := by
  refine .after fun _ => .mono (.itemsWithRest h.bindingElement.itemAndComma h.restBinding
    fun p hp => hp.legal) fun ps hps => ⟨fun p hp => (hps.1 p hp).isRest, hps.2⟩

/-- A function needs legal parameters, the rest at their end, and a legal body. -/
theorem functionRest (start : Position) (id : Option Ident) (isAsync isGenerator : Bool) :
    (g.functionRest start id isAsync isGenerator).Yields fun f => (Node.function f).Legal := by
  have hbody : (do let params ← g.params
                   let body ← g.block
                   return (params, body) : Parser (List Pat × Block)).Yields fun f =>
      (RestLast Pat.isRest f.1 ∧ ∀ p ∈ f.1, (Node.pat .binding p).Legal) ∧
        (Node.block f.2).Legal :=
    .bind h.params fun params hparams => .bind h.block fun body hbody => .pure ⟨hparams, hbody⟩
  refine .bind hbody.inBody fun ⟨params, body⟩ ⟨⟨hlast, hparams⟩, hbody⟩ => .after fun loc =>
    .pure (.intro hlast ?_)
  exact List.forall_mem_append.2
    ⟨List.forall_mem_map.2 hparams, List.forall_mem_singleton.2 hbody⟩

/-- As `functionRest`; names are always legal. -/
theorem function (start : Position) (isAsync nameRequired : Bool) :
    (g.function start isAsync nameRequired).Yields fun f => (Node.function f).Legal :=
  .after fun _ => .after fun isGenerator => .after fun id =>
    h.functionRest start id isAsync isGenerator

/-- As `functionRest`, for a method. -/
theorem methodRest (m : Grammar.MethodModifiers) :
    (g.methodRest m).Yields fun f => (Node.function f).Legal :=
  .after fun start => h.functionRest start none m.isAsync m.isGenerator

/-- An arrow function is legal if its parameters are and its body is. -/
theorem arrowRest (start : Position) {params : List Pat} (isAsync : Bool)
    (hlast : RestLast Pat.isRest params) (hparams : ∀ p ∈ params, (Node.pat .binding p).Legal) :
    (g.arrowRest start params isAsync).Yields Expr.Operand := by
  have hbody : (do if ← Parser.atMark .leftBrace then
                     return ArrowBody.block (← Parser.allowIn g.block)
                   else return ArrowBody.expr (← g.assignment) : Parser ArrowBody).Yields
      fun body => body.node.Legal := by
    refine .after fun isBlock => .ite ?_ ?_
    · exact .bind h.block.allowIn fun body hbody => .pure hbody
    · exact .bind h.assignment fun value hvalue => .pure hvalue.legal
  refine .after fun _ => .after fun around => .bind hbody.inBody fun body hbody =>
    .after fun loc => .pure ⟨.intro hlast ?_, rfl⟩
  exact List.forall_mem_append.2
    ⟨List.forall_mem_map.2 hparams, List.forall_mem_singleton.2 hbody⟩

/-- An arrow function of one bare parameter. -/
theorem arrowOfName (start : Position) (id : Ident) (isAsync : Bool) :
    (g.arrowRest start [.ident id] isAsync).Yields Expr.Operand :=
  h.arrowRest start isAsync (restLast_singleton _ _)
    (List.forall_mem_singleton.2 (Pat.target_ident .binding id).legal)

/-! ## Classes -/

/-- A method is legal if its key and its function are. -/
theorem classMethod (start : Position) (isStatic : Bool) (m : Grammar.MethodModifiers) {key : Key}
    (hkey : (Node.key key).Legal) :
    (g.classMethod start isStatic m key).Yields fun m => (Node.member m).Legal := by
  refine .bind (h.methodRest m) fun value hvalue => .after fun loc => .pure (.intro trivial ?_)
  exact List.forall_mem_cons.2 ⟨hkey, List.forall_mem_singleton.2 hvalue⟩

/-- A field is legal if its key is and its value is. -/
theorem classField (start : Position) (isStatic : Bool) {key : Key}
    (hkey : (Node.key key).Legal) :
    (g.classField start isStatic key).Yields fun m => (Node.member m).Legal := by
  refine .after fun hasValue => .join h.assignment.inBody.some .none fun value hvalue =>
    .after fun _ => .after fun loc => .pure (.intro trivial (List.forall_mem_cons.2 ⟨hkey, ?_⟩))
  refine forall_mem_toList fun e he => ?_
  exact .intro trivial (List.forall_mem_singleton.2 (hvalue e he).legal)

/-- An element of a class is legal, whichever it turns out to be. -/
theorem methodOrField (start : Position) (isStatic : Bool) :
    (g.methodOrField start isStatic).Yields fun m => (Node.member m).Legal := by
  refine .after fun m => .bind h.key fun _ hkey => ?_
  refine .after fun _ => ?_
  exact .ite (h.classMethod start isStatic m hkey) (.ite (h.classField start isStatic hkey)
    .unexpected)

/-- A static block is legal if its statements are. -/
theorem member : g.member.Yields fun m => (Node.member m).Legal := by
  refine .after fun start => .after fun isStatic => .ite ?_ (h.methodOrField start false)
  refine .after fun _ => .after fun isBlock => .ite ?_ (h.methodOrField start true)
  refine .bind h.block.inBody fun b hb => .after fun loc => .pure (.intro trivial ?_)
  exact fun c hc => hb.of_mem_children hc

/-- The elements of a class are legal one by one. -/
theorem members : g.members.Yields fun ms => ∀ m ∈ ms, (Node.member m).Legal := by
  refine .repeatFrom (P := fun ms => ∀ m ∈ ms, (Node.member m).Legal) (fun ms hms => ?_)
    (List.forall_mem_nil _)
  refine .after fun isEnd => .ite ?_ (.after fun isEmpty => .ite ?_ ?_)
  · exact .pure fun m hm => hms m (List.mem_reverse.1 hm)
  · exact .pure hms
  · exact .bind h.member fun m hm => .pure (List.forall_mem_cons.2 ⟨hm, hms⟩)

/-- A class is legal if what it extends and its elements are. -/
theorem classDefinition (nameRequired : Bool) :
    (g.classDefinition nameRequired).Yields fun c => (Node.class c).Legal := by
  refine .after fun start => .after fun _ => .after fun id => ?_
  refine .after fun hasSuperClass => .join h.leftHandSide.some .none fun superClass hsuper => ?_
  refine .after fun bodyStart => .after fun _ => .bind h.members fun ms hms => ?_
  refine .after fun bodyLoc => .after fun loc => ?_
  refine .pure (.intro trivial ?_)
  refine List.forall_mem_append.2 ⟨?_, List.forall_mem_map.2 hms⟩
  exact forall_mem_toList fun e he => (hsuper e he).legal

/-! ## Primary expressions -/

omit h in
/-- A literal is an operand, which is no spread and legal. -/
theorem literal : Grammar.literal.Yields Expr.Operand := by
  refine .after fun kind => ?_
  split
  case h_2 =>
    refine .after fun t => .after fun kind => ?_
    split
    · exact .pure ⟨.leaf trivial rfl, rfl⟩
    · exact .pure ⟨.leaf trivial rfl, rfl⟩
    · exact .pure ⟨.leaf trivial rfl, rfl⟩
    · exact .fail _ _
  case h_9 | h_10 =>
    refine .after fun _ => .after fun t => ?_
    split
    · exact .pure ⟨.leaf trivial rfl, rfl⟩
    · exact .fail _ _
  case h_11 => exact .unexpected
  all_goals exact .after fun _ => .pure ⟨.leaf trivial rfl, rfl⟩

/-- A name is an operand, and so is an arrow function. -/
theorem nameOrArrow (start : Position) : (g.nameOrArrow start).Yields Expr.Operand :=
  .after fun id => .after fun _ =>
    .ite (h.arrowOfName start id false) (.pure ⟨.leaf trivial rfl, rfl⟩)

/-- A single parameter is a name, and no rest. -/
theorem asyncArrow (start : Position) : (g.asyncArrow start).Yields Expr.Operand :=
  .after fun _ => .after fun id => .after fun _ => .ite (h.arrowOfName start id true) .unexpected

/-- Arguments that are read again are legal parameters, with a rest only at their end. -/
theorem asyncCallOrArrow (start : Position) : (g.asyncCallOrArrow start).Yields Expr.Operand := by
  refine .after fun callee => .bind h.arguments fun arguments ha => .after fun _ => .ite ?_ ?_
  · refine .bind (.ofExcept fun ps hps => hps) fun params hparams => ?_
    obtain ⟨hlast, hlegal⟩ := legal_of_toParams ha hparams
    exact h.arrowRest start true hlast hlegal
  · refine .after fun loc => .pure ⟨.intro trivial (List.forall_mem_cons.2 ⟨?_, ?_⟩), rfl⟩
    · exact Node.Legal.leaf trivial rfl
    · exact List.forall_mem_map.2 ha

/-- Whatever an identifier begins is an operand. -/
theorem identifierExpression : g.identifierExpression.Yields Expr.Operand := by
  refine .after fun start => .after fun _ => .ite ?_ (.after fun _ => .ite ?_ (h.nameOrArrow start))
  · refine .after fun _ => .bind (h.function start true false) fun f hf => .pure ⟨?_, rfl⟩
    exact .intro trivial (List.forall_mem_singleton.2 hf)
  · refine .after fun next => .ite (h.nameOrArrow start) ?_
    split
    · exact h.asyncArrow start
    · exact h.asyncCallOrArrow start
    · exact h.nameOrArrow start

/-- The items in parentheses are operands, and the rest is legal by itself. -/
theorem parenItemsStep (before : List Expr) (hb : ∀ e ∈ before, e.Operand) :
    (g.parenItemsStep before).Yields
      (Sum.elim (fun items => ∀ e ∈ items, e.Operand) Grammar.ParenItems.Legal) := by
  have hreverse {items : List Expr} (hitems : ∀ e ∈ items, e.Operand) :
      ∀ e ∈ items.reverse, e.Operand := fun e he => hitems e (List.mem_reverse.1 he)
  have hnone : ∀ p ∈ (none : Option Pat), (Node.pat .binding p).Legal := fun p hp => by cases hp
  refine .after fun isEnd => .ite (.pure ⟨hreverse hb, hnone⟩) (.after fun isRest => .ite ?_ ?_)
  · refine .bind h.restBinding fun rest hrest => .pure ⟨hreverse hb, fun p hp => ?_⟩
    cases hp
    exact hrest
  · refine .bind h.assignment fun item hi => ?_
    have hitems : ∀ e ∈ item :: before, e.Operand := List.forall_mem_cons.2 ⟨hi, hb⟩
    refine .after fun _ => .ite (.pure ⟨hreverse hitems, hnone⟩) ?_
    exact .after fun _ => .after fun _ => .ite (.pure ⟨hreverse hitems, hnone⟩) (.pure hitems)

omit h in
/-- The parameters that a parenthesized list spells are legal. -/
theorem parenParams {list : Grammar.ParenItems} (hlist : list.Legal) {params : List Pat}
    (hparams : toParams list.items = .ok params) :
    RestLast Pat.isRest (params ++ list.rest.toList) ∧
      ∀ p ∈ params ++ list.rest.toList, (Node.pat .binding p).Legal := by
  obtain ⟨items, rest, trailingComma⟩ := list
  obtain ⟨hitems, hrest⟩ := hlist
  obtain ⟨hlast, hlegal⟩ := legal_of_toParams (fun e he => (hitems e he).legal) hparams
  cases rest with
  | none =>
    rw [Option.toList_none, List.append_nil]
    exact ⟨hlast, hlegal⟩
  | some p =>
    rw [Option.toList_some, RestLast, List.dropLast_concat]
    refine ⟨isRest_of_toParams hitems hparams, List.forall_mem_append.2 ⟨hlegal, ?_⟩⟩
    exact List.forall_mem_singleton.2 (hrest p rfl)

/-- A rest parameter stands behind the items, none of which is one. -/
theorem parenOrArrow : g.parenOrArrow.Yields Expr.Operand := by
  refine .after fun start => .after fun _ => ?_
  have hitems := Yields.repeatFrom h.parenItemsStep (List.forall_mem_nil _)
  refine .bind hitems.allowIn fun list hlist => ?_
  refine .after fun close => .after fun _ => ?_
  refine .ite ?_ ?_
  · refine .bind (.ofExcept fun ps hps => hps) fun params hparams => ?_
    obtain ⟨hlast, hlegal⟩ := parenParams hlist hparams
    exact h.arrowRest start false hlast hlegal
  · split
    · exact .fail _ _
    · refine .ite (.fail _ _) (.after fun loc => .pure ⟨.intro trivial ?_, rfl⟩)
      have hitems := hlist.1
      rw [‹list.items = _›] at hitems
      exact List.forall_mem_singleton.2 (Grammar.legal_joined hitems)

/-- An import that is called is legal if its arguments are. -/
theorem importExpression : g.importExpression.Yields Expr.Operand := by
  refine .after fun start => .after fun word => .after fun isMeta => .ite ?_ ?_
  · refine .after fun property => .ite (.after fun loc => .pure ?_) (.fail _ _)
    exact ⟨.leaf trivial rfl, rfl⟩
  · refine .bind h.arguments fun arguments ha => ?_
    split
    · exact .fail _ _
    · exact .after fun loc => .pure ⟨.intro trivial (List.forall_mem_map.2 ha), rfl⟩
    · exact .after fun loc => .pure ⟨.intro trivial (List.forall_mem_map.2 ha), rfl⟩
    · exact .fail _ _

/-! ## Array and object literals -/

/-- An element that is left out has nothing illegal in it. -/
theorem elementOrHole : g.elementOrHole.Yields fun element => ∀ e ∈ element, (Node.expr e).Legal :=
  .after fun _ => .ite .none h.spreadOrAssignment.itemAndComma.some

/-- Spreads may stand anywhere in an array literal. -/
theorem arrayLiteral : g.arrayLiteral.Yields Expr.Operand := by
  refine .after fun start => .after fun _ => .bind (.allowIn (.collectUntil h.elementOrHole))
    fun elements he => .after fun loc => .pure ⟨.intro trivial ?_, rfl⟩
  exact forall_mem_elements fun e hmem => he _ hmem e rfl

/-- A default value is kept as an assignment to a name, which is legal. -/
theorem nameProperty (start : Position) (id : Ident) :
    (g.nameProperty start id).Yields fun p => (Node.property p).Legal := by
  refine .after fun hasDefault => .ite ?_ (.after fun loc => .pure (.leaf trivial rfl))
  refine .bind h.assignment fun right hr => .after fun loc => .pure (.intro trivial ?_)
  refine List.forall_mem_cons.2 ⟨Node.Legal.leaf trivial rfl, List.forall_mem_singleton.2 ?_⟩
  refine .intro ⟨rfl, fun hne => absurd rfl hne⟩ (List.forall_mem_cons.2 ⟨?_, ?_⟩)
  · exact (Pat.target_ident .assignment id).legal
  · exact List.forall_mem_singleton.2 hr.legal

/-- What follows a key is a method, a value or nothing. -/
theorem propertyRest (start : Position) (m : Grammar.MethodModifiers) (mayBeShorthand : Bool)
    {key : Key} (hkey : (Node.key key).Legal) :
    (g.propertyRest start m mayBeShorthand key).Yields fun p => (Node.property p).Legal := by
  refine .after fun isMethod => .ite ?_ (.ite .unexpected (.after fun hasValue => .ite ?_ ?_))
  · refine .bind (h.methodRest m) fun value hvalue => .after fun loc => .pure (.intro trivial ?_)
    exact List.forall_mem_cons.2 ⟨hkey, List.forall_mem_singleton.2 hvalue⟩
  · refine .bind h.assignment fun value hvalue => .after fun loc => .pure (.intro trivial ?_)
    exact List.forall_mem_cons.2 ⟨hkey, List.forall_mem_singleton.2 hvalue.legal⟩
  · split
    · exact .ite (h.nameProperty start _) (.fail _ _)
    · exact .unexpected

/-- A property is legal if its key and its value are. -/
theorem property : g.property.Yields fun p => (Node.property p).Legal := by
  refine .after fun start => .after fun isSpread => .ite ?_ ?_
  · refine .bind h.assignment fun argument ha => .after fun loc => .pure (.intro trivial ?_)
    exact List.forall_mem_singleton.2 ha.legal
  · exact .after fun m => .after fun mayBeShorthand => .bind h.key fun key hkey =>
      h.propertyRest start m mayBeShorthand hkey

/-- Spreads may stand anywhere in an object literal. -/
theorem objectLiteral : g.objectLiteral.Yields Expr.Operand := by
  refine .after fun start => .after fun _ => .bind h.property.commaSeparated.allowIn
    fun properties hp => .after fun loc => .pure ⟨.intro trivial ?_, rfl⟩
  exact List.forall_mem_map.2 hp

/-- A primary expression is an operand. -/
theorem primary : g.primary.Yields Expr.Operand := by
  refine .after fun kind => ?_
  split
  · exact h.parenOrArrow
  · exact h.arrayLiteral
  · exact h.objectLiteral
  · refine .after fun start => .bind (h.function start false false) fun f hf => .pure ⟨?_, rfl⟩
    exact .intro trivial (List.forall_mem_singleton.2 hf)
  · refine .bind (h.classDefinition false) fun c hc => .pure ⟨?_, rfl⟩
    exact .intro trivial (List.forall_mem_singleton.2 hc)
  · exact h.importExpression
  · exact h.identifierExpression
  · refine .bind (h.template false) fun t ht => .pure ⟨?_, rfl⟩
    exact .intro trivial (List.forall_mem_singleton.2 ht)
  · refine .bind (h.template false) fun t ht => .pure ⟨?_, rfl⟩
    exact .intro trivial (List.forall_mem_singleton.2 ht)
  · exact literal

end Grammar.Legal

end WithScope
