import WithScope.Grammar.Primary
import WithScope.Proofs.Grammar.Surroundings
import WithScope.Proofs.Grammar.Yields

/-!
# Primary expressions fit where they are read

`Grammar.Fitting` says that the productions through which the grammar contains itself yield trees
that fit the frames around them, as far as the surrounding in which they are read describes these
frames. Then so do the productions that are made of them: here those of patterns, functions and
classes, and of primary expressions.

A production that reads in a surrounding of its own does so for the sake of a frame. The parameters
of an arrow function are an exception in both respects: they are read as expressions before the arrow
is seen, in the surrounding of the arrow function, and belong to no frame of it.
-/

namespace WithScope

open WithScope.Parser (YieldsIn)

/-- The productions through which a grammar contains itself yield trees that fit. -/
structure Grammar.Fitting (g : Grammar) : Prop where
  statement : ∀ {env fs}, env.Describes fs → ∀ isTopLevel, (isTopLevel = true → fs = []) →
    (g.statement isTopLevel).YieldsIn env fun s => (Node.stmt s).Fits env.options fs
  assignment : ∀ {env fs}, env.Describes fs →
    g.assignment.YieldsIn env fun e => (Node.expr e).Fits env.options fs
  operation : ∀ {env fs}, env.Describes fs → ∀ floor,
    (g.operation floor).YieldsIn env fun e => (Node.expr e).Fits env.options fs
  unary : ∀ {env fs}, env.Describes fs →
    g.unary.YieldsIn env fun e => (Node.expr e).Fits env.options fs
  leftHandSide : ∀ {env fs}, env.Describes fs →
    g.leftHandSide.YieldsIn env fun e => (Node.expr e).Fits env.options fs
  newExpr : ∀ {env fs}, env.Describes fs →
    g.newExpr.YieldsIn env fun e => (Node.expr e).Fits env.options fs
  arrayPattern : ∀ {env fs}, env.Describes fs →
    g.arrayPattern.YieldsIn env fun p => (Node.pat .binding p).Fits env.options fs
  objectPattern : ∀ {env fs}, env.Describes fs →
    g.objectPattern.YieldsIn env fun p => (Node.pat .binding p).Fits env.options fs

/-- What stands in parentheses fits, each item by itself. -/
def Grammar.ParenItems.Fits (o : Options) (fs : List Frame) (list : Grammar.ParenItems) : Prop :=
  (∀ e ∈ list.items, (Node.expr e).Fits o fs) ∧ ∀ p ∈ list.rest, (Node.pat .binding p).Fits o fs

/-- Expressions separated by commas fit as one expression. -/
theorem Grammar.fits_joined {o : Options} {fs : List Frame} {first : Expr} {others : List Expr}
    (h : ∀ e ∈ first :: others, (Node.expr e).Fits o fs) :
    (Node.expr (joined first others)).Fits o fs := by
  cases others with
  | nil => exact h first (List.mem_cons_self ..)
  | cons second others => exact .intro trivial (List.forall_mem_map.2 h)

namespace Grammar.Fitting

variable {g : Grammar} (h : g.Fitting) {env : Surrounding} {fs : List Frame}
  (hd : env.Describes fs)
include h hd

/-! ## Expressions in brackets -/

/-- A statement that is not at the top fits the frames around it. -/
theorem nestedStatement :
    (g.statement false).YieldsIn env fun s => (Node.stmt s).Fits env.options fs :=
  h.statement hd false nofun

/-- In brackets `in` is an operator again, which no frame is concerned with. -/
theorem enclosedAssignment :
    (Parser.allowIn g.assignment).YieldsIn env fun e => (Node.expr e).Fits env.options fs :=
  (h.assignment (hd.setNoIn false)).allowIn

/-- Each expression of a sequence fits where the sequence does. -/
theorem expression : g.expression.YieldsIn env fun e => (Node.expr e).Fits env.options fs := by
  refine .after fun start => .bind (h.assignment hd) fun first hfirst => .after fun isList =>
    .ite ?_ (.pure hfirst)
  refine .bind (h.assignment hd).afterCommas fun others hothers => .after fun loc => .pure ?_
  exact .intro trivial (List.forall_mem_map.2 (List.forall_mem_cons.2 ⟨hfirst, hothers⟩))

/-- As `enclosedAssignment`, with commas. -/
theorem enclosedExpression :
    (Parser.allowIn g.expression).YieldsIn env fun e => (Node.expr e).Fits env.options fs :=
  (h.expression (hd.setNoIn false)).allowIn

theorem parenExpression :
    g.parenExpression.YieldsIn env fun e => (Node.expr e).Fits env.options fs :=
  .after fun _ => .bind (h.enclosedExpression hd) fun _ he => .after fun _ => .pure he

theorem bracketExpression :
    g.bracketExpression.YieldsIn env fun e => (Node.expr e).Fits env.options fs :=
  .bind (h.enclosedExpression hd) fun _ he => .after fun _ => .pure he

/-- A spread is no frame for its argument. -/
theorem spreadOrAssignment :
    g.spreadOrAssignment.YieldsIn env fun e => (Node.expr e).Fits env.options fs := by
  refine .after fun start => .after fun isSpread => .ite ?_ (h.assignment hd)
  refine .bind (h.assignment hd) fun argument ha => .after fun loc => .pure ?_
  exact .intro trivial (List.forall_mem_singleton.2 ha)

/-- The arguments of a call fit where the call does. -/
theorem arguments :
    g.arguments.YieldsIn env fun es => ∀ e ∈ es, (Node.expr e).Fits env.options fs :=
  .after fun _ => .allowIn (h.spreadOrAssignment (hd.setNoIn false)).commaSeparated

/-- A computed key belongs to what is around the class or object. -/
theorem key : g.key.YieldsIn env fun k => (Node.key k).Fits env.options fs := by
  refine .after fun kind => ?_
  split
  case h_5 =>
    refine .after fun _ => .bind (h.enclosedAssignment hd) fun e he => .after fun _ => .pure ?_
    exact .intro trivial (List.forall_mem_singleton.2 he)
  all_goals exact .after fun _ => .pure (.leaf trivial rfl)

/-- The expressions in a template fit where the template does. -/
theorem template (isTagged : Bool) :
    (g.template isTagged).YieldsIn env fun t => (Node.template t).Fits env.options fs := by
  -- the expressions read so far fit
  let fit (parts : Grammar.TemplateParts) : Prop :=
    ∀ e ∈ parts.expressions, (Node.expr e).Fits env.options fs
  have hstep : ∀ parts, fit parts →
      (g.templateStep isTagged parts).YieldsIn env (Sum.elim fit fit) := by
    refine fun parts hparts => .after fun t => .ite (.fail _ _) (.ite (.pure hparts) ?_)
    refine .bind (h.enclosedExpression hd) fun e he => .after fun kind => ?_
    split
    case h_3 => exact .unexpected
    all_goals exact .pure (List.forall_mem_cons.2 ⟨he, hparts⟩)
  refine .after fun start => .bind (.repeatFrom hstep (List.forall_mem_nil _)) fun parts hparts =>
    .after fun loc => .pure ?_
  refine .intro trivial (List.forall_mem_map.2 fun e he => ?_)
  exact hparts e (List.mem_reverse.1 he)

/-! ## Patterns that declare names -/

/-- A pattern is no frame for what is in it. -/
theorem bindingTarget :
    g.bindingTarget.YieldsIn env fun p => (Node.pat .binding p).Fits env.options fs := by
  refine .after fun kind => ?_
  split
  · exact h.arrayPattern hd
  · exact h.objectPattern hd
  · exact .after fun id => .pure (.leaf trivial rfl)

/-- A default value fits where the pattern does. -/
theorem bindingElement :
    g.bindingElement.YieldsIn env fun p => (Node.pat .binding p).Fits env.options fs := by
  refine .after fun start => .bind (h.bindingTarget hd) fun target ht => .after fun hasDefault =>
    .ite ?_ (.pure ht)
  refine .bind (h.enclosedAssignment hd) fun right hr => .after fun loc => .pure ?_
  exact .intro trivial (List.forall_mem_cons.2 ⟨ht, List.forall_mem_singleton.2 hr⟩)

theorem restBinding :
    g.restBinding.YieldsIn env fun p => (Node.pat .binding p).Fits env.options fs := by
  refine .after fun start => .after fun _ => .bind (h.bindingTarget hd) fun argument ha =>
    .after fun loc => .pure ?_
  exact .intro trivial (List.forall_mem_singleton.2 ha)

/-- An element that is left out has nothing to fit. -/
theorem bindingElementOrHole :
    g.bindingElementOrHole.YieldsIn env fun element =>
      ∀ p ∈ element, (Node.pat .binding p).Fits env.options fs :=
  .after fun _ => .ite .none (h.bindingElement hd).itemAndComma.some

/-- The elements of an array pattern fit where the pattern does. -/
theorem arrayPatternBody :
    g.arrayPatternBody.YieldsIn env fun p => (Node.pat .binding p).Fits env.options fs := by
  refine .after fun start => .after fun _ => ?_
  refine .bind (.itemsWithRest (h.bindingElementOrHole hd) (h.restBinding hd).some fun _ he => he)
    fun elements ⟨_, hall⟩ => ?_
  refine .after fun loc => .pure (.intro trivial ?_)
  exact forall_mem_elements fun p hp => hall _ hp p rfl

/-- Key, value and default value of a property fit where the pattern does. -/
theorem bindingProperty :
    g.bindingProperty.YieldsIn env fun p =>
      (Node.patProperty .binding p).Fits env.options fs := by
  refine .after fun start => .after fun mayBeShorthand => .bind (h.key hd) fun key hkey =>
    .after fun hasValue => .ite ?_ ?_
  · refine .bind (h.bindingElement hd) fun value hv => .after fun loc => .pure (.intro trivial ?_)
    exact List.forall_mem_cons.2 ⟨hkey, List.forall_mem_singleton.2 hv⟩
  · split
    case h_2 => exact .unexpected
    refine .ite (.fail _ _) (.after fun hasDefault => .ite ?_ ?_)
    · refine .bind (h.enclosedAssignment hd) fun value hv => .after fun loc => .pure ?_
      exact .intro trivial (List.forall_mem_singleton.2 hv)
    · exact .after fun loc => .pure (.leaf trivial rfl)

omit h hd in
/-- The rest of an object pattern is a name. -/
theorem restProperty :
    Grammar.restProperty.YieldsIn env fun p =>
      (Node.patProperty .binding p).Fits env.options fs := by
  refine .after fun start => .after fun _ => .after fun id => .after fun loc => .pure ?_
  exact .intro trivial (List.forall_mem_singleton.2 (Node.Fits.leaf trivial rfl))

/-- The properties of an object pattern fit where the pattern does. -/
theorem objectPatternBody :
    g.objectPatternBody.YieldsIn env fun p => (Node.pat .binding p).Fits env.options fs := by
  refine .after fun start => .after fun _ => ?_
  refine .bind (.itemsWithRest (h.bindingProperty hd).itemAndComma restProperty fun _ hp => hp) fun
    properties ⟨_, hall⟩ => ?_
  refine .after fun loc => .pure (.intro trivial ?_)
  exact List.forall_mem_map.2 hall

/-! ## Functions -/

/-- A block is a frame: what stands in it is not at the top of the program. -/
theorem block : g.block.YieldsIn env fun b => (Node.block b).Fits env.options fs := by
  refine .after fun start => .after fun _ => ?_
  refine .bind (.collectUntil (.after fun isEnd => .ite .unexpected (h.nestedStatement hd.inner)))
    fun body hbody => ?_
  refine .after fun _ => .after fun loc => ?_
  refine .pure (.intro trivial ?_)
  exact List.forall_mem_map.2 hbody

/-- Parameters fit where they are read, as other patterns do. -/
theorem params :
    g.params.YieldsIn env fun ps => ∀ p ∈ ps, (Node.pat .binding p).Fits env.options fs :=
  .after fun _ => .mono (.itemsWithRest (h.bindingElement hd).itemAndComma (h.restBinding hd)
    fun _ hp => hp) fun _ hps => hps.2

omit hd in
/-- A function makes a frame of its own, whatever surrounds it. -/
theorem functionRest (fs : List Frame) (start : Position) (id : Option Ident)
    (isAsync isGenerator : Bool) :
    (g.functionRest start id isAsync isGenerator).YieldsIn env fun f =>
      (Node.function f).Fits env.options fs := by
  have hframe := Surrounding.Describes.function env fs isAsync isGenerator
  have hbody : (do let params ← g.params
                   let body ← g.block
                   return (params, body) : Parser (List Pat × Block)).YieldsIn
      { env with context := Grammar.functionContext isAsync isGenerator, labels := [] } fun f =>
      (∀ p ∈ f.1, (Node.pat .binding p).Fits env.options (.function isAsync isGenerator :: fs)) ∧
        (Node.block f.2).Fits env.options (.function isAsync isGenerator :: fs) :=
    .bind (h.params hframe) fun params hparams => .bind (h.block hframe) fun body hbody =>
      .pure ⟨hparams, hbody⟩
  refine .bind (.inBody hbody) fun ⟨params, body⟩ ⟨hparams, hbody⟩ => .after fun loc =>
    .pure (.intro trivial ?_)
  exact List.forall_mem_append.2
    ⟨List.forall_mem_map.2 hparams, List.forall_mem_singleton.2 hbody⟩

omit hd in
/-- A function brings the surrounding that its frame describes, whatever is around it. -/
theorem function (fs : List Frame) (start : Position) (isAsync nameRequired : Bool) :
    (g.function start isAsync nameRequired).YieldsIn env fun f =>
      (Node.function f).Fits env.options fs :=
  .after fun _ => .after fun isGenerator => .after fun id =>
    h.functionRest fs start id isAsync isGenerator

omit hd in
/-- As `function`, for a method. -/
theorem methodRest (fs : List Frame) (m : Grammar.MethodModifiers) :
    (g.methodRest m).YieldsIn env fun f => (Node.function f).Fits env.options fs :=
  .after fun start => h.functionRest fs start none m.isAsync m.isGenerator

/-- Of an arrow function only the body is inside of its frame. -/
theorem arrowRest (start : Position) {params : List Pat} (isAsync : Bool)
    (hparams : ∀ p ∈ params, (Node.pat .binding p).Fits env.options fs) :
    (g.arrowRest start params isAsync).YieldsIn env fun e =>
      (Node.expr e).Fits env.options fs := by
  have hframe := hd.arrow isAsync
  have hbody : (do if ← Parser.atMark .leftBrace then
                     return ArrowBody.block (← Parser.allowIn g.block)
                   else return ArrowBody.expr (← g.assignment) : Parser ArrowBody).YieldsIn
      { env with context := Grammar.arrowContext isAsync env.context, labels := [] }
      fun body => body.node.Fits env.options (.arrow isAsync :: fs) := by
    refine .after fun isBlock => .ite ?_ ?_
    · exact .bind (.allowIn (h.block (hframe.setNoIn false))) fun body hbody => .pure hbody
    · exact .bind (h.assignment hframe) fun value hvalue => .pure hvalue
  refine .after fun _ => .context (.bind (.inBody hbody) fun body hbody => .after fun loc =>
    .pure (.intro trivial (List.forall_mem_append.2 ⟨List.forall_mem_map.2 hparams, ?_⟩)))
  refine List.forall_mem_singleton.2 ?_
  cases body <;> exact hbody

/-- An arrow function of one bare parameter. -/
theorem arrowOfName (start : Position) (id : Ident) (isAsync : Bool) :
    (g.arrowRest start [.ident id] isAsync).YieldsIn env fun e =>
      (Node.expr e).Fits env.options fs :=
  h.arrowRest hd start isAsync (List.forall_mem_singleton.2 (Node.Fits.leaf trivial rfl))

/-! ## Classes -/

omit hd in
/-- The key of a method is read outside of its function. -/
theorem classMethod (start : Position) (isStatic : Bool) (m : Grammar.MethodModifiers) {key : Key}
    (hkey : (Node.key key).Fits env.options fs) :
    (g.classMethod start isStatic m key).YieldsIn env fun m =>
      (Node.member m).Fits env.options fs := by
  refine .bind (h.methodRest fs m) fun value hvalue => .after fun loc => .pure (.intro trivial ?_)
  exact List.forall_mem_cons.2 ⟨hkey, List.forall_mem_singleton.2 hvalue⟩

omit hd in
/-- The value of a field makes a frame of its own, and the key is outside of it. -/
theorem classField (start : Position) (isStatic : Bool) {key : Key}
    (hkey : (Node.key key).Fits env.options fs) :
    (g.classField start isStatic key).YieldsIn env fun m =>
      (Node.member m).Fits env.options fs := by
  refine .after fun hasValue => .join (YieldsIn.inBody (h.assignment (.initializer env fs))).some .none
    fun value hvalue => .after fun _ => .after fun loc => .pure (.intro trivial ?_)
  refine List.forall_mem_cons.2 ⟨hkey, forall_mem_toList fun e he => ?_⟩
  exact .intro trivial (List.forall_mem_singleton.2 (hvalue e he))

/-- A method is a function, and a field has a frame of its own. -/
theorem methodOrField (start : Position) (isStatic : Bool) :
    (g.methodOrField start isStatic).YieldsIn env fun m => (Node.member m).Fits env.options fs := by
  refine .after fun m => .bind (h.key hd) fun _ hkey => ?_
  refine .after fun _ => ?_
  exact .ite (h.classMethod start isStatic m hkey) (.ite (h.classField start isStatic hkey)
    .unexpected)

/-- A static block has a frame of its own, in which there is nothing to await. -/
theorem member : g.member.YieldsIn env fun m => (Node.member m).Fits env.options fs := by
  refine .after fun start => .after fun isStatic => .ite ?_ (h.methodOrField hd start false)
  refine .after fun _ => .after fun isBlock => .ite ?_ (h.methodOrField hd start true)
  refine .bind (.inBody (h.block (.initializer env fs))) fun ⟨_, body⟩ hb => .after fun loc =>
    .pure (.intro trivial ?_)
  exact List.forall_mem_map.2 fun s hs => hb.below (List.mem_map_of_mem hs)

/-- The elements of a class fit where the class does. -/
theorem members :
    g.members.YieldsIn env fun ms => ∀ m ∈ ms, (Node.member m).Fits env.options fs := by
  refine .repeatFrom (P := fun ms => ∀ m ∈ ms, (Node.member m).Fits env.options fs)
    (fun ms hms => .after fun isEnd => .ite ?_ (.after fun isEmpty => .ite ?_ ?_))
    (List.forall_mem_nil _)
  · exact .pure fun m hm => hms m (List.mem_reverse.1 hm)
  · exact .pure hms
  · exact .bind (h.member hd) fun m hm => .pure (List.forall_mem_cons.2 ⟨hm, hms⟩)

/-- What a class extends fits where the class does. -/
theorem classDefinition (nameRequired : Bool) :
    (g.classDefinition nameRequired).YieldsIn env fun c =>
      (Node.class c).Fits env.options fs := by
  refine .after fun start => .after fun _ => .after fun id => ?_
  refine .after fun hasSuperClass => ?_
  refine .join (h.leftHandSide hd).some .none fun superClass hsuper => ?_
  refine .after fun bodyStart => .after fun _ => .bind (h.members hd) fun ms hms => ?_
  refine .after fun bodyLoc => .after fun loc => ?_
  refine .pure (.intro trivial ?_)
  exact List.forall_mem_append.2 ⟨forall_mem_toList hsuper, List.forall_mem_map.2 hms⟩

/-! ## Primary expressions -/

omit h hd in
/-- Nothing is asked of literals. -/
theorem literal : Grammar.literal.YieldsIn env fun e => (Node.expr e).Fits env.options fs := by
  refine .after fun kind => ?_
  split
  case h_2 =>
    refine .after fun t => .after fun kind => ?_
    split
    case h_4 => exact .fail _ _
    all_goals exact .pure (.leaf trivial rfl)
  case h_9 | h_10 =>
    refine .after fun _ => .after fun t => ?_
    split
    · exact .pure (.leaf trivial rfl)
    · exact .fail _ _
  case h_11 => exact .unexpected
  all_goals exact .after fun _ => .pure (.leaf trivial rfl)

/-- A name fits everywhere, and an arrow function brings its frame. -/
theorem nameOrArrow (start : Position) :
    (g.nameOrArrow start).YieldsIn env fun e => (Node.expr e).Fits env.options fs :=
  .after fun id => .after fun _ =>
    .ite (h.arrowOfName hd start id false) (.pure (.leaf trivial rfl))

/-- The body of an `async` arrow function is where `await` is allowed. -/
theorem asyncArrow (start : Position) :
    (g.asyncArrow start).YieldsIn env fun e => (Node.expr e).Fits env.options fs :=
  .after fun _ => .after fun id => .after fun _ =>
    .ite (h.arrowOfName hd start id true) .unexpected

/-- Arguments that become parameters are of the frames outside. -/
theorem asyncCallOrArrow (start : Position) :
    (g.asyncCallOrArrow start).YieldsIn env fun e => (Node.expr e).Fits env.options fs := by
  refine .after fun callee => .bind (h.arguments hd) fun arguments ha => .after fun _ =>
    .ite ?_ (.after fun loc => .pure ?_)
  · refine .bind (.ofExcept fun ps hps => hps) fun params hparams => ?_
    exact h.arrowRest hd start true (fits_of_toParams ha hparams)
  · refine .intro trivial (List.forall_mem_cons.2 ⟨?_, List.forall_mem_map.2 ha⟩)
    exact Node.Fits.leaf trivial rfl

/-- Functions, arrow functions and names. -/
theorem identifierExpression :
    g.identifierExpression.YieldsIn env fun e => (Node.expr e).Fits env.options fs := by
  refine .after fun start => .after fun _ =>
    .ite ?_ (.after fun _ => .ite ?_ (h.nameOrArrow hd start))
  · refine .after fun _ => .bind (h.function fs start true false) fun f hf => .pure ?_
    exact .intro trivial (List.forall_mem_singleton.2 hf)
  · refine .after fun next => .ite (h.nameOrArrow hd start) ?_
    split
    · exact h.asyncArrow hd start
    · exact h.asyncCallOrArrow hd start
    · exact h.nameOrArrow hd start

/-- What is in parentheses is read outside of any arrow function. -/
theorem parenItemsStep (before : List Expr)
    (hb : ∀ e ∈ before, (Node.expr e).Fits env.options fs) :
    (g.parenItemsStep before).YieldsIn env
      (Sum.elim (fun items => ∀ e ∈ items, (Node.expr e).Fits env.options fs)
        (Grammar.ParenItems.Fits env.options fs)) := by
  have hreverse {items : List Expr} (hitems : ∀ e ∈ items, (Node.expr e).Fits env.options fs) :
      ∀ e ∈ items.reverse, (Node.expr e).Fits env.options fs :=
    fun e he => hitems e (List.mem_reverse.1 he)
  have hnone : ∀ p ∈ (none : Option Pat), (Node.pat .binding p).Fits env.options fs :=
    fun p hp => by cases hp
  refine .after fun isEnd => .ite (.pure ⟨hreverse hb, hnone⟩) (.after fun isRest => .ite ?_ ?_)
  · refine .bind (h.restBinding hd) fun rest hrest => .pure ⟨hreverse hb, fun p hp => ?_⟩
    cases hp
    exact hrest
  · refine .bind (h.assignment hd) fun item hi => ?_
    have hitems : ∀ e ∈ item :: before, (Node.expr e).Fits env.options fs :=
      List.forall_mem_cons.2 ⟨hi, hb⟩
    refine .after fun _ => .ite (.pure ⟨hreverse hitems, hnone⟩) ?_
    exact .after fun _ => .after fun _ => .ite (.pure ⟨hreverse hitems, hnone⟩) (.pure hitems)

/-- Parameters are of the frames outside, where they have been read as expressions. -/
theorem parenOrArrow :
    g.parenOrArrow.YieldsIn env fun e => (Node.expr e).Fits env.options fs := by
  refine .after fun start => .after fun _ => ?_
  refine .bind (.allowIn (.repeatFrom (h.parenItemsStep (hd.setNoIn false)) (List.forall_mem_nil
    _))) fun list ⟨hitems, hrest⟩ => ?_
  refine .after fun close => .after fun _ => ?_
  refine .ite ?_ ?_
  · refine .bind (.ofExcept fun ps hps => hps) fun params hparams => ?_
    refine h.arrowRest hd start false (List.forall_mem_append.2 ⟨?_, fun p hp => ?_⟩)
    · exact fits_of_toParams hitems hparams
    · exact hrest p (Option.mem_toList.1 hp)
  · split
    · exact .fail _ _
    · rename_i hfirst
      rw [hfirst] at hitems
      refine .ite (.fail _ _) (.after fun loc => .pure (.intro trivial ?_))
      exact List.forall_mem_singleton.2 (Grammar.fits_joined hitems)

/-- `import.meta` may stand anywhere. -/
theorem importExpression :
    g.importExpression.YieldsIn env fun e => (Node.expr e).Fits env.options fs := by
  refine .after fun start => .after fun word => .after fun isMeta => .ite ?_ ?_
  · refine .after fun property => .ite (.after fun loc => .pure ?_) (.fail _ _)
    -- the word before the point is not `new`
    have hword : "import" ≠ "new" := by decide
    exact .leaf (fun hnew => absurd hnew hword) rfl
  · refine .bind (h.arguments hd) fun arguments ha => ?_
    split
    · exact .fail _ _
    · obtain ⟨hsource, -⟩ := List.forall_mem_cons.1 ha
      exact .after fun loc => .pure (.intro trivial (List.forall_mem_singleton.2 hsource))
    · obtain ⟨hsource, hoptions⟩ := List.forall_mem_cons.1 ha
      refine .after fun loc => .pure (.intro trivial (List.forall_mem_cons.2 ⟨hsource, ?_⟩))
      exact List.forall_mem_map.2 hoptions
    · exact .fail _ _

/-! ## Array and object literals -/

/-- An element that is left out has nothing to fit. -/
theorem elementOrHole :
    g.elementOrHole.YieldsIn env fun element =>
      ∀ e ∈ element, (Node.expr e).Fits env.options fs :=
  .after fun _ => .ite .none (h.spreadOrAssignment hd).itemAndComma.some

/-- The elements of an array literal fit where the literal does. -/
theorem arrayLiteral :
    g.arrayLiteral.YieldsIn env fun e => (Node.expr e).Fits env.options fs := by
  refine .after fun start => .after fun _ => ?_
  refine .bind (.allowIn (.collectUntil (h.elementOrHole (hd.setNoIn false)))) fun elements he => ?_
  refine .after fun loc => .pure (.intro trivial ?_)
  exact forall_mem_elements fun e hmem => he _ hmem e rfl

/-- A default value fits where the object literal does. -/
theorem nameProperty (start : Position) (id : Ident) :
    (g.nameProperty start id).YieldsIn env fun p => (Node.property p).Fits env.options fs := by
  refine .after fun hasDefault => .ite ?_ (.after fun loc => .pure (.leaf trivial rfl))
  refine .bind (h.assignment hd) fun right hr => .after fun loc => .pure (.intro trivial ?_)
  refine List.forall_mem_cons.2 ⟨Node.Fits.leaf trivial rfl, List.forall_mem_singleton.2 ?_⟩
  exact .intro trivial
    (List.forall_mem_cons.2 ⟨Node.Fits.leaf trivial rfl, List.forall_mem_singleton.2 hr⟩)

/-- A method of an object literal is a function, and a value is none. -/
theorem propertyRest (start : Position) (m : Grammar.MethodModifiers) (mayBeShorthand : Bool)
    {key : Key} (hkey : (Node.key key).Fits env.options fs) :
    (g.propertyRest start m mayBeShorthand key).YieldsIn env fun p =>
      (Node.property p).Fits env.options fs := by
  refine .after fun isMethod => .ite ?_ (.ite .unexpected (.after fun hasValue => .ite ?_ ?_))
  · refine .bind (h.methodRest fs m) fun value hvalue => .after fun loc => .pure (.intro trivial ?_)
    exact List.forall_mem_cons.2 ⟨hkey, List.forall_mem_singleton.2 hvalue⟩
  · refine .bind (h.assignment hd) fun value hvalue => .after fun loc =>
      .pure (.intro trivial ?_)
    exact List.forall_mem_cons.2 ⟨hkey, List.forall_mem_singleton.2 hvalue⟩
  · split
    · exact .ite (h.nameProperty hd start _) (.fail _ _)
    · exact .unexpected

/-- The key of a property is read outside of any method. -/
theorem property : g.property.YieldsIn env fun p => (Node.property p).Fits env.options fs := by
  refine .after fun start => .after fun isSpread => .ite ?_ ?_
  · refine .bind (h.assignment hd) fun argument ha => .after fun loc => .pure (.intro trivial ?_)
    exact List.forall_mem_singleton.2 ha
  · exact .after fun m => .after fun mayBeShorthand => .bind (h.key hd) fun key hkey =>
      h.propertyRest hd start m mayBeShorthand hkey

/-- The properties of an object literal fit where the literal does. -/
theorem objectLiteral :
    g.objectLiteral.YieldsIn env fun e => (Node.expr e).Fits env.options fs := by
  refine .after fun start => .after fun _ => ?_
  refine .bind (.allowIn (h.property (hd.setNoIn false)).commaSeparated) fun properties hp => ?_
  refine .after fun loc => .pure (.intro trivial ?_)
  exact List.forall_mem_map.2 hp

/-- A primary expression fits the frames around it. -/
theorem primary : g.primary.YieldsIn env fun e => (Node.expr e).Fits env.options fs := by
  refine .after fun kind => ?_
  split
  · exact h.parenOrArrow hd
  · exact h.arrayLiteral hd
  · exact h.objectLiteral hd
  · refine .after fun start => .bind (h.function fs start false false) fun f hf => .pure ?_
    exact .intro trivial (List.forall_mem_singleton.2 hf)
  · refine .bind (h.classDefinition hd false) fun c hc => .pure ?_
    exact .intro trivial (List.forall_mem_singleton.2 hc)
  · exact h.importExpression hd
  · exact h.identifierExpression hd
  · refine .bind (h.template hd false) fun t ht => .pure ?_
    exact .intro trivial (List.forall_mem_singleton.2 ht)
  · refine .bind (h.template hd false) fun t ht => .pure ?_
    exact .intro trivial (List.forall_mem_singleton.2 ht)
  · exact literal

end Grammar.Fitting

end WithScope
