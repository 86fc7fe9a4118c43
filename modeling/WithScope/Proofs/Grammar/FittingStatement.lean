import WithScope.Proofs.Grammar.FittingOperation

/-!
# Programs fit where they are read

Statements, modules and programs. Jumps, labels, `return` and imports are checked against the
surrounding; loops, `switch` statements and labels change it for what is inside of them. A level more
around a grammar that yields trees that fit yields trees that fit, so the grammar of any depth does:
`Grammar.fitting_nest`, and `fits_of_parse` for a whole text, which has no frames around it.
-/

namespace WithScope

open WithScope.Parser (YieldsIn)

namespace Grammar.Fitting

variable {g : Grammar} (h : g.Fitting) {env : Surrounding} {fs : List Frame}
  (hd : env.Describes fs)
include h hd

/-! ## Imports and exports -/

omit h hd in
/-- An import or export that passes the check stands directly in a module, unless the options let it
stand anywhere. -/
theorem checkModulePosition (start : Position) (isTopLevel : Bool) :
    (Grammar.checkModulePosition start isTopLevel).YieldsIn env fun _ =>
      env.options.modulesAnywhere ∨ env.options.sourceType = .module ∧ isTopLevel = true := by
  refine .read (.choice (fun hanywhere => .pure (.inl hanywhere)) fun _ => ?_)
  refine .choice (fun _ => .fail _ _) fun hmodule => ?_
  refine .choice (fun _ => .fail _ _) fun htop => .pure (.inr ⟨Decidable.not_not.1 hmodule, ?_⟩)
  rwa [Bool.not_eq_true, Bool.not_eq_false'] at htop

/-- What is exported as the default fits where the export does. -/
theorem defaultExport :
    g.defaultExport.YieldsIn env fun value => value.node.Fits env.options fs := by
  refine .after fun start => .after fun _ => .ite ?_ (.after fun _ => .ite ?_ ?_)
  · exact .bind (h.function fs start false false) fun f hf => .pure hf
  · exact .after fun _ => .bind (h.function fs start true false) fun f hf => .pure hf
  · refine .after fun _ => .ite (.bind (h.classDefinition hd false) fun c hc => .pure hc) ?_
    exact .bind (h.assignment hd) fun e he => .after fun _ => .pure he

omit h hd in
/-- An import names nothing but modules and names, and fits anywhere. -/
theorem importDeclaration :
    Grammar.importDeclaration.YieldsIn env fun d => (Node.module d).Fits env.options fs := by
  refine .after fun start => .after fun _ => .after fun _ => ?_
  refine .join (.trivial _) (.trivial _) fun specifiers _ => .after fun source => ?_
  exact .after fun attributes => .after fun _ => .after fun loc => .pure (.leaf trivial rfl)

omit h hd in
/-- As `importDeclaration`, for an export of everything. -/
theorem exportAll (start : Position) :
    (Grammar.exportAll start).YieldsIn env fun d => (Node.module d).Fits env.options fs := by
  have hrest (exported : Option ModuleName) :
      (do Parser.expectName "from"
          let source ← Grammar.moduleSource
          let attributes ← Grammar.importAttributes
          Parser.semicolon
          return .exportAll (← Parser.spanFrom start) exported source attributes :
        Parser ModuleDecl).YieldsIn env fun d => (Node.module d).Fits env.options fs :=
    .after fun _ => .after fun source => .after fun attributes => .after fun _ => .after fun loc =>
      .pure (.leaf trivial rfl)
  exact .after fun _ => .ite (.after fun _ => .after fun exported => hrest exported)
    (.after fun exported => hrest exported)

omit h hd in
/-- As `importDeclaration`, for an export of a list of names. -/
theorem exportList (start : Position) :
    (Grammar.exportList start).YieldsIn env fun d => (Node.module d).Fits env.options fs := by
  refine .after fun specifiers => .after fun _ => .ite ?_ ?_
  · refine .after fun _ => .after fun source => .after fun attributes => ?_
    refine .after fun _ => .after fun loc => ?_
    refine .pure (.intro trivial (List.forall_mem_map.2 fun _ _ => ?_))
    exact Node.Fits.leaf trivial rfl
  · refine .after fun _ => .after fun loc =>
      .pure (.intro trivial (List.forall_mem_map.2 fun _ _ => ?_))
    exact Node.Fits.leaf trivial rfl

/-- What is declared and exported fits where the export does. -/
theorem exportDeclaration :
    g.exportDeclaration.YieldsIn env fun d => (Node.module d).Fits env.options fs := by
  refine .after fun start => .after fun _ => .after fun _ => .ite ?_ ?_
  · refine .bind (h.defaultExport hd) fun value hvalue => .after fun loc =>
      .pure (.intro trivial (List.forall_mem_singleton.2 ?_))
    cases value <;> exact hvalue
  · refine .after fun _ => .ite (exportAll start) (.after fun _ => .ite (exportList start) ?_)
    refine .after fun _ => .ite ?_ .unexpected
    refine .bind (h.nestedStatement hd.inner) fun s hs => .after fun loc => .pure ?_
    exact .intro trivial (List.forall_mem_singleton.2 hs)

/-! ## Declarations and choices -/

/-- A declarator fits with its target and its value. -/
theorem declarator (kind : VarKind) :
    (g.declarator kind).YieldsIn env fun d => (Node.declarator kind d).Fits env.options fs := by
  refine .after fun start => .bind (h.bindingTarget hd) fun p hp => ?_
  refine .after fun _ => .after fun _ => .join (h.assignment hd).some .none fun value hvalue => ?_
  refine .after fun loc => .pure (.intro trivial ?_)
  exact List.forall_mem_cons.2 ⟨hp, forall_mem_toList hvalue⟩

/-- The declarators of a declaration are read at the same frames. -/
theorem varDecl : g.varDecl.YieldsIn env fun d => (Node.varDecl d).Fits env.options fs := by
  refine .after fun start => .after fun kind => .bind (h.declarator hd kind) fun first hfirst => ?_
  refine .bind (h.declarator hd kind).afterCommas fun others hothers => ?_
  refine .after fun loc => .pure (.intro trivial ?_)
  exact List.forall_mem_map.2 (List.forall_mem_cons.2 ⟨hfirst, hothers⟩)

/-- A declaration as a statement fits where the statement does. -/
theorem varStatement (start : Position) :
    (g.varStatement start).YieldsIn env fun s => (Node.stmt s).Fits env.options fs := by
  refine .bind (h.varDecl hd) fun ⟨_, kind, declarators⟩ hdecl => .after fun _ =>
    .after fun loc => .pure (.intro trivial (List.forall_mem_singleton.2 (.intro trivial ?_)))
  exact List.forall_mem_map.2 fun d hmem => hdecl.below (List.mem_map_of_mem hmem)

/-- Both branches of an `if` are read at the frames of the statement. -/
theorem ifStatement (start : Position) :
    (g.ifStatement start).YieldsIn env fun s => (Node.stmt s).Fits env.options fs := by
  have hbranch := h.nestedStatement hd.inner
  refine .after fun _ => .bind (h.parenExpression hd) fun test ht => ?_
  refine .bind hbranch fun consequent hc => ?_
  refine .after fun _ => .join hbranch.some .none fun alternate ha => ?_
  refine .after fun loc => .pure (.intro trivial ?_)
  exact List.forall_mem_cons.2 ⟨ht, List.forall_mem_cons.2 ⟨hc, forall_mem_toList ha⟩⟩

/-- The test of a case is read at the frames of the switch. -/
theorem caseTest :
    g.caseTest.YieldsIn env fun test => ∀ e ∈ test, (Node.expr e).Fits env.options fs :=
  .after fun _ => .ite (.bind (h.enclosedExpression hd) fun _ he => .pureSome he)
    (.after fun _ => .none)

/-- A case fits with its test and its statements. -/
theorem switchCase :
    g.switchCase.YieldsIn env fun c => (Node.switchCase c).Fits env.options fs := by
  refine .after fun start => .bind (h.caseTest hd) fun test ht => ?_
  refine .after fun _ => .bind (.collectUntil (h.nestedStatement hd.inner)) fun consequent hc => ?_
  refine .after fun _ => .ite .unexpected (.after fun loc => .pure (.intro trivial ?_))
  exact List.forall_mem_append.2 ⟨forall_mem_toList ht, List.forall_mem_map.2 hc⟩

/-- The cases of a switch have a frame of their own, and the value that is compared does not. -/
theorem switchStatement (start : Position) :
    (g.switchStatement start).YieldsIn env fun s => (Node.stmt s).Fits env.options fs := by
  refine .after fun _ => .bind (h.parenExpression hd) fun discriminant hdisc => ?_
  refine .after fun _ => ?_
  refine .bind (.withContext (.collectUntil (h.switchCase hd.switch))) fun cases hc => ?_
  refine .after fun loc => ?_
  refine .pure (.intro trivial (List.forall_mem_cons.2 ⟨hdisc, List.forall_mem_singleton.2 ?_⟩))
  exact .intro trivial (List.forall_mem_map.2 hc)

/-! ## Loops -/

/-- The body of a loop is inside of its frame. -/
theorem loopBody : g.loopBody.YieldsIn env fun s => (Node.stmt s).Fits env.options (.loop :: fs) :=
  .withContext (h.nestedStatement hd.loop)

/-- The body of a loop has a frame of its own, and the test does not. -/
theorem whileStatement (start : Position) :
    (g.whileStatement start).YieldsIn env fun s => (Node.stmt s).Fits env.options fs := by
  refine .after fun _ => .bind (h.parenExpression hd) fun test ht =>
    .bind (h.loopBody hd) fun body hb => .after fun loc => .pure (.intro trivial ?_)
  exact List.forall_mem_cons.2 ⟨ht, List.forall_mem_singleton.2 hb⟩

/-- As `whileStatement`, with the body first. -/
theorem doWhileStatement (start : Position) :
    (g.doWhileStatement start).YieldsIn env fun s => (Node.stmt s).Fits env.options fs := by
  refine .after fun _ => .bind (h.loopBody hd) fun body hb => ?_
  refine .after fun _ => .bind (h.parenExpression hd) fun test ht => ?_
  refine .after fun _ => .after fun loc => ?_
  refine .pure (.intro trivial ?_)
  exact List.forall_mem_cons.2 ⟨hb, List.forall_mem_singleton.2 ht⟩

/-- What a loop starts with is outside of the frame of its body. -/
theorem forInit : g.forInit.YieldsIn env fun init => init.node.Fits env.options fs :=
  .after fun _ => .ite (.bind (h.varDecl hd) fun _ hdecl => .pure hdecl)
    (.bind (h.expression hd) fun _ he => .pure he)

/-- A part of a loop's head that may be left out fits if it is there. -/
theorem optionalExpression (mark : Punctuator) :
    (g.optionalExpression mark).YieldsIn env fun e =>
      ∀ a ∈ e, (Node.expr a).Fits env.options fs :=
  .after fun _ => .ite .none (.bind (h.enclosedExpression hd) fun _ he => .pureSome he)

/-- The rest of a loop's head is outside of the frame of its body. -/
theorem forRest (start : Position) {init : Option ForInit}
    (hi : ∀ i ∈ init, i.node.Fits env.options fs) :
    (g.forRest start init).YieldsIn env fun s => (Node.stmt s).Fits env.options fs := by
  refine .after fun _ => .bind (h.optionalExpression hd _) fun test ht => ?_
  refine .after fun _ => .bind (h.optionalExpression hd _) fun update hu => ?_
  refine .after fun _ => .bind (h.loopBody hd) fun body hb => ?_
  refine .after fun loc => .pure (.intro trivial ?_)
  refine List.forall_mem_append.2 ⟨?_, List.forall_mem_singleton.2 hb⟩
  refine List.forall_mem_append.2 ⟨?_, forall_mem_toList hu⟩
  refine List.forall_mem_append.2 ⟨forall_mem_toList fun i hmem => ?_, forall_mem_toList ht⟩
  cases i <;> exact hi _ hmem

omit h hd in
/-- What a loop over values assigns to fits where the head of the loop does. -/
theorem forTarget {init : ForInit} (hi : init.node.Fits env.options fs) :
    (Grammar.forTarget init).YieldsIn env fun target => target.node.Fits env.options fs := by
  unfold Grammar.forTarget
  split
  · split
    · exact .pure hi
    · exact .fail _ _
  · exact .bind (.ofExcept fun p hp => Expr.fits_toPattern false .assignment _ hi hp) fun p hp =>
      .pure hp

/-- `for await` is read only where `await` is allowed. -/
theorem forOfRest (start : Position) {isAwait : Bool}
    (hallowed : isAwait = true → Node.AllowsAwait env.options fs) {init : ForInit}
    (hi : init.node.Fits env.options fs) :
    (g.forOfRest start isAwait init).YieldsIn env fun s => (Node.stmt s).Fits env.options fs := by
  refine .bind (forTarget hi) fun target ht => ?_
  refine .after fun _ => .bind (h.enclosedAssignment hd) fun right hr => ?_
  refine .after fun _ => .bind (h.loopBody hd) fun body hb => ?_
  refine .after fun loc => .pure (.intro hallowed ?_)
  refine List.forall_mem_cons.2 ⟨?_, List.forall_mem_cons.2 ⟨hr, List.forall_mem_singleton.2 hb⟩⟩
  cases target <;> exact ht

/-- As `forRest`, over the keys of a value. -/
theorem forInRest (start : Position) {init : ForInit} (hi : init.node.Fits env.options fs) :
    (g.forInRest start init).YieldsIn env fun s => (Node.stmt s).Fits env.options fs := by
  refine .bind (forTarget hi) fun target ht => ?_
  refine .after fun _ => .bind (h.enclosedExpression hd) fun right hr => ?_
  refine .after fun _ => .bind (h.loopBody hd) fun body hb => ?_
  refine .after fun loc => .pure (.intro trivial ?_)
  refine List.forall_mem_cons.2 ⟨?_, List.forall_mem_cons.2 ⟨hr, List.forall_mem_singleton.2 hb⟩⟩
  cases target <;> exact ht

omit h in
/-- The word `await` is read as an operator only where it is allowed. -/
theorem eatAwait :
    Grammar.eatAwait.YieldsIn env fun isAwait =>
      isAwait = true → Node.AllowsAwait env.options fs := by
  refine .context (.after fun t => .choice (fun hawait => ?_) fun _ => .pure nofun)
  have hallowed := hd.awaitAllowed.1 (Bool.and_eq_true_iff.1 hawait).1
  exact .after fun _ => .pure fun _ => hallowed

/-- Each of the three forms of a `for` fits. -/
theorem forStatement (start : Position) :
    (g.forStatement start).YieldsIn env fun s => (Node.stmt s).Fits env.options fs := by
  refine .after fun _ => .bind (eatAwait hd) fun isAwait hallowed => .after fun _ =>
    .after fun _ => .ite ?_ ?_
  · exact h.forRest hd start fun i hi => by cases hi
  · refine .bind (.withContext (h.forInit (hd.setNoIn true))) fun init hi => .after fun _ =>
      .ite (h.forOfRest hd start hallowed hi) (.after fun _ => .ite (h.forInRest hd start hi) ?_)
    refine h.forRest hd start fun i heq => ?_
    cases heq
    exact hi

/-! ## Jumps and other statements -/

/-- A `return` is read only where the context allows it. -/
theorem returnStatement (start : Position) :
    (g.returnStatement start).YieldsIn env fun s => (Node.stmt s).Fits env.options fs := by
  refine .read (.choice (fun _ => .fail _ _) fun hallowed => ?_)
  have howner : env.options.returnAnywhere ∨ (Frame.owner? fs).any Frame.isFunction := by
    by_cases hanywhere : env.options.returnAnywhere = true
    · exact .inl hanywhere
    · refine .inr (hd.inFunction.1 ?_)
      simpa [hanywhere] using hallowed
  refine .after fun _ => .after fun _ => .join .none (h.expression hd).some fun argument ha => ?_
  refine .after fun _ => .after fun loc => ?_
  refine .pure (.intro howner ?_)
  exact forall_mem_toList ha

/-- What is thrown fits where the statement does. -/
theorem throwStatement (start : Position) :
    (g.throwStatement start).YieldsIn env fun s => (Node.stmt s).Fits env.options fs := by
  refine .after fun _ => .after fun _ => .ite (.after fun _ => .fail _ _) ?_
  refine .bind (h.expression hd) fun argument ha => .after fun _ => .after fun loc => .pure ?_
  exact .intro trivial (List.forall_mem_singleton.2 ha)

omit h in
/-- A jump that passes the check has its label among the frames, and what it leaves or repeats. -/
theorem checkJump (start : Position) (isBreak : Bool) (label : Option Ident) :
    (Grammar.checkJump start isBreak label).YieldsIn env fun _ => ∀ loc,
      (Node.stmt (if isBreak then .break loc label else .continue loc label)).FitsHere
        env.options fs := by
  refine .read ?_
  cases hknown : label.filter fun label => !env.labels.contains label.name with
  | some unknown => exact .fail _ _
  | none =>
    have hlabel : ∀ l ∈ label, .label l.name ∈ Frame.own fs := by
      rintro l rfl
      refine (hd.labels l.name).1 ?_
      simpa using hknown
    refine .choice (fun hloop => .pure fun loc => ?_) fun _ => .choice (fun _ => .fail _ _)
      fun hbreak => .choice (fun _ => .fail _ _) fun hswitch => .pure fun loc => ?_
    · -- in a loop any jump has what it leaves or repeats
      cases isBreak with
      | false => exact ⟨hd.inLoop.1 hloop, hlabel⟩
      | true =>
        cases label with
        | none => exact .inl (hd.inLoop.1 hloop)
        | some l => exact hlabel l rfl
    · -- elsewhere there is only `break`, with a label or in a `switch`
      rw [Bool.not_eq_true, Bool.not_eq_false'] at hbreak
      subst hbreak
      cases label with
      | none => exact .inr (hd.inSwitch.1 (by simpa using hswitch))
      | some l => exact hlabel l rfl

omit h in
/-- A jump is read only where a loop, a switch or the label it names is around it. -/
theorem jumpStatement (start : Position) (isBreak : Bool) :
    (Grammar.jumpStatement start isBreak).YieldsIn env fun s =>
      (Node.stmt s).Fits env.options fs := by
  refine .after fun _ => .after fun label => ?_
  refine .bind (checkJump hd start isBreak label) fun _ hjump => ?_
  refine .after fun _ => .after fun loc => ?_
  refine .pure (.leaf (hjump loc) ?_)
  cases isBreak <;> rfl

/-- The parameter of a handler and its block fit where the statement does. -/
theorem catchClause :
    g.catchClause.YieldsIn env fun c =>
      ∀ a ∈ c, (Node.catchClause a).Fits env.options fs := by
  have hbody (start : Position) {param : Option Pat}
      (hp : ∀ p ∈ param, (Node.pat .binding p).Fits env.options fs) :
      (do let body ← g.block
          return some (.mk (← Parser.spanFrom start) param body) :
        Parser (Option CatchClause)).YieldsIn env fun c =>
          ∀ a ∈ c, (Node.catchClause a).Fits env.options fs := by
    refine .bind (h.block hd) fun body hb => .after fun loc => .pureSome (.intro trivial ?_)
    exact List.forall_mem_append.2 ⟨forall_mem_toList hp, List.forall_mem_singleton.2 hb⟩
  refine .after fun start => .after fun _ => .ite (.after fun _ => .ite ?_ ?_) .none
  · exact .bind (h.bindingTarget hd) fun p hp => .after fun _ =>
      .bind (.pureSome hp) fun param hparam => hbody start hparam
  · exact .bind .none fun param hparam => hbody start hparam

/-- The three blocks of a `try` fit where the statement does. -/
theorem tryStatement (start : Position) :
    (g.tryStatement start).YieldsIn env fun s => (Node.stmt s).Fits env.options fs := by
  refine .after fun _ => .bind (h.block hd) fun body hb => ?_
  refine .bind (h.catchClause hd) fun handler hh => ?_
  refine .after fun _ => .join (h.block hd).some .none fun finalizer hf => ?_
  refine .ite (.after fun _ => .fail _ _) (.after fun loc => .pure (.intro trivial ?_))
  exact List.forall_mem_cons.2
    ⟨hb, List.forall_mem_append.2 ⟨forall_mem_toList hh, forall_mem_toList hf⟩⟩

/-- A `with` is read only outside of strict code. -/
theorem withStatement (start : Position) :
    (g.withStatement start).YieldsIn env fun s => (Node.stmt s).Fits env.options fs := by
  refine .after fun _ => .bind (h.parenExpression hd) fun object ho => ?_
  refine .bind (h.nestedStatement hd.inner) fun body hb => ?_
  refine .after fun loc => .pure (.intro trivial ?_)
  exact List.forall_mem_cons.2 ⟨ho, List.forall_mem_singleton.2 hb⟩

/-- The label is a frame for the statement that it stands before. -/
theorem labeledStatement (start : Position) :
    (g.labeledStatement start).YieldsIn env fun s => (Node.stmt s).Fits env.options fs := by
  refine .after fun label => .read (.choice (fun _ => .fail _ _) fun hnew => ?_)
  have hfresh : .label label.name ∉ Frame.own fs := by
    rw [← hd.labels]
    simpa using hnew
  refine .after fun _ => .bind (.withLabel (h.nestedStatement (hd.label label.name)))
    fun body hb => .after fun loc => .pure (.intro hfresh ?_)
  exact List.forall_mem_singleton.2 hb

/-- An expression as a statement fits where the statement does. -/
theorem expressionStatement (start : Position) :
    (g.expressionStatement start).YieldsIn env fun s => (Node.stmt s).Fits env.options fs := by
  refine .bind (h.expression hd) fun e he => .after fun _ => .after fun loc => .pure ?_
  exact .intro trivial (List.forall_mem_singleton.2 he)

/-! ## All of them -/

omit hd in
/-- A function as a statement. -/
theorem functionStatement (start : Position) (isAsync : Bool) :
    (do return .function (← g.function start isAsync true) : Parser Stmt).YieldsIn env
      fun s => (Node.stmt s).Fits env.options fs :=
  .bind (h.function fs start isAsync true) fun _ hf =>
    .pure (.intro trivial (List.forall_mem_singleton.2 hf))

/-- A statement that starts with a name is a labelled one, a declaration or an expression. -/
theorem statementAtName (start : Position) :
    (g.statementAtName start).YieldsIn env fun s => (Node.stmt s).Fits env.options fs := by
  refine .after fun _ => .ite (h.varStatement hd start) (.after fun _ => .ite ?_ ?_)
  · exact .after fun _ => h.functionStatement start true
  · exact .after fun _ => .ite (h.labeledStatement hd start) (h.expressionStatement hd start)

omit h hd in
/-- An import or export that may stand where it is read. -/
theorem moduleStatement {p : Parser ModuleDecl} (start : Position) {isTopLevel : Bool}
    (htop : isTopLevel = true → fs = [])
    (hp : p.YieldsIn env fun d => (Node.module d).Fits env.options fs) :
    (do Grammar.checkModulePosition start isTopLevel
        return .module (← p) : Parser Stmt).YieldsIn env fun s =>
      (Node.stmt s).Fits env.options fs := by
  refine .bind (checkModulePosition start isTopLevel) fun _ hplace => .bind hp fun d hd =>
    .pure (.intro ?_ (List.forall_mem_singleton.2 hd))
  exact hplace.imp_right fun ⟨hmodule, hdirect⟩ => ⟨hmodule, htop hdirect⟩

/-- An import is read at the top of a module only. -/
theorem statementAtImport (start : Position) (isTopLevel : Bool)
    (htop : isTopLevel = true → fs = []) :
    (g.statementAtImport start isTopLevel).YieldsIn env fun s =>
      (Node.stmt s).Fits env.options fs := by
  refine .after fun next => ?_
  split
  · exact h.expressionStatement hd start
  · exact h.expressionStatement hd start
  · exact moduleStatement start htop importDeclaration

/-- What a keyword starts is read at the frames of the statement. -/
theorem statementAtWord (start : Position) (isTopLevel : Bool)
    (htop : isTopLevel = true → fs = []) (word : Keyword) :
    (g.statementAtWord start isTopLevel word).YieldsIn env fun s =>
      (Node.stmt s).Fits env.options fs := by
  unfold Grammar.statementAtWord
  split
  case h_1 | h_2 => exact h.varStatement hd start
  case h_3 => exact h.functionStatement start false
  case h_4 =>
    refine .bind (h.classDefinition hd true) fun c hc => .pure ?_
    exact .intro trivial (List.forall_mem_singleton.2 hc)
  case h_5 => exact h.ifStatement hd start
  case h_6 => exact h.forStatement hd start
  case h_7 => exact h.whileStatement hd start
  case h_8 => exact h.doWhileStatement hd start
  case h_9 => exact h.switchStatement hd start
  case h_10 => exact h.tryStatement hd start
  case h_11 => exact h.returnStatement hd start
  case h_12 => exact h.throwStatement hd start
  case h_13 => exact jumpStatement hd start true
  case h_14 => exact jumpStatement hd start false
  case h_15 =>
    exact .after fun _ => .after fun _ => .after fun loc => .pure (.leaf trivial rfl)
  case h_16 => exact h.withStatement hd start
  case h_17 => exact h.statementAtImport hd start isTopLevel htop
  case h_18 => exact moduleStatement start htop (h.exportDeclaration hd)
  case h_19 => exact h.expressionStatement hd start

/-- Whatever a statement starts with, it fits. -/
theorem statementBody (isTopLevel : Bool) (htop : isTopLevel = true → fs = []) :
    (g.statementBody isTopLevel).YieldsIn env fun s => (Node.stmt s).Fits env.options fs := by
  refine .after fun start => .after fun kind => ?_
  split
  · exact .bind (h.block hd) fun b hb =>
      .pure (.intro trivial (List.forall_mem_singleton.2 hb))
  · exact .after fun t => .pure (.leaf trivial rfl)
  · exact h.statementAtName hd start
  · exact h.statementAtWord hd start isTopLevel htop _
  · exact h.expressionStatement hd start

end Grammar.Fitting

/-! ## The grammar of all levels -/

/-- At the limit of nesting nothing is read. -/
theorem Grammar.fitting_limit : Grammar.limit.Fitting where
  statement _ _ _ := .after fun _ => .fail _ _
  assignment _ := .after fun _ => .fail _ _
  operation _ _ := .after fun _ => .fail _ _
  unary _ := .after fun _ => .fail _ _
  leftHandSide _ := .after fun _ => .fail _ _
  newExpr _ := .after fun _ => .fail _ _
  arrayPattern _ := .after fun _ => .fail _ _
  objectPattern _ := .after fun _ => .fail _ _

/-- A level more around a grammar that yields trees that fit yields trees that fit. -/
theorem Grammar.Fitting.deeper {g : Grammar} (h : g.Fitting) : g.deeper.Fitting where
  statement := h.statementBody
  assignment := h.assignmentBody
  operation := h.operationBody
  unary := h.unaryBody
  leftHandSide := h.leftHandSideBody
  newExpr := h.newBody
  arrayPattern := h.arrayPatternBody
  objectPattern := h.objectPatternBody

/-- The grammar of any depth yields trees that fit. -/
theorem Grammar.fitting_nest (n : Nat) : (Grammar.nest n).Fitting := by
  induction n with
  | zero => exact fitting_limit
  | succ n ih => exact ih.deeper

/-- Every statement of a program fits with no frame around it. -/
theorem Grammar.Fitting.program {g : Grammar} (h : g.Fitting) {env : Surrounding}
    (hd : env.Describes []) :
    g.program.YieldsIn env fun p => ∀ s ∈ p.body, (Node.stmt s).Fits env.options [] := by
  refine .after fun _ => .bind (.collectUntil (h.statement hd true fun _ => rfl)) fun _ hbody => ?_
  refine .after fun _ => .after fun _ => ?_
  exact .pure hbody

/-- **Constructs in their place.** All that a text spells fits where it stands: jumps and labels in
what owns them, `return`, `new.target`, `yield` and `await` in functions that allow them, and imports
and exports directly in a module. -/
theorem fits_of_parse {options : Options} {source : List Char} {p : Program}
    (h : parse options source = .ok p) : ∀ s ∈ p.body, (Node.stmt s).Fits options [] := by
  have hprogram :=
    (Grammar.fitting_nest Grammar.maxNesting).program options.describes_surrounding
  exact YieldsIn.of_parse hprogram h

/-- A module that exports an `async` function with a label, a jump to it and `new.target`. -/
theorem fits_of_parse_labels :
    ∃ p, parse ⟨.module, false, false⟩
        "export async function f() \x7b l: for await (a of b) continue l; return new.target \x7d".toList
        = .ok p ∧ p.body.length = 1 ∧
      ∀ s ∈ p.body, (Node.stmt s).Fits ⟨.module, false, false⟩ [] := by
  have hread : (parse ⟨.module, false, false⟩
      "export async function f() \x7b l: for await (a of b) continue l; return new.target \x7d".toList
      ).toOption.any fun p => p.body.length = 1 := by decide +kernel
  cases h : parse ⟨.module, false, false⟩
      "export async function f() \x7b l: for await (a of b) continue l; return new.target \x7d".toList
    with
  | error e =>
    rw [h] at hread
    cases hread
  | ok p =>
    rw [h] at hread
    exact ⟨p, rfl, of_decide_eq_true hread, fits_of_parse h⟩

end WithScope
