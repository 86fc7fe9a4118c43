import WithScope.Proofs.Grammar.OrdinaryStatement
import WithScope.Proofs.Grammar.UpholdingPrimary

/-!
# Statements uphold properties of operations

No statement, import or export is an operation, so all of them have the properties that the
expressions in them have.
-/

namespace WithScope

open WithScope.Parser (Yields)

namespace Grammar.Upholds

variable {P : Node → Prop} {g : Grammar} (h : g.Upholds P)
include h

/-! ## Imports and exports -/

theorem defaultExport : g.defaultExport.Yields fun value => value.node.All P := by
  refine .after fun start => .after fun _ => .ite ?_ (.after fun _ => .ite ?_ ?_)
  · exact .bind (h.carries.function start false false).yields fun f hf => .pure hf
  · exact .after fun _ => .bind (h.carries.function start true false).yields fun f hf => .pure hf
  · refine .after fun _ => .ite (.bind (h.classDefinition false) fun c hc => .pure hc) ?_
    exact .bind h.assignment fun e he => .after fun _ => .pure he

theorem importDeclaration : Grammar.importDeclaration.Yields fun d => (Node.module d).All P := by
  refine .after fun start => .after fun _ => .after fun _ => ?_
  refine .join (.trivial _) (.trivial _) fun specifiers _ => .after fun source => ?_
  exact .after fun attributes => .after fun _ => .after fun loc => .pure (h.of.leaf rfl rfl)

theorem exportAll (start : Position) :
    (Grammar.exportAll start).Yields fun d => (Node.module d).All P := by
  have hrest (exported : Option ModuleName) :
      (do Parser.expectName "from"
          let source ← Grammar.moduleSource
          let attributes ← Grammar.importAttributes
          Parser.semicolon
          return .exportAll (← Parser.spanFrom start) exported source attributes :
        Parser ModuleDecl).Yields fun d => (Node.module d).All P :=
    .after fun _ => .after fun source => .after fun attributes => .after fun _ => .after fun loc =>
      .pure (h.of.leaf rfl rfl)
  exact .after fun _ => .ite (.after fun _ => .after fun exported => hrest exported)
    (.after fun exported => hrest exported)

theorem exportList (start : Position) :
    (Grammar.exportList start).Yields fun d => (Node.module d).All P := by
  have hname (ofOther : Bool) (s : ExportSpecifier) : (Node.exportSpecifier ofOther s).All P :=
    h.of.leaf rfl rfl
  refine .after fun specifiers => .after fun _ => .ite ?_ ?_
  · refine .after fun _ => .after fun source => .after fun attributes => ?_
    refine .after fun _ => .after fun loc => ?_
    exact .pure (h.of.intro rfl (List.forall_mem_map.2 fun s _ => hname _ s))
  · exact .after fun _ => .after fun loc =>
      .pure (h.of.intro rfl (List.forall_mem_map.2 fun s _ => hname _ s))

theorem exportDeclaration : g.exportDeclaration.Yields fun d => (Node.module d).All P := by
  refine .after fun start => .after fun _ => .after fun _ => .ite ?_ ?_
  · refine .bind h.defaultExport fun value hvalue => .after fun loc => .pure (h.of.intro rfl ?_)
    exact List.forall_mem_singleton.2 hvalue
  · refine .after fun _ => .ite (h.exportAll start) (.after fun _ => .ite (h.exportList start) ?_)
    refine .after fun _ => .ite ?_ .unexpected
    refine .bind (h.statement false) fun s hs => .after fun loc => .pure (h.of.intro rfl ?_)
    exact List.forall_mem_singleton.2 hs

/-! ## Statements that end with a semicolon -/

theorem varStatement (start : Position) :
    (g.varStatement start).Yields fun s => (Node.stmt s).All P := by
  refine .bind h.carries.varDecl.yields fun ⟨_, kind, declarators⟩ hd => .after fun _ =>
    .after fun loc => .pure (h.of.intro rfl (List.forall_mem_singleton.2 ?_))
  -- the declaration is put together anew, to end with the semicolon
  exact h.of.intro rfl (Node.all_iff.1 hd).2

theorem returnStatement (start : Position) :
    (g.returnStatement start).Yields fun s => (Node.stmt s).All P := by
  refine .after fun surrounding => .ite (.fail _ _) (.after fun _ => .after fun _ => ?_)
  refine .join .none h.carries.expression.yields.some fun argument ha => .after fun _ =>
    .after fun loc => ?_
  exact .pure (h.of.intro rfl (forall_mem_toList ha))

theorem throwStatement (start : Position) :
    (g.throwStatement start).Yields fun s => (Node.stmt s).All P := by
  refine .after fun _ => .after fun _ => .ite (.after fun _ => .fail _ _) ?_
  refine .bind h.carries.expression.yields fun argument ha => .after fun _ => .after fun loc => ?_
  exact .pure (h.of.intro rfl (List.forall_mem_singleton.2 ha))

theorem jumpStatement (start : Position) (isBreak : Bool) :
    (Grammar.jumpStatement start isBreak).Yields fun s => (Node.stmt s).All P := by
  refine .after fun _ => .after fun label => .after fun _ => ?_
  refine .after fun _ => .after fun loc => ?_
  refine .pure ?_
  cases isBreak <;> exact h.of.leaf rfl rfl

theorem expressionStatement (start : Position) :
    (g.expressionStatement start).Yields fun s => (Node.stmt s).All P := by
  refine .bind h.carries.expression.yields fun e he => .after fun _ => .after fun loc => ?_
  exact .pure (h.of.intro rfl (List.forall_mem_singleton.2 he))

/-! ## All of them -/

/-- A function as a statement. -/
theorem functionStatement (start : Position) (isAsync : Bool) :
    (do return .function (← g.function start isAsync true) : Parser Stmt).Yields
      fun s => (Node.stmt s).All P :=
  .bind (h.carries.function start isAsync true).yields fun _ hf =>
    .pure (h.of.intro rfl (List.forall_mem_singleton.2 hf))

theorem statementAtName (start : Position) :
    (g.statementAtName start).Yields fun s => (Node.stmt s).All P := by
  refine .after fun _ => .ite (h.varStatement start) (.after fun _ => .ite ?_ ?_)
  · exact .after fun _ => h.functionStatement start true
  · exact .after fun _ =>
      .ite (h.carries.labeledStatement start).yields (h.expressionStatement start)

theorem statementAtImport (start : Position) (isTopLevel : Bool) :
    (g.statementAtImport start isTopLevel).Yields fun s => (Node.stmt s).All P := by
  refine .after fun next => ?_
  split
  · exact h.expressionStatement start
  · exact h.expressionStatement start
  · refine .after fun _ => .bind h.importDeclaration fun d hd => .pure ?_
    exact h.of.intro rfl (List.forall_mem_singleton.2 hd)

theorem statementAtWord (start : Position) (isTopLevel : Bool) (word : Keyword) :
    (g.statementAtWord start isTopLevel word).Yields fun s => (Node.stmt s).All P := by
  unfold Grammar.statementAtWord
  split
  case h_1 | h_2 => exact h.varStatement start
  case h_3 => exact h.functionStatement start false
  case h_4 =>
    refine .bind (h.classDefinition true) fun c hc => .pure ?_
    exact h.of.intro rfl (List.forall_mem_singleton.2 hc)
  case h_5 => exact (h.carries.ifStatement start).yields
  case h_6 => exact (h.carries.forStatement start).yields
  case h_7 => exact (h.carries.whileStatement start).yields
  case h_8 => exact (h.carries.doWhileStatement start).yields
  case h_9 => exact (h.carries.switchStatement start).yields
  case h_10 => exact (h.carries.tryStatement start).yields
  case h_11 => exact h.returnStatement start
  case h_12 => exact h.throwStatement start
  case h_13 => exact h.jumpStatement start true
  case h_14 => exact h.jumpStatement start false
  case h_15 => exact .after fun _ => .after fun _ => .after fun loc => .pure (h.of.leaf rfl rfl)
  case h_16 => exact (h.carries.withStatement start).yields
  case h_17 => exact h.statementAtImport start isTopLevel
  case h_18 =>
    refine .after fun _ => .bind h.exportDeclaration fun d hd => .pure ?_
    exact h.of.intro rfl (List.forall_mem_singleton.2 hd)
  case h_19 => exact h.expressionStatement start

theorem statementBody (isTopLevel : Bool) :
    (g.statementBody isTopLevel).Yields fun s => (Node.stmt s).All P := by
  refine .after fun start => .after fun kind => ?_
  split
  · exact .bind h.carries.block.yields fun b hb =>
      .pure (h.of.intro rfl (List.forall_mem_singleton.2 hb))
  · exact .after fun t => .pure (h.of.leaf rfl rfl)
  · exact h.statementAtName start
  · exact h.statementAtWord start isTopLevel _
  · exact h.expressionStatement start

/-- Statements up to the end of the text. -/
theorem program : g.program.Yields fun p => ∀ s ∈ p.body, (Node.stmt s).All P :=
  .after fun _ => .bind (.collectUntil (h.statement true)) fun _ hbody => .after fun _ =>
    .after fun _ => .pure hbody

end Grammar.Upholds

end WithScope
