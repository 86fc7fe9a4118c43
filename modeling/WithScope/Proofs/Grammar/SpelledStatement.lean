import WithScope.Grammar.Program
import WithScope.Proofs.Grammar.NestedStatement
import WithScope.Proofs.Grammar.OrdinaryStatement
import WithScope.Proofs.Grammar.SpelledOperation

/-!
# Statements are spelled as their kinds say

What ends with a semicolon is read up to the semicolon, or up to where it may be left out, so it
ends there (`Parser.Tells.ended`). What stands after `return`, `throw` and the like is looked for
only on the line of the word.

* `Grammar.spells_nest` — the productions of the grammar yield trees that are spelled as they should
  be, however deep they are nested.
-/

namespace WithScope

open WithScope.Parser (Leaves)
open WithScope.ParserState (From)

variable {source : List Char} {start : Position} {env : Surrounding} {s s' : ParserState}

namespace Grammar

/-! ## Imports and exports -/

theorem tells_importDeclaration :
    importDeclaration.Tells (From source start) fun d => (Node.module d).Written source := by
  refine .here fun first => .after fun _ => .after fun _ => .join (.trivial _) (.trivial _)
    fun specifiers _ => .after fun from_ => .after fun attributes => .ended fun loc _ hended => ?_
  exact .pure (.intro ⟨hended, trivial, trivial⟩ (List.forall_mem_nil _))

theorem tells_exportAll :
    (exportAll start).Tells (From source start) fun d => (Node.module d).Written source := by
  have hrest (exported : Option ModuleName) :
      (do Parser.expectName "from"
          let source ← moduleSource
          let attributes ← importAttributes
          Parser.semicolon
          return .exportAll (← Parser.spanFrom start) exported source attributes :
        Parser ModuleDecl).Tells (From source start) fun d => (Node.module d).Written source :=
    .after fun _ => .after fun from_ => .after fun attributes => .ended fun loc _ hended =>
      .pure (.intro ⟨hended, trivial, trivial⟩ (List.forall_mem_nil _))
  exact .after fun _ => .ite (.after fun _ => .after fun exported => hrest exported)
    (.after fun exported => hrest exported)

theorem tells_exportList :
    (exportList start).Tells (From source start) fun d => (Node.module d).Written source := by
  have hname (ofOther : Bool) (s : ExportSpecifier) :
      (Node.exportSpecifier ofOther s).Written source := Node.offOrdinary_spelled.leaf rfl rfl
  refine .after fun specifiers => .after fun _ => .ite ?_ ?_
  · exact .after fun _ => .after fun from_ => .after fun attributes => .ended fun loc _ hended =>
      .pure (.intro ⟨hended, trivial, trivial⟩ (List.forall_mem_map.2 fun s _ => hname _ s))
  · exact .ended fun loc _ hended =>
      .pure (.intro ⟨hended, trivial, trivial⟩ (List.forall_mem_map.2 fun s _ => hname _ s))

/-! ## Jumps -/

theorem leaves_atLetDeclaration : Leaves env s atLetDeclaration fun _ s' => s' = s ∧ True :=
  .look (Parser.leaves_atName _) fun _ _ => .ite
    (fun _ => .look Parser.leaves_peek fun _ _ => .pure ⟨rfl, trivial⟩)
    fun _ => .pure ⟨rfl, trivial⟩

/-- A label stands on the line of the word before it. -/
theorem leaves_jumpLabel (hs : s.From source start) : Leaves env s jumpLabel fun o s' =>
    s'.From source start ∧
      ∀ label ∈ o, s.token.newlineBefore = false ∧ label.loc.start = s.here := by
  refine .look (Parser.leaves_atKind _) fun _ _ => .ite (fun _ => ?_) fun _ => .pure ⟨hs, nofun⟩
  refine .look Parser.leaves_afterNewline fun isAfter hline => .ite (fun _ => .pure ⟨hs, nofun⟩)
    fun hsame => .bind Parser.leaves_ident fun id s' ⟨hid, hpast⟩ => .pure ⟨hs.past hpast, ?_⟩
  rintro label ⟨⟩
  exact ⟨hline ▸ Bool.eq_false_iff.2 hsame, by rw [hid]⟩

/-- The word that a jump begins with. -/
def jumpWord (isBreak : Bool) : Keyword := if isBreak then .break else .continue

/-- How it is spelled. -/
def jumpSpelling (isBreak : Bool) : String := if isBreak then "break" else "continue"

theorem leaves_jumpStatement (isBreak : Bool) (hs : s.Tight source)
    (hk : s.token.kind = .keyword (jumpWord isBreak)) :
    Leaves env s (jumpStatement s.here isBreak) fun st s' =>
      s'.From source s.here ∧ (Node.stmt st).Written source := by
  refine .bind Parser.leaves_discardBump fun _ s₁ hpast => ?_
  have hs₁ := hs.fromHere.past hpast
  refine .bind (leaves_jumpLabel hs₁) fun label s₂ ⟨hs₂, hlabel⟩ => ?_
  replace hlabel : ∀ l ∈ label, AfterWord source s.here (jumpSpelling isBreak) l.loc.start := by
    intro l hl
    obtain ⟨hline, hstart⟩ := hlabel l hl
    rw [hstart]
    refine hs.afterWord hs₁.tight hpast.lastEnd hline hk ?_
    cases isBreak <;> decide
  refine Parser.Tells.after (fun _ => .ended fun loc hloc hended => .pure ?_) env s₂ hs₂
  rw [← hloc] at hlabel
  -- both kinds of jumps say the same, with another word
  cases isBreak <;> refine .intro ⟨hended, ?_, trivial⟩ (List.forall_mem_nil _) <;> cases label
  case false.none | true.none => trivial
  case false.some | true.some => exact hlabel _ rfl

theorem tells_debuggerStatement :
    (debuggerStatement start).Tells (From source start) fun s => (Node.stmt s).Written source :=
  .after fun _ => .ended fun _ _ hended =>
    .pure (.intro ⟨hended, trivial, trivial⟩ (List.forall_mem_nil _))

namespace Spells

variable {g : Grammar} (h : g.Spells source)
include h

/-! ## Exports -/

/-- What is exported by default; an expression ends with its semicolon, and so does the export. -/
theorem defaultExport (hs : s.From source start) : Leaves env s g.defaultExport fun value s' =>
    s'.From source start ∧
      (Node.module (.exportDefault ⟨start, s'.lastEnd⟩ value)).Written source := by
  have hfunction {f : Func} {loc : Span} (hf : (Node.function f).Written source)
      (hu : f.Unbroken source) : (Node.module (.exportDefault loc (.function f))).Written source :=
    .intro ⟨trivial, hu, trivial⟩ (List.forall_mem_singleton.2 hf)
  refine .here (.look (Parser.leaves_atKind _) fun _ _ => .ite (fun _ => ?_) fun _ =>
    .look leaves_atAsyncFunction fun isFunction hasync => .ite (fun hf => ?_) fun _ =>
    .look (Parser.leaves_atKind _) fun _ _ => .ite (fun _ => ?_) fun _ => ?_)
  · exact .bind (h.plainFunction _ false env s hs) fun f s' ⟨hs', hf, hu⟩ =>
      .pure ⟨hs', hfunction hf hu⟩
  · refine .bind Parser.leaves_discardBump fun _ s₁ hpast => ?_
    exact .bind (h.asyncFunction hs (hasync hf) hpast false) fun f s' ⟨hs', hf, hu⟩ =>
      .pure ⟨hs', hfunction hf hu⟩
  · exact .bind (h.classDefinition false env s hs) fun c s' ⟨hs', hc⟩ =>
      .pure ⟨hs', .intro ⟨trivial, trivial, trivial⟩ (List.forall_mem_singleton.2 hc)⟩
  · exact .bind (h.assignment env s hs) fun e s₁ ⟨hs₁, he⟩ =>
      .bind (Parser.leaves_semicolon hs₁) fun _ s' ⟨hs', hended⟩ =>
      .pure ⟨hs', .intro ⟨hended, trivial, trivial⟩ (List.forall_mem_singleton.2 he)⟩

theorem exportDeclaration :
    g.exportDeclaration.Tells (From source start) fun d => (Node.module d).Written source := by
  refine Parser.tells_of_here fun env s hs => .here (.bind (Parser.leaves_expectWord _)
    fun _ s₁ ⟨_, hpast⟩ => .bind (Parser.leaves_eatKind_from _ (hs.fromHere.past hpast))
    fun isDefault s₂ ⟨hs₂, _⟩ => .ite (fun _ => ?_) fun _ => ?_)
  · exact .bind (h.defaultExport hs₂) fun value s' ⟨hs', hvalue⟩ => .spanFrom (.pure ⟨hs', hvalue⟩)
  refine .bind (Parser.leaves_eatKind_from _ hs₂) fun isStar s₃ ⟨hs₃, _⟩ => .ite
    (fun _ => tells_exportAll env s₃ hs₃) fun _ => .bind (Parser.leaves_eatKind_from _ hs₃)
    fun isList s₄ ⟨hs₄, _⟩ => .ite (fun _ => tells_exportList env s₄ hs₄) fun _ => ?_
  refine Parser.Tells.after (fun isExportable => .ite ?_ .unexpected) env s₄ hs₄
  refine .bind (h.statement false) fun st hst => .after fun loc => .pure ?_
  exact Node.offOrdinary_spelled.intro rfl (List.forall_mem_singleton.2 hst)

/-! ## Statements that end with a semicolon -/

theorem varStatement :
    (g.varStatement start).Tells (From source start) fun s => (Node.stmt s).Written source := by
  refine .bind h.carries.varDecl fun ⟨_, kind, declarators⟩ hd => .ended fun loc _ hended =>
    .pure (.intro ⟨hended, trivial, trivial⟩ (List.forall_mem_singleton.2 ?_))
  -- the declaration is put together anew, to end with the semicolon
  exact Node.offOrdinary_spelled.intro rfl (Node.all_iff.1 hd).2

theorem expressionStatement :
    (g.expressionStatement start).Tells (From source start) fun s => (Node.stmt s).Written source :=
  .bind h.carries.expression fun _ he => .ended fun _ _ hended =>
    .pure (.intro ⟨hended, trivial, trivial⟩ (List.forall_mem_singleton.2 he))

/-- What is given to `return` stands on the line of the word. -/
theorem returnStatement (hs : s.Tight source) (hk : s.token.kind = .keyword .return) :
    Leaves env s (g.returnStatement s.here) fun st s' =>
      s'.From source s.here ∧ (Node.stmt st).Written source := by
  refine .read (.ite (fun _ => .fail _ _) fun _ => .bind Parser.leaves_discardBump fun _ s₁ hpast =>
    .look Parser.leaves_atStatementEnd fun isEnd hline => ?_)
  have hs₁ := hs.fromHere.past hpast
  refine .join (P := fun argument s' => s'.From source s.here ∧ ∀ e ∈ argument,
      (Node.expr e).Written source ∧ AfterWord source s.here "return" e.loc.start)
    (fun _ => .pure ⟨hs₁, nofun⟩) (fun hgoes => .map ?_) fun argument s₂ ⟨hs₂, harg⟩ => ?_
  · refine (Parser.leaves_construct hs₁ h.carries.expression h.nests.expression).mono ?_
    rintro e s' ⟨hs', he, _, hloc⟩
    refine ⟨hs', ?_⟩
    rintro _ ⟨⟩
    have hsame := hline (Bool.eq_false_iff.2 hgoes)
    have hafter : AfterWord source s.here "return" s₁.here :=
      hs.afterWord hs₁.tight hpast.lastEnd hsame hk (by decide)
    refine ⟨he, ?_⟩
    show AfterWord source s.here "return" (Located.expr e).loc.start
    rw [hloc]
    exact hafter
  · refine Parser.Tells.ended
      (fun loc hloc hended => .pure (.intro ⟨hended, ?_, trivial⟩ ?_)) env s₂ hs₂
    · rw [← hloc] at harg
      cases argument with
      | none => trivial
      | some e => exact (harg e rfl).2
    · exact forall_mem_toList fun e he => (harg e he).1

/-- What is thrown stands on the line of the word `throw`. -/
theorem throwStatement (hs : s.Tight source) (hk : s.token.kind = .keyword .throw) :
    Leaves env s (g.throwStatement s.here) fun st s' =>
      s'.From source s.here ∧ (Node.stmt st).Written source := by
  refine .bind Parser.leaves_discardBump fun _ s₁ hpast => .look Parser.leaves_afterNewline
    fun isAfter hline => .ite (fun _ => .here (.fail _ _)) fun hsame => ?_
  have hs₁ := hs.fromHere.past hpast
  refine .bind (Parser.leaves_construct hs₁ h.carries.expression h.nests.expression)
    fun e s₂ ⟨hs₂, he, _, hloc⟩ => ?_
  refine Parser.Tells.ended
    (fun loc hstart hended => .pure (.intro ⟨hended, ?_, trivial⟩ ?_)) env s₂ hs₂
  · show AfterWord source loc.start "throw" (Located.expr e).loc.start
    rw [hstart, hloc]
    exact hs.afterWord hs₁.tight hpast.lastEnd (hline ▸ Bool.eq_false_iff.2 hsame) hk (by decide)
  · exact List.forall_mem_singleton.2 he

/-! ## All of them -/

omit h in
/-- A function as a statement. -/
theorem written_functionStatement {f : Func} (hf : (Node.function f).Written source)
    (hunbroken : f.Unbroken source) : (Node.stmt (.function f)).Written source :=
  .intro ⟨trivial, hunbroken, trivial⟩ (List.forall_mem_singleton.2 hf)

theorem statementAtName (hs : s.Tight source) : Leaves env s (g.statementAtName s.here) fun st s' =>
    s'.From source s.here ∧ (Node.stmt st).Written source := by
  refine .look leaves_atLetDeclaration fun isLet _ => .ite
    (fun _ => h.varStatement env s hs.fromHere) fun _ => .look leaves_atAsyncFunction
    fun isFunction hasync => .ite (fun hf => ?_) fun _ =>
    .look Parser.leaves_peek fun next _ => .ite
    (fun _ => h.carries.labeledStatement s.here env s hs.fromHere)
    fun _ => h.expressionStatement env s hs.fromHere
  refine .bind Parser.leaves_discardBump fun _ s₁ hpast => ?_
  exact .bind (h.asyncFunction hs.fromHere (hasync hf) hpast true) fun f s₂ ⟨hs₂, hf, hu⟩ =>
    .pure ⟨hs₂, written_functionStatement hf hu⟩

theorem statementAtImport (isTopLevel : Bool) : (g.statementAtImport start isTopLevel).Tells
    (From source start) fun s => (Node.stmt s).Written source := by
  refine .after fun next => ?_
  split
  · exact h.expressionStatement
  · exact h.expressionStatement
  · refine .after fun _ => .bind tells_importDeclaration fun d hd => .pure ?_
    exact Node.offOrdinary_spelled.intro rfl (List.forall_mem_singleton.2 hd)

theorem statementAtWord (isTopLevel : Bool) {word : Keyword} (hs : s.Tight source)
    (hk : s.token.kind = .keyword word) :
    Leaves env s (g.statementAtWord s.here isTopLevel word) fun st s' =>
      s'.From source s.here ∧ (Node.stmt st).Written source := by
  have hhere := hs.fromHere
  unfold Grammar.statementAtWord
  split
  case h_1 | h_2 => exact h.varStatement env s hhere
  case h_3 =>
    exact .bind (h.plainFunction s.here true env s hhere) fun f s' ⟨hs', hf, hu⟩ =>
      .pure ⟨hs', written_functionStatement hf hu⟩
  case h_4 =>
    refine .bind (h.classDefinition true env s hhere) fun c s' ⟨hs', hc⟩ => .pure ⟨hs', ?_⟩
    exact Node.offOrdinary_spelled.intro rfl (List.forall_mem_singleton.2 hc)
  case h_5 => exact h.carries.ifStatement s.here env s hhere
  case h_6 => exact h.carries.forStatement s.here env s hhere
  case h_7 => exact h.carries.whileStatement s.here env s hhere
  case h_8 => exact h.carries.doWhileStatement s.here env s hhere
  case h_9 => exact h.carries.switchStatement s.here env s hhere
  case h_10 => exact h.carries.tryStatement s.here env s hhere
  case h_11 => exact h.returnStatement hs hk
  case h_12 => exact h.throwStatement hs hk
  case h_13 => exact leaves_jumpStatement true hs hk
  case h_14 => exact leaves_jumpStatement false hs hk
  case h_15 => exact tells_debuggerStatement env s hhere
  case h_16 => exact h.carries.withStatement s.here env s hhere
  case h_17 => exact h.statementAtImport isTopLevel env s hhere
  case h_18 =>
    refine Parser.Tells.after (fun _ => .bind h.exportDeclaration fun d hd => .pure ?_) env s hhere
    exact Node.offOrdinary_spelled.intro rfl (List.forall_mem_singleton.2 hd)
  case h_19 => exact h.expressionStatement env s hhere

theorem statementBody (isTopLevel : Bool) : (g.statementBody isTopLevel).Tells (From source start)
    fun s => (Node.stmt s).Written source := by
  refine Parser.tells_of_here fun env s hs => .here (.kind ?_)
  split
  · refine .bind (h.carries.block env s hs.fromHere) fun b s' ⟨hs', hb⟩ => .pure ⟨hs', ?_⟩
    exact Node.offOrdinary_spelled.intro rfl (List.forall_mem_singleton.2 hb)
  · refine .bind Parser.leaves_bump fun t s' ⟨_, hpast⟩ => .pure ⟨hs.fromHere.past hpast, ?_⟩
    exact Node.offOrdinary_spelled.leaf rfl rfl
  · exact h.statementAtName hs
  · next hk => exact h.statementAtWord isTopLevel hs hk
  · exact h.expressionStatement env s hs.fromHere

/-- Statements up to the end of the text. -/
theorem program : g.program.Tells (From source start) fun p =>
    ∀ s ∈ p.body, (Node.stmt s).Written source :=
  .after fun _ => .bind (.collectUntil (h.statement true)) fun _ hbody => .after fun _ =>
    .after fun _ => .pure hbody

end Spells

/-! ## The grammar of all levels -/

/-- At the limit of nesting nothing is read. -/
theorem spells_limit : limit.Spells source where
  nests := nests_limit
  statement _ := .after fun _ => .fail _ _
  assignment := .after fun _ => .fail _ _
  operation _ := .after fun _ => .fail _ _
  unary := .after fun _ => .fail _ _
  leftHandSide := .after fun _ => .fail _ _
  newExpr := .after fun _ => .fail _ _
  arrayPattern := .after fun _ => .fail _ _
  objectPattern := .after fun _ => .fail _ _

theorem Spells.deeper {g : Grammar} (h : g.Spells source) : g.deeper.Spells source where
  nests := nests_deeper h.nests
  statement := h.statementBody
  assignment := h.assignmentBody
  operation := h.operationBody
  unary := h.unaryBody
  leftHandSide := h.leftHandSideBody
  newExpr := h.newBody
  arrayPattern := h.carries.arrayPatternBody
  objectPattern := h.carries.objectPatternBody

theorem spells_nest (n : Nat) : (nest n).Spells source := by
  induction n with
  | zero => exact spells_limit
  | succ n ih => exact ih.deeper

end Grammar

end WithScope
