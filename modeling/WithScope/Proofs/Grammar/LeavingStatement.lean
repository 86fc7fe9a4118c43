import WithScope.Grammar.Program
import WithScope.Proofs.Grammar.Yields
import WithScope.Proofs.Tree.CoverRule
import WithScope.Proofs.Tree.Leaving

/-!
# Returns are found in all that is read

`Stmt.returns` goes down only where the grammar puts statements into statements, so it finds all
returns that leave a statement that has been read: `direct_of_parse`.

It does not go down into exported declarations. These are read by the production that reads all
statements, and hold no returns only because the grammar has looked ahead: where `atExportable`
holds, that production reads a declaration (`Grammar.Direct.declaration`).
-/

namespace WithScope

open WithScope.Parser (Yields YieldsIn)

/-! ## Looking ahead -/

namespace Parser

variable {α β : Type} {env : Surrounding} {s s' : ParserState}

/-- What two parsers in a row read. -/
theorem exists_of_run_bind {p : Parser α} {f : α → Parser β} {b : β}
    (h : (p >>= f) env s = .ok (b, s')) :
    ∃ a s₁, p env s = .ok (a, s₁) ∧ f a env s₁ = .ok (b, s') := by
  obtain ⟨⟨a, s₁⟩, ha, hb⟩ := exists_of_bind_eq_ok (h : p env s >>= _ = _)
  exact ⟨a, s₁, ha, hb⟩

/-- A parser that leaves the state as it is, unless it fails. -/
def Stays (p : Parser α) : Prop := ∀ env s a s', p env s = .ok (a, s') → s' = s

namespace Stays

variable {p q : Parser α}

/-- A value is given where the state is. -/
theorem pure (a : α) : (Pure.pure a : Parser α).Stays := by
  rintro env s _ _ ⟨⟩
  rfl

/-- Neither of two parsers moves, so both together do not. -/
theorem bind {f : α → Parser β} (hp : p.Stays) (hf : ∀ a, (f a).Stays) : (p >>= f).Stays := by
  intro env s b s' hrun
  obtain ⟨a, s₁, ha, hb⟩ := exists_of_run_bind hrun
  obtain rfl := hp env s a s₁ ha
  exact hf a env s₁ b s' hb

/-- Whichever side is chosen, it does not move. -/
theorem ite {c : Prop} [Decidable c] (hp : p.Stays) (hq : q.Stays) :
    (if c then p else q).Stays := by
  split
  · exact hp
  · exact hq

theorem kind : Parser.kind.Stays := by
  rintro env s _ _ ⟨⟩
  rfl

theorem atName (name : String) : (Parser.atName name).Stays := by
  rintro env s _ _ ⟨⟩
  rfl

/-- The token that is looked at is left where it is. -/
theorem peek : Parser.peek.Stays := by
  intro env s t s' hrun
  unfold Parser.peek at hrun
  obtain ⟨_, _, ⟨⟩, hrun⟩ := exists_of_run_bind hrun
  cases hnext : s.lexer.next.1 with
  | error e =>
    rw [hnext] at hrun
    cases hrun
  | ok t =>
    rw [hnext] at hrun
    cases hrun
    rfl

end Stays

end Parser

namespace Grammar

open WithScope.Parser (Stays exists_of_run_bind)

/-- Looking for a binding after `let` does not move. -/
theorem stays_atLetDeclaration : atLetDeclaration.Stays :=
  (Stays.atName _).bind fun _ => .ite (Stays.peek.bind fun _ => .pure _) (.pure _)

/-- Looking for `function` after `async` does not move. -/
theorem stays_atAsyncFunction : atAsyncFunction.Stays :=
  (Stays.atName _).bind fun _ => .ite (Stays.peek.bind fun _ => .pure _) (.pure _)

/-- Looking for something that can be exported does not move. -/
theorem stays_atExportable : atExportable.Stays := by
  refine Stays.kind.bind fun kind => ?_
  split
  case h_5 => exact stays_atLetDeclaration.bind fun _ => .ite (.pure _) stays_atAsyncFunction
  all_goals exact .pure _

variable {env : Surrounding} {s s' : ParserState}

/-- A word that is special only in some places is an identifier. -/
theorem kind_of_atName (name : String) {p : Parser Bool}
    (h : (do if ← Parser.atName name then p else return false : Parser Bool) env s =
      .ok (true, s')) : s.token.kind = .identifier := by
  obtain ⟨_, _, ⟨⟩, h⟩ := exists_of_run_bind h
  split at h
  · next hname =>
    rw [Token.isIdentifier, Bool.and_eq_true, beq_iff_eq] at hname
    exact hname.1
  · cases h

/-- The word `let` is an identifier to the lexer. -/
theorem kind_of_atLetDeclaration (h : atLetDeclaration env s = .ok (true, s')) :
    s.token.kind = .identifier := kind_of_atName _ h

/-- The word `async` is an identifier to the lexer. -/
theorem kind_of_atAsyncFunction (h : atAsyncFunction env s = .ok (true, s')) :
    s.token.kind = .identifier := kind_of_atName _ h

/-- Whether a reserved word begins a declaration. -/
def declares : Keyword → Bool
  | .var | .const | .function | .class => true
  | _ => false

/-- Where a declaration begins: with a reserved word, or with an identifier that stands for one. -/
theorem cases_of_atExportable (h : atExportable env s = .ok (true, s')) :
    (∃ word, s.token.kind = .keyword word ∧ declares word) ∨
    s.token.kind = .identifier ∧ (atLetDeclaration env s = .ok (true, s) ∨
      atLetDeclaration env s = .ok (false, s) ∧ atAsyncFunction env s = .ok (true, s)) := by
  have hword : (∃ word, s.token.kind = .keyword word ∧ declares word) ∨
      (do if ← atLetDeclaration then return true else atAsyncFunction : Parser Bool) env s =
        .ok (true, s') := by
    unfold atExportable at h
    obtain ⟨_, _, ⟨⟩, h⟩ := exists_of_run_bind h
    cases hk : s.token.kind with
    | keyword word =>
      rw [hk] at h
      cases word <;> first | exact .inl ⟨_, rfl, rfl⟩ | exact .inr h
    | _ =>
      rw [hk] at h
      exact .inr h
  refine hword.imp id fun h => ?_
  obtain ⟨isLet, s₁, hlet, h⟩ := exists_of_run_bind h
  obtain rfl := stays_atLetDeclaration env s isLet s₁ hlet
  cases isLet with
  | true => exact ⟨kind_of_atLetDeclaration hlet, .inl hlet⟩
  | false =>
    obtain rfl := stays_atAsyncFunction env s₁ true s' h
    exact ⟨kind_of_atAsyncFunction h, .inr ⟨hlet, h⟩⟩

/-! ## Declarations -/

variable (g : Grammar) {start : Position}

/-- What `let`, `const` and `var` begin is a declaration. -/
theorem isDeclaration_varStatement (start : Position) :
    (g.varStatement start).Yields fun s => s.isDeclaration :=
  .after fun ⟨_, _, _⟩ => .after fun _ => .after fun _ => .pure rfl

/-- What `function` begins is a declaration, where a name is required. -/
theorem isDeclaration_functionStatement (start : Position) (isAsync : Bool) :
    (do return .function (← g.function start isAsync true) : Parser Stmt).Yields
      fun s => s.isDeclaration :=
  .after fun _ => .pure rfl

/-- A word that an export has looked for begins a declaration. -/
theorem isDeclaration_statementAtWord {word : Keyword} (h : declares word) (start : Position) :
    (g.statementAtWord start false word).Yields fun s => s.isDeclaration := by
  cases word
  case var | const => exact g.isDeclaration_varStatement start
  case function => exact g.isDeclaration_functionStatement start false
  case «class» => exact .after fun _ => .pure rfl
  all_goals cases h

/-- Where a declaration begins, a declaration is read. -/
theorem isDeclaration_statementBody {env : Surrounding} {s s' : ParserState} {d : Stmt}
    (hlook : atExportable env s = .ok (true, s)) (h : g.statementBody false env s = .ok (d, s')) :
    d.isDeclaration := by
  unfold statementBody at h
  obtain ⟨start, _, ⟨⟩, h⟩ := exists_of_run_bind h
  obtain ⟨_, _, ⟨⟩, h⟩ := exists_of_run_bind h
  rcases cases_of_atExportable hlook with ⟨word, hk, hword⟩ | ⟨hk, hlook⟩
  · rw [hk] at h
    exact g.isDeclaration_statementAtWord hword _ env s d s' h
  rw [hk] at h
  obtain ⟨isLet, s₁, hlet, h⟩ := exists_of_run_bind (p := atLetDeclaration) h
  rcases hlook with hyes | ⟨hno, hasync⟩
  · cases hlet.symm.trans hyes
    exact g.isDeclaration_varStatement _ env s d s' h
  · cases hlet.symm.trans hno
    obtain ⟨isAsync, s₁, hrun, h⟩ := exists_of_run_bind (p := atAsyncFunction) h
    cases hrun.symm.trans hasync
    obtain ⟨_, s₁, -, h⟩ := exists_of_run_bind (p := discard Parser.bump) h
    exact g.isDeclaration_functionStatement _ true env s₁ d s' h

end Grammar

/-! ## Statements -/

/-- The productions through which a grammar contains itself read statements in which the returns
are found, and declarations where one begins. -/
structure Grammar.Direct (g : Grammar) : Prop where
  statement : ∀ isTopLevel, (g.statement isTopLevel).Yields Stmt.Direct
  declaration : ∀ env s d s', Grammar.atExportable env s = .ok (true, s) →
    g.statement false env s = .ok (d, s') → d.isDeclaration

namespace Grammar.Direct

variable {g : Grammar} (h : g.Direct)
include h

/-- The statements in a block are found, since each of them is direct. -/
theorem block : g.block.Yields Block.Direct := by
  refine .after fun _ => .after fun _ => ?_
  have hitem := h.statement false
  refine .bind (.collectUntil (.after fun _ => .ite .unexpected hitem)) fun _ hbody => ?_
  refine .after fun _ => .after fun _ => ?_
  exact .pure (.of_body hbody)

/-- Returns are looked for in both branches. -/
theorem ifStatement (start : Position) : (g.ifStatement start).Yields Stmt.Direct := by
  refine .after fun _ => .after fun _ => .bind (h.statement false) fun _ hc => ?_
  refine .after fun _ => .join (h.statement false).some .none fun _ ha => ?_
  exact .after fun _ => .pure (.if hc ha)

/-- Returns are looked for in all statements of a clause. -/
theorem switchCase : g.switchCase.Yields SwitchCase.Direct := by
  refine .after fun _ => .after fun _ => .after fun _ => ?_
  refine .bind (.collectUntil (h.statement false)) fun _ hc => ?_
  exact .after fun _ => .ite .unexpected (.after fun _ => .pure (.of_consequent hc))

/-- Returns are looked for in all clauses. -/
theorem switchStatement (start : Position) : (g.switchStatement start).Yields Stmt.Direct := by
  refine .after fun _ => .after fun _ => .after fun _ => ?_
  refine .bind (.withContext (.collectUntil h.switchCase)) fun _ hc => ?_
  exact .after fun _ => .pure (.switch hc)

/-- The body of a loop is a statement like any other. -/
theorem loopBody : g.loopBody.Yields Stmt.Direct := .withContext (h.statement false)

/-- Returns are looked for in the body. -/
theorem whileStatement (start : Position) : (g.whileStatement start).Yields Stmt.Direct :=
  .after fun _ => .after fun _ => .bind h.loopBody fun _ hb => .after fun _ => .pure hb.while

/-- Returns are looked for in the body, which comes first. -/
theorem doWhileStatement (start : Position) : (g.doWhileStatement start).Yields Stmt.Direct := by
  refine .after fun _ => .bind h.loopBody fun _ hb => ?_
  refine .after fun _ => .after fun _ => .after fun _ => ?_
  exact .after fun _ => .pure hb.doWhile

/-- What a loop begins with holds expressions, in which no return is outside of a function. -/
theorem forRest (start : Position) (init : Option ForInit) :
    (g.forRest start init).Yields Stmt.Direct := by
  refine .after fun _ => .after fun _ => .after fun _ => ?_
  refine .after fun _ => .after fun _ => .bind h.loopBody fun _ hb => ?_
  exact .after fun _ => .pure hb.for

/-- The target and the values hold expressions alone. -/
theorem forOfRest (start : Position) (isAwait : Bool) (init : ForInit) :
    (g.forOfRest start isAwait init).Yields Stmt.Direct := by
  refine .after fun _ => .after fun _ => .after fun _ => ?_
  refine .after fun _ => .bind h.loopBody fun _ hb => ?_
  exact .after fun _ => .pure hb.forOf

/-- The target and the object hold expressions alone. -/
theorem forInRest (start : Position) (init : ForInit) :
    (g.forInRest start init).Yields Stmt.Direct := by
  refine .after fun _ => .after fun _ => .after fun _ => ?_
  refine .after fun _ => .bind h.loopBody fun _ hb => ?_
  exact .after fun _ => .pure hb.forIn

/-- All three sorts of loop have their statements in the body. -/
theorem forStatement (start : Position) : (g.forStatement start).Yields Stmt.Direct := by
  refine .after fun _ => .after fun isAwait => .after fun _ => ?_
  refine .after fun _ => .ite (h.forRest start none) (.after fun init => .after fun _ => ?_)
  refine .ite (h.forOfRest start isAwait init) (.after fun _ => ?_)
  exact .ite (h.forInRest start init) (h.forRest start (some init))

/-- The parameter of a clause holds expressions alone, and the block is searched. -/
theorem catchClause : g.catchClause.Yields fun c => ∀ a ∈ c, a.Direct := by
  have hbody (start : Position) (param : Option Pat) :
      (do let body ← g.block
          return some (.mk (← Parser.spanFrom start) param body) : Parser (Option CatchClause)).Yields
        fun c => ∀ a ∈ c, a.Direct :=
    .bind h.block fun _ hb => .after fun _ => .pureSome (.of_body hb)
  refine .after fun start => .after fun _ => .ite (.after fun _ => .ite ?_ ?_) .none
  · exact .after fun _ => .after fun _ => .after fun param => hbody start param
  · exact .after fun param => hbody start param

/-- All three blocks are searched. -/
theorem tryStatement (start : Position) : (g.tryStatement start).Yields Stmt.Direct := by
  refine .after fun _ => .bind h.block fun _ hb => ?_
  refine .bind h.catchClause fun _ hh => ?_
  refine .after fun _ => .join h.block.some .none fun _ hf => ?_
  exact .ite (.after fun _ => .fail _ _) (.after fun _ => .pure (.try hb hh hf))

/-- The body is searched, and the object is an expression. -/
theorem withStatement (start : Position) : (g.withStatement start).Yields Stmt.Direct :=
  .after fun _ => .after fun _ => .bind (h.statement false) fun _ hb => .after fun _ =>
    .pure hb.with

/-- A label hides nothing. -/
theorem labeledStatement (start : Position) : (g.labeledStatement start).Yields Stmt.Direct :=
  .after fun _ => .after fun _ => .ite (.fail _ _) (.after fun _ =>
    .bind (h.statement false).withLabel fun _ hb => .after fun _ => .pure hb.labeled)

/-! ## Exports -/

omit h in
/-- What is read of a list or of a whole module declares nothing. -/
theorem exportAll (start : Position) :
    (Grammar.exportAll start).Yields fun d => d.children.flatMap Node.leaving = [] := by
  have hrest (exported : Option ModuleName) :
      (do Parser.expectName "from"
          let source ← Grammar.moduleSource
          let attributes ← Grammar.importAttributes
          Parser.semicolon
          return .exportAll (← Parser.spanFrom start) exported source attributes :
        Parser ModuleDecl).Yields fun d => d.children.flatMap Node.leaving = [] :=
    .after fun _ => .after fun _ => .after fun _ => .after fun _ => .after fun _ => .pure rfl
  exact .after fun _ => .ite (.after fun _ => .after fun exported => hrest exported)
    (.after fun exported => hrest exported)

omit h in
/-- There are names in an export list, and no statements. -/
theorem exportList (start : Position) :
    (Grammar.exportList start).Yields fun d => d.children.flatMap Node.leaving = [] := by
  refine .after fun _ => .after fun _ => .ite ?_ ?_
  · refine .after fun _ => .after fun _ => .after fun _ => ?_
    refine .after fun _ => .after fun _ => ?_
    exact .pure (List.flatMap_eq_nil_iff.2 (List.forall_mem_map.2 fun s _ =>
      Node.leaving_exportSpecifier _ s))
  · exact .after fun _ => .after fun _ =>
      .pure (List.flatMap_eq_nil_iff.2 (List.forall_mem_map.2 fun s _ => Node.leaving_exportSpecifier _ s))

/-- What has been looked for is a declaration, and returns in it belong to functions. -/
theorem exportedDeclaration (start : Position) (env : Surrounding) :
    (do if ← Grammar.atExportable then
          let declaration ← g.statement false
          return .exportNamed (← Parser.spanFrom start) [] none (some declaration) []
        else Parser.unexpected : Parser ModuleDecl).YieldsIn env
      fun d => d.children.flatMap Node.leaving = [] := by
  intro s d s' hrun
  obtain ⟨isExportable, s₁, hlook, hrun⟩ := Parser.exists_of_run_bind hrun
  obtain rfl := Grammar.stays_atExportable env s isExportable s₁ hlook
  cases isExportable with
  | false => exact YieldsIn.unexpected (Q := fun d => d.children.flatMap Node.leaving = []) s₁ d s' hrun
  | true =>
    obtain ⟨declaration, s₂, hread, hrun⟩ := Parser.exists_of_run_bind hrun
    obtain ⟨loc, s₃, -, ⟨⟩⟩ := Parser.exists_of_run_bind hrun
    have hdeclaration := h.declaration env s₁ declaration s₂ hlook hread
    exact (List.flatMap_singleton ..).trans (Stmt.leaving_of_isDeclaration hdeclaration)

/-- No return leaves an export. -/
theorem exportDeclaration :
    g.exportDeclaration.Yields fun d => d.children.flatMap Node.leaving = [] := by
  refine .after fun start => .after fun _ => .after fun _ => .ite ?_ ?_
  · refine .after fun value => .after fun loc => .pure ?_
    rw [ModuleDecl.children, List.flatMap_singleton, Node.leaving_defaultExport]
  · exact .after fun _ => .ite (exportAll start) (.after fun _ => .ite (exportList start)
      (h.exportedDeclaration start))

omit h in
/-- No return leaves an import, which holds names alone. -/
theorem importDeclaration :
    Grammar.importDeclaration.Yields fun d => d.children.flatMap Node.leaving = [] := by
  refine .after fun _ => .after fun _ => .after fun _ => ?_
  refine .join (.trivial _) (.trivial _) fun _ _ => ?_
  refine .after fun _ => .after fun _ => .after fun _ => ?_
  exact .after fun _ => .pure rfl

/-! ## All of them -/

omit h in
/-- Statements that hold no others. -/
theorem simple {p : Parser Stmt} (hp : p.Yields fun s => s.isSimple) : p.Yields Stmt.Direct :=
  hp.mono Stmt.direct_of_isSimple

omit h in
/-- The values of a declaration are expressions. -/
theorem varStatement (g : Grammar) (start : Position) : (g.varStatement start).Yields Stmt.Direct :=
  simple (.after fun ⟨_, _, _⟩ => .after fun _ => .after fun _ => .pure rfl)

omit h in
/-- The returns of a function stay in it. -/
theorem functionStatement (g : Grammar) (start : Position) (isAsync : Bool) :
    (do return .function (← g.function start isAsync true) : Parser Stmt).Yields Stmt.Direct :=
  simple (.after fun _ => .pure rfl)

omit h in
theorem expressionStatement (g : Grammar) (start : Position) :
    (g.expressionStatement start).Yields Stmt.Direct :=
  simple (.after fun _ => .after fun _ => .after fun _ => .pure rfl)

omit h in
/-- There are no statements in a jump. -/
theorem jumpStatement (start : Position) (isBreak : Bool) :
    (Grammar.jumpStatement start isBreak).Yields Stmt.Direct := by
  refine simple (.after fun _ => .after fun _ => .after fun _ => .after fun _ => .after fun _ =>
    .pure ?_)
  cases isBreak <;> rfl

omit h in
/-- A return is found itself, and none is in its argument. -/
theorem returnStatement (g : Grammar) (start : Position) :
    (g.returnStatement start).Yields Stmt.Direct :=
  simple (.after fun _ => .ite (.fail _ _) (.after fun _ => .after fun _ =>
    .join (.trivial _) (.trivial _) fun _ _ => .after fun _ => .after fun _ => .pure rfl))

omit h in
/-- No return leaves the argument of a `throw`. -/
theorem throwStatement (g : Grammar) (start : Position) :
    (g.throwStatement start).Yields Stmt.Direct :=
  simple (.after fun _ => .after fun _ => .ite (.after fun _ => .fail _ _)
    (.after fun _ => .after fun _ => .after fun _ => .pure rfl))

/-- Of the statements that an identifier begins only those with a label hold others. -/
theorem statementAtName (start : Position) : (g.statementAtName start).Yields Stmt.Direct :=
  .after fun _ => .ite (varStatement g start) (.after fun _ =>
    .ite (.after fun _ => functionStatement g start true) (.after fun _ =>
      .ite (h.labeledStatement start) (expressionStatement g start)))

omit h in
theorem statementAtImport (g : Grammar) (start : Position) (isTopLevel : Bool) :
    (g.statementAtImport start isTopLevel).Yields Stmt.Direct := by
  refine .after fun next => ?_
  split
  · exact expressionStatement g start
  · exact expressionStatement g start
  · exact .after fun _ => .bind importDeclaration fun _ hd => .pure (.module hd)

/-- By the word: statements in which others stand, and those in which none does. -/
theorem statementAtWord (start : Position) (isTopLevel : Bool) (word : Keyword) :
    (g.statementAtWord start isTopLevel word).Yields Stmt.Direct := by
  unfold Grammar.statementAtWord
  split
  case h_1 | h_2 => exact varStatement g start
  case h_3 => exact functionStatement g start false
  case h_4 => exact simple (.after fun _ => .pure rfl)
  case h_5 => exact h.ifStatement start
  case h_6 => exact h.forStatement start
  case h_7 => exact h.whileStatement start
  case h_8 => exact h.doWhileStatement start
  case h_9 => exact h.switchStatement start
  case h_10 => exact h.tryStatement start
  case h_11 => exact returnStatement g start
  case h_12 => exact throwStatement g start
  case h_13 => exact jumpStatement start true
  case h_14 => exact jumpStatement start false
  case h_15 => exact simple (.after fun _ => .after fun _ => .after fun _ => .pure rfl)
  case h_16 => exact h.withStatement start
  case h_17 => exact statementAtImport g start isTopLevel
  case h_18 => exact .after fun _ => .bind h.exportDeclaration fun _ hd => .pure (.module hd)
  case h_19 => exact expressionStatement g start

/-- Blocks and all other statements that a level of the grammar reads. -/
theorem statementBody (isTopLevel : Bool) : (g.statementBody isTopLevel).Yields Stmt.Direct := by
  refine .after fun start => .after fun kind => ?_
  split
  · exact .bind h.block fun _ hb => .pure (.block hb)
  · exact simple (.after fun _ => .pure rfl)
  · exact h.statementAtName start
  · exact h.statementAtWord start isTopLevel _
  · exact expressionStatement g start

end Grammar.Direct

/-! ## The grammar of all levels -/

/-- At the limit of nesting nothing is read. -/
theorem Grammar.direct_limit : Grammar.limit.Direct where
  statement _ := .after fun _ => .fail _ _
  declaration env s d s' _ hread := by
    have hnothing : (Grammar.limit.statement false).Yields fun d => d.isDeclaration :=
      .after fun _ => .fail _ _
    exact hnothing env s d s' hread

/-- One level more: what holds direct statements only where they are looked for is direct. -/
theorem Grammar.Direct.deeper {g : Grammar} (h : g.Direct) : g.deeper.Direct where
  statement := h.statementBody
  declaration _ _ _ _ := g.isDeclaration_statementBody

/-- In all statements that the grammar of any depth reads the returns are found. -/
theorem Grammar.direct_nest (n : Nat) : (Grammar.nest n).Direct := by
  induction n with
  | zero => exact direct_limit
  | succ n ih => exact ih.deeper

/-- The statements of a program are direct. -/
theorem Grammar.Direct.program {g : Grammar} (h : g.Direct) :
    g.program.Yields fun p => ∀ s ∈ p.body, s.Direct :=
  .after fun _ => .bind (.collectUntil (h.statement true)) fun _ hbody => .after fun _ =>
    .after fun _ => .pure hbody

/-- In all statements of a program that has been read the returns are found. -/
theorem direct_of_parse {options : Options} {source : List Char} {p : Program}
    (h : parse options source = .ok p) : ∀ s ∈ p.body, s.Direct :=
  YieldsIn.of_parse ((Grammar.direct_nest Grammar.maxNesting).program _) h

end WithScope
