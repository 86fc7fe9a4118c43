import WithScope.Proofs.Grammar.LeavingStatement
import WithScope.Proofs.Wrapper.Handing

/-!
# Statements whose returns hand their values on

A statement of a text is read in the text with replaced returns, too, and its returns hand their
values on: `Grammar.hands_nest`. Where the grammar puts statements into statements, each of them may
end the stretch that the parsers are in and begin another. All other statements hold no returns, and
are read within a stretch.
-/

namespace WithScope

open HoldsReturns (returns handedOn)
open Stretch.Hands

namespace Grammar

/-- Statements are read in the text with replaced returns. -/
def HandsOn (g : Grammar) : Prop :=
  ∀ (Ψ : Stretch) (env : Surrounding) s₁ s₂ isTopLevel, env.context.noIn = false →
    Ψ.Hands [] env s₁ s₂ (g.statement isTopLevel) (g.statement isTopLevel)

variable {n : Nat} {Ψ : Stretch} {env : Surrounding} {s₁ s₂ : ParserState} {start start' : Position}

/-! ## Statements without returns -/

/-- The token after the next one is the same in both runs, except at the border. -/
theorem follows_peek (hk : s₁.token.kind.peeks) :
    Ψ.Follows .clear Ψ.Same false env s₁ s₂ Parser.peek Parser.peek := by
  rw [← bind_pure Parser.peek]
  exact Stretch.Follows.peek hk fun _ => Stretch.Follows.done rfl

section

variable (hstart : start' = Ψ.places.shift start)
include hstart

/-- There is no return in a declaration. -/
theorem hands_varStatement (hk : s₁.token.kind.isPlain) :
    Ψ.Hands [] env s₁ s₂ ((nest n).varStatement start) ((nest n).varStatement start') :=
  inner ((alike_nest Ψ n n).follows_varStatement hstart hk)
    (.after fun ⟨_, _, _⟩ => .after fun _ => .after fun _ => .pure rfl)

/-- The returns in a function are its own. -/
theorem hands_functionStatement (isAsync : Bool) :
    Ψ.Hands [] env s₁ s₂
      (do return .function (← (nest n).function start isAsync true) : Parser Stmt)
      (do return .function (← (nest n).function start' isAsync true)) :=
  inner (Stretch.Follows.pass (((alike_nest Ψ n n).outer_function hstart isAsync true).inner _ _ _)
    fun _ _ _ => Stretch.Follows.done rfl) (.after fun _ => .pure rfl)

/-- There is no return in an expression. -/
theorem hands_expressionStatement : Ψ.Hands [] env s₁ s₂ ((nest n).expressionStatement start)
    ((nest n).expressionStatement start') :=
  inner ((alike_nest Ψ n n).inner_expressionStatement hstart _ _ _)
    (.after fun _ => .after fun _ => .after fun _ => .pure rfl)

/-- There is no return in an import. -/
theorem hands_statementAtImport (isTopLevel : Bool) (hk : s₁.token.kind = .keyword .import) :
    Ψ.Hands [] env s₁ s₂ ((nest n).statementAtImport start isTopLevel)
      ((nest n).statementAtImport start' isTopLevel) := by
  refine lead (follows_peek (by rw [hk]; rfl)) fun t _ _ => ?_
  rw [show (Ψ.moved t).kind = t.kind from rfl]
  split
  case h_1 | h_2 => exact hands_expressionStatement hstart
  refine lead (inner_checkModulePosition isTopLevel _ _ _) fun _ _ _ => ?_
  exact inner (Stretch.Follows.pass (inner_importDeclaration _ _ _) fun _ _ _ =>
    Stretch.Follows.done rfl) (.after fun _ => .pure rfl)

end

namespace HandsOn

section

variable (h : (nest n).HandsOn) (hin : env.context.noIn = false)
include h hin

/-- The returns of a block are those of its statements. -/
theorem hands_block : Ψ.Hands [] env s₁ s₂ (nest n).block (nest n).block := by
  refine here (lead (Stretch.Follows.expectMark _) fun _ s₁ s₂ => ?_)
  refine bind_by (collectUntil (fun Ψ _ _ => Stretch.Follows.atMark _) fun Ψ s₁ s₂ =>
    ifKind (fun _ => unexpected) (h Ψ env s₁ s₂ false hin)) fun Ψ body body' s₁ s₂ hrun hbody => ?_
  have hk : s₁.token.kind = .punctuator .rightBrace := (Parser.leaves_collectUntil _ _).of_run hrun
  refine lead (Stretch.Follows.skip (by rw [hk]; rfl)) fun _ _ _ => spanFrom fun _ _ => pure ?_ ?_
  · exact placeless_block hbody
  · exact (returns_stmts body).symm

/-! ## Choices -/

/-- The returns of an `if` are those of its branches. -/
theorem hands_ifStatement (hk : s₁.token.kind.isPlain) :
    Ψ.Hands [] env s₁ s₂ ((nest n).ifStatement start) ((nest n).ifStatement start') := by
  refine lead (Stretch.Follows.skip hk) fun _ _ _ =>
    lead ((alike_nest Ψ n n).inner_parenExpression _ _ _) fun test s₁ s₂ => ?_
  refine bind (h Ψ env s₁ s₂ false hin) fun Ψ' c c' s₁ s₂ hc => ?_
  have hrest (Ψ' : Stretch) (a a' : Option Stmt) (s₁ s₂ : ParserState)
      (ha : placeless a' = placeless (handedOn a)) :
      Ψ'.Hands (([] ++ returns c) ++ returns a) env s₁ s₂
        (do return .if (← Parser.spanFrom start) test c a : Parser Stmt)
        (do return .if (← Parser.spanFrom start') (Ψ.moved test) c' a') :=
    spanFrom fun _ _ => pure (placeless_if hc ha) (congrArg (c.returns ++ ·) (returns_else a).symm)
  refine eaten rfl (fun s₁ s₂ => ?_) (bind (pure rfl rfl) hrest)
  exact bind (Stretch.Hands.some (h Ψ' env s₁ s₂ false hin)) hrest

/-- The returns of a case are those of its statements. -/
theorem hands_switchCase : Ψ.Hands [] env s₁ s₂ (nest n).switchCase (nest n).switchCase := by
  refine here (lead ((alike_nest Ψ n n).inner_caseTest _ _ _) fun test _ _ =>
    lead (Stretch.Follows.expectMark _) fun _ _ _ => ?_)
  refine bind (collectUntil (fun Ψ => inner_atCaseEnd _) fun Ψ s₁ s₂ => h Ψ env s₁ s₂ false hin)
    fun Ψ' body body' s₁ s₂ hbody => ifKind (fun _ => unexpected) (spanFrom fun _ _ => ?_)
  exact pure (placeless_case hbody) (returns_stmts body).symm

/-- The returns of a switch are those of its cases. -/
theorem hands_switchStatement (hk : s₁.token.kind.isPlain) :
    Ψ.Hands [] env s₁ s₂ ((nest n).switchStatement start) ((nest n).switchStatement start') := by
  refine lead (Stretch.Follows.skip hk) fun _ _ _ => ?_
  refine lead ((alike_nest Ψ n n).inner_parenExpression _ _ _) fun discriminant _ _ => ?_
  refine lead (Stretch.Follows.expectMark _) fun _ s₁ s₂ => ?_
  refine bind (withContext (collectUntil (fun Ψ _ _ => Stretch.Follows.eatMark _)
    fun Ψ s₁ s₂ => h.hands_switchCase hin)) fun Ψ' cases cases' s₁ s₂ hcases => spanFrom fun _ _ => ?_
  exact pure (placeless_switch hcases) (returns_cases cases).symm

/-! ## Loops -/

/-- The body of a loop is a statement like any other. -/
theorem hands_loopBody : Ψ.Hands [] env s₁ s₂ (nest n).loopBody (nest n).loopBody :=
  withContext (h Ψ _ s₁ s₂ false hin)

/-- The returns of a loop are those of its body. -/
theorem hands_whileStatement (hk : s₁.token.kind.isPlain) :
    Ψ.Hands [] env s₁ s₂ ((nest n).whileStatement start) ((nest n).whileStatement start') := by
  refine lead (Stretch.Follows.skip hk) fun _ _ _ => ?_
  refine lead ((alike_nest Ψ n n).inner_parenExpression _ _ _) fun _ _ _ => ?_
  refine bind (h.hands_loopBody hin) fun _ _ _ _ _ hbody => ?_
  exact spanFrom fun _ _ => pure (placeless_while hbody) rfl

/-- As `hands_whileStatement`, with the body first. -/
theorem hands_doWhileStatement (hk : s₁.token.kind.isPlain) :
    Ψ.Hands [] env s₁ s₂ ((nest n).doWhileStatement start) ((nest n).doWhileStatement start') := by
  refine lead (Stretch.Follows.skip hk) fun _ _ _ => ?_
  refine bind (h.hands_loopBody hin) fun Ψ' _ _ _ _ hbody => ?_
  refine lead (Stretch.Follows.expectWord _) fun _ _ _ => ?_
  refine lead ((alike_nest Ψ' n n).inner_parenExpression _ _ _) fun _ _ _ => ?_
  refine lead (Stretch.Follows.map (Stretch.Follows.eatMark _) fun _ => rfl) fun _ _ _ => ?_
  exact spanFrom fun _ _ => pure (placeless_doWhile hbody) rfl

/-- As `hands_whileStatement`, after the head of a `for`. -/
theorem hands_forRest (init : Option ForInit) : Ψ.Hands [] env s₁ s₂ ((nest n).forRest start init)
    ((nest n).forRest start' (Ψ.moved init)) := by
  refine lead (Stretch.Follows.expectMark _) fun _ _ _ => ?_
  refine lead ((alike_nest Ψ n n).inner_optionalExpression _ _ _ _) fun _ _ _ => ?_
  refine lead (Stretch.Follows.expectMark _) fun _ _ _ => ?_
  refine lead ((alike_nest Ψ n n).inner_optionalExpression _ _ _ _) fun _ _ _ => ?_
  refine lead (Stretch.Follows.expectMark _) fun _ _ _ => ?_
  exact bind (h.hands_loopBody hin) fun _ _ _ _ _ hbody => spanFrom fun _ _ =>
    pure (placeless_for hbody) rfl

/-- As `hands_forRest`, over the values of something. -/
theorem hands_forOfRest (isAwait : Bool) (init : ForInit) (hk : s₁.token.kind.isPlain) :
    Ψ.Hands [] env s₁ s₂ ((nest n).forOfRest start isAwait init)
      ((nest n).forOfRest start' isAwait (Ψ.moved init)) := by
  refine lead_by (Alike.inner_forTarget init _ _ _) fun _ m₁ _ hrun => ?_
  obtain rfl := leaves_forTarget.of_run hrun
  refine lead (Stretch.Follows.skip hk) fun _ _ _ => ?_
  refine lead (Stretch.Follows.allowIn fun _ => (alike_nest Ψ n n).assignment.inner _ _ _) ?_
  intro right _ _
  refine lead (Stretch.Follows.expectMark _) fun _ _ _ => ?_
  exact bind (h.hands_loopBody hin) fun _ _ _ _ _ hbody => spanFrom fun _ _ =>
    pure (placeless_forOf hbody) rfl

/-- As `hands_forRest`, over the keys of something. -/
theorem hands_forInRest (init : ForInit) (hk : s₁.token.kind.isPlain) :
    Ψ.Hands [] env s₁ s₂ ((nest n).forInRest start init)
      ((nest n).forInRest start' (Ψ.moved init)) := by
  refine lead_by (Alike.inner_forTarget init _ _ _) fun _ m₁ _ hrun => ?_
  obtain rfl := leaves_forTarget.of_run hrun
  refine lead (Stretch.Follows.skip hk) fun _ _ _ => ?_
  refine lead (Stretch.Follows.allowIn fun _ => (alike_nest Ψ n n).inner_expression _ _ _) ?_
  intro right _ _
  refine lead (Stretch.Follows.expectMark _) fun _ _ _ => ?_
  exact bind (h.hands_loopBody hin) fun _ _ _ _ _ hbody => spanFrom fun _ _ =>
    pure (placeless_forIn hbody) rfl

/-- Each of the three forms of a `for` hands on the returns of its body. -/
theorem hands_forStatement (hk : s₁.token.kind.isPlain) :
    Ψ.Hands [] env s₁ s₂ ((nest n).forStatement start) ((nest n).forStatement start') := by
  refine lead (Stretch.Follows.skip hk) fun _ _ _ => lead (inner_eatAwait _ _ _) fun isAwait _ _ =>
    lead (Stretch.Follows.expectMark _) fun _ _ _ => ifKind (fun _ => h.hands_forRest hin none) ?_
  refine lead (Stretch.Follows.withContext ((alike_nest Ψ n n).inner_forInit _ _ _))
    fun init s₁ s₂ => ?_
  refine ifName (fun hk => h.hands_forOfRest hin isAwait init (by rw [hk]; rfl)) ?_
  refine ifKind (fun hk => h.hands_forInRest hin init (by rw [hk]; rfl)) ?_
  exact h.hands_forRest hin (some init)

/-! ## Other statements -/

/-- The returns of a handler are those of its block. -/
theorem hands_catchClause : Ψ.Hands [] env s₁ s₂ (nest n).catchClause (nest n).catchClause := by
  have hrest {start start' : Position} (param : Option Pat) (s₁ s₂ : ParserState) :
      Ψ.Hands [] env s₁ s₂
        (do
          let body ← (nest n).block
          return some (.mk (← Parser.spanFrom start) param body) : Parser (Option CatchClause))
        (do
          let body ← (nest n).block
          return some (.mk (← Parser.spanFrom start') (Ψ.moved param) body)) :=
    bind (h.hands_block hin) fun _ body _ _ _ hbody => spanFrom fun _ _ =>
      pure (congrArg Option.some (placeless_catch hbody)) (List.append_nil body.returns)
  refine here (eaten rfl (fun _ _ => eaten rfl (fun _ _ => ?_) (hrest none _ _)) (pure rfl rfl))
  exact lead ((alike_nest Ψ n n).inner_bindingTarget _ _ _) fun param _ _ =>
    lead (Stretch.Follows.expectMark _) fun _ => hrest (some param)

/-- The returns of a `try` are those of its three blocks, in this order. -/
theorem hands_tryStatement (hk : s₁.token.kind.isPlain) :
    Ψ.Hands [] env s₁ s₂ ((nest n).tryStatement start) ((nest n).tryStatement start') := by
  refine lead (Stretch.Follows.skip hk) fun _ _ _ => bind (h.hands_block hin) fun Ψ b b' _ _ hb =>
    bind (h.hands_catchClause hin) fun Ψ c c' s₁ s₂ hc => ?_
  have hrest (Ψ : Stretch) (f f' : Option Block) (s₁ s₂ : ParserState)
      (hf : placeless f' = placeless (handedOn f)) :
      Ψ.Hands (([] ++ returns b ++ returns c) ++ returns f) env s₁ s₂
        (do
          if c.isNone && f.isNone then Parser.fail (← Parser.here) .tryAlone
          else return .try (← Parser.spanFrom start) b c f : Parser Stmt)
        (do
          if c'.isNone && f'.isNone then Parser.fail (← Parser.here) .tryAlone
          else return .try (← Parser.spanFrom start') b' c' f') := by
    refine ite (by rw [isNone_of_placeless hc, isNone_of_placeless hf]) (fun _ => here fail)
      fun _ => spanFrom fun _ _ => pure (placeless_try hb hc hf) ?_
    rw [returns_catch, returns_finally]
    rfl
  refine eaten rfl (fun s₁ s₂ => ?_) (bind (pure rfl rfl) hrest)
  exact bind (Stretch.Hands.some (h.hands_block hin)) hrest

/-- The returns of a `with` are those of its body. -/
theorem hands_withStatement (hk : s₁.token.kind.isPlain) :
    Ψ.Hands [] env s₁ s₂ ((nest n).withStatement start) ((nest n).withStatement start') := by
  refine lead (Stretch.Follows.skip hk) fun _ _ _ => ?_
  refine lead ((alike_nest Ψ n n).inner_parenExpression _ _ _) fun _ _ _ => ?_
  refine bind (h _ env _ _ false hin) fun _ _ _ _ _ hbody => ?_
  exact spanFrom fun _ _ => pure (placeless_with hbody) rfl

/-- The returns under a label are those of the statement. -/
theorem hands_labeledStatement :
    Ψ.Hands [] env s₁ s₂ ((nest n).labeledStatement start) ((nest n).labeledStatement start') := by
  refine lead Stretch.Follows.ident fun label _ _ => read (ite Iff.rfl (fun _ => fail) fun _ => ?_)
  exact lead (Stretch.Follows.expectMark _) fun _ _ _ => bind (withLabel (h _ _ _ _ false hin))
    fun _ _ _ _ _ hbody => spanFrom fun _ _ => pure (placeless_labeled hbody) rfl

/-! ## All of them -/

/-- A statement that starts with a name has returns only under a label. -/
theorem hands_statementAtName (hk : s₁.token.kind = .identifier)
    (hstart : start' = Ψ.places.shift start) :
    Ψ.Hands [] env s₁ s₂ ((nest n).statementAtName start) ((nest n).statementAtName start') := by
  have hplain : s₁.token.kind.isPlain := by rw [hk]; rfl
  refine lead_by (inner_atLetDeclaration _ _ _) fun isLet m _ hrun => ?_
  obtain rfl := stays_atLetDeclaration _ _ _ _ hrun
  refine ite Iff.rfl (fun _ => hands_varStatement hstart hplain) fun _ => ?_
  refine lead_by (inner_atAsyncFunction _ _ _) fun isAsync m _ hrun => ?_
  obtain rfl := stays_atAsyncFunction _ _ _ _ hrun
  refine ite Iff.rfl (fun _ => lead (Stretch.Follows.skip hplain) fun _ _ _ => ?_) fun _ => ?_
  · exact hands_functionStatement hstart true
  refine lead (follows_peek (by rw [hk]; rfl)) fun t _ _ => ite Iff.rfl (fun _ => ?_) fun _ => ?_
  · exact h.hands_labeledStatement hin
  · exact hands_expressionStatement hstart

/-- What a keyword starts hands on its returns, and `return` is one. -/
theorem hands_statementAtWord (isTopLevel : Bool) (word : Keyword)
    (hk : s₁.token.kind = .keyword word) (place : start = s₁.here)
    (hstart : start' = Ψ.places.shift start) :
    Ψ.Hands [] env s₁ s₂ ((nest n).statementAtWord start isTopLevel word)
      ((nest n).statementAtWord start' isTopLevel word) := by
  have hplain : s₁.token.kind.isPlain := by rw [hk]; rfl
  unfold statementAtWord
  split
  case h_1 | h_2 => exact hands_varStatement hstart hplain
  case h_3 => exact hands_functionStatement hstart false
  case h_4 =>
    exact inner (Stretch.Follows.pass (((alike_nest Ψ n n).outer_classDefinition true).inner _ _ _)
      fun _ _ _ => Stretch.Follows.done rfl) (.after fun _ => .pure rfl)
  case h_5 => exact h.hands_ifStatement hin hplain
  case h_6 => exact h.hands_forStatement hin hplain
  case h_7 => exact h.hands_whileStatement hin hplain
  case h_8 => exact h.hands_doWhileStatement hin hplain
  case h_9 => exact h.hands_switchStatement hin hplain
  case h_10 => exact h.hands_tryStatement hin hplain
  case h_11 => exact place ▸ Ψ.hands_returnStatement n hin hk start'
  case h_12 =>
    exact inner ((alike_nest Ψ n n).follows_throwStatement hstart hplain) (.after fun _ => .after
      fun _ => .ite (.after fun _ => .fail _ _)
        (.after fun _ => .after fun _ => .after fun _ => .pure rfl))
  case h_13 | h_14 =>
    exact inner (follows_jumpStatement hstart _ hplain)
      (.after fun _ => .after fun _ => .after fun _ => .after fun _ => .after fun _ => .pure rfl)
  case h_15 =>
    exact inner (follows_debuggerStatement hstart hplain)
      (.after fun _ => .after fun _ => .after fun _ => .pure rfl)
  case h_16 => exact h.hands_withStatement hin hplain
  case h_17 => exact hands_statementAtImport hstart isTopLevel hk
  case h_18 =>
    refine lead (inner_checkModulePosition isTopLevel _ _ _) fun _ _ _ => ?_
    exact inner (Stretch.Follows.pass ((alike_nest Ψ n n).inner_exportDeclaration _ _ _)
      fun _ _ _ => Stretch.Follows.done rfl) (.after fun _ => .pure rfl)
  case h_19 => exact hands_expressionStatement hstart

/-- Whatever a statement starts with, it hands on its returns. -/
theorem hands_statementBody (isTopLevel : Bool) :
    Ψ.Hands [] env s₁ s₂ ((nest n).statementBody isTopLevel) ((nest n).statementBody isTopLevel) := by
  refine here (kind ?_)
  split
  next => exact map (h.hands_block hin) (fun _ _ => placeless_blockStatement) fun _ => rfl
  next hk =>
    exact inner (Stretch.Follows.take (Stretch.Follows.bump (by rw [hk]; rfl)) fun _ _ _ =>
      Stretch.Follows.done rfl) (.after fun _ => .pure rfl)
  next hk => exact h.hands_statementAtName hin hk rfl
  next word hk => exact h.hands_statementAtWord hin isTopLevel word hk rfl rfl
  next => exact hands_expressionStatement rfl

end

end HandsOn

/-- The grammars of all levels of nesting hand on what is returned. -/
theorem hands_nest : ∀ n, (nest n).HandsOn
  | 0 => fun _ _ _ _ _ _ _ _ _ hrun => by cases hrun
  | n + 1 => fun _ _ _ _ isTopLevel hin => (hands_nest n).hands_statementBody hin isTopLevel

end Grammar

end WithScope
