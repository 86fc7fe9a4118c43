import WithScope.Proofs.Grammar.AlikeOperation

/-!
# Statements read a copy alike

The productions of statements, imports and exports, and with them the grammars of all levels of
nesting: `alike_nest`.
-/

namespace WithScope

open Stretch.Follows

namespace Grammar

variable {Ψ : Stretch}

/-! ## Imports and exports -/

/-- The text that names a module is one token, and so is its copy. -/
theorem inner_moduleSource : Ψ.Inner moduleSource moduleSource :=
  fun _ _ _ => take (expectKind rfl) fun _ _ _ => done rfl

/-- A name of an export is one token, quoted on both sides or on neither. -/
theorem inner_moduleName : Ψ.Inner moduleName moduleName := by
  intro env s₁ s₂
  refine ifKind (fun _ => pass (inner_moduleSource _ _ _) fun _ _ _ => done rfl) fun _ => ?_
  exact take identName fun _ _ _ => done rfl

/-- An entry of a `with` clause and its copy. -/
theorem inner_importAttribute : Ψ.Inner importAttribute importAttribute := by
  intro env s₁ s₂
  exact here (pass (inner_moduleName _ _ _) fun _ _ _ => take (expectMark _) fun _ _ _ =>
    pass (inner_moduleSource _ _ _) fun _ _ _ => spanFrom rfl (done rfl))

/-- A list in braces. -/
theorem inner_commaSeparated {α : Type} [Relocatable α] {close : Punctuator} {p q : Parser α}
    (hp : Ψ.Inner p q) :
    Ψ.Inner (Parser.commaSeparated close p) (Parser.commaSeparated close q) :=
  fun env _ _ => collectUntil (fun _ _ => eatMark _) fun s₁ s₂ => itemAndComma (hp env s₁ s₂)

/-- The `with` clause of an import, as what stands before it decides. -/
theorem importAttributes_eq : importAttributes = (do
    let clause : Parser (List ImportAttribute) := do
      discard Parser.bump
      Parser.expectMark .leftBrace
      Parser.commaSeparated .rightBrace importAttribute
    if ← Parser.atKind (.keyword .with) then clause
    else if ← Parser.atName "assert" then
      if ← Parser.afterNewline then return [] else clause
    else return []) := by
  show (atImportAttributes >>= fun b => if b = true then _ else _) = _
  rw [atImportAttributes, bind_assoc]
  refine congrArg (_ >>= ·) (funext fun isWith => ?_)
  cases isWith with
  | true => rfl
  | false =>
    simp only [Bool.false_eq_true, if_false, bind_assoc]
    refine congrArg (_ >>= ·) (funext fun isAssert => ?_)
    cases isAssert with
    | false => rfl
    | true =>
      simp only [if_true, bind_assoc, pure_bind]
      refine congrArg (_ >>= ·) (funext fun newline => ?_)
      cases newline <;> rfl

/-- Whether there is a `with` clause is decided by the same tokens on the same lines. -/
theorem inner_importAttributes : Ψ.Inner importAttributes importAttributes := by
  intro env s₁ s₂
  have hclause (hk : s₁.token.kind.isPlain) : Ψ.Follows .clear Ψ.Same false env s₁ s₂
      (do
        discard Parser.bump
        Parser.expectMark .leftBrace
        Parser.commaSeparated .rightBrace importAttribute)
      (do
        discard Parser.bump
        Parser.expectMark .leftBrace
        Parser.commaSeparated .rightBrace importAttribute) :=
    take (skip hk) fun _ _ _ => take (expectMark _) fun _ _ _ =>
      inner_commaSeparated inner_importAttribute _ _ _
  rw [importAttributes_eq]
  refine ifKind (fun hk => hclause (by rw [hk]; rfl)) fun _ => ifName (fun hk => ?_) (done rfl)
  exact ifNewline (done rfl) (hclause (by rw [hk]; rfl))

/-- A name that is missing after `as` is missing in the copy. -/
theorem inner_importedName (isName : Bool) (name : ModuleName) :
    Ψ.Inner (importedName isName name) (importedName isName (Ψ.moved name)) := by
  intro env s₁ s₂
  cases name with
  | ident id => exact ite Iff.rfl (fun _ => done rfl) fun _ => fail
  | string lit => exact fail

/-- An entry of an import, renamed on both sides or on neither. -/
theorem inner_namedImport : Ψ.Inner namedImport namedImport := by
  intro env s₁ s₂
  refine here (pass (atKind _) fun isName _ _ => pass (inner_moduleName _ _ _) fun imported s₁ s₂ => ?_)
  refine ifName (fun hk => ?_) ?_
  · exact take (skip (by rw [hk]; rfl)) fun _ _ _ => take ident fun _ _ _ => spanFrom rfl (done rfl)
  · exact pass (inner_importedName isName imported _ _ _) fun _ _ _ => spanFrom rfl (done rfl)

/-- A star or a brace begins what an import binds, in the copy as well. -/
theorem inner_importSpecifiers : Ψ.Inner importSpecifiers importSpecifiers := by
  intro env s₁ s₂
  refine ifKind (fun hk => here (take (skip (by rw [hk]; rfl)) fun _ _ _ => ?_)) fun _ => ?_
  · exact take (expectName _) fun _ _ _ => take ident fun _ _ _ => spanFrom rfl (done rfl)
  · exact take (expectMark _) fun _ _ _ => inner_commaSeparated inner_namedImport _ _ _

/-- A default name is followed by others on both sides or on neither. -/
theorem inner_importClause : Ψ.Inner importClause importClause := by
  intro env s₁ s₂
  have hfrom (specifiers : List ImportSpecifier) (s₁ s₂ : ParserState) :
      Ψ.Follows .clear Ψ.Same false env s₁ s₂
        (do
          Parser.expectName "from"
          return specifiers)
        (do
          Parser.expectName "from"
          return Ψ.moved specifiers) :=
    take (expectName _) fun _ _ _ => done rfl
  refine ifKind (fun _ => take ident fun id _ _ => eaten rfl (fun _ _ => ?_) fun _ => ?_) fun _ => ?_
  · exact pass (inner_importSpecifiers _ _ _) fun others => hfrom (.default id.loc id :: others)
  · exact hfrom [.default id.loc id] _ _
  · exact pass (inner_importSpecifiers _ _ _) hfrom

/-- An import in the stretch has an import for its copy. -/
theorem inner_importDeclaration : Ψ.Inner importDeclaration importDeclaration := by
  intro env s₁ s₂
  have hrest {start : Position} (specifiers : List ImportSpecifier) (s₁ s₂ : ParserState) :
      Ψ.Follows .clear Ψ.Same false env s₁ s₂
        (do
          let source ← moduleSource
          let attributes ← importAttributes
          Parser.semicolon
          return .importFrom (← Parser.spanFrom start) specifiers source attributes : Parser ModuleDecl)
        (do
          let source ← moduleSource
          let attributes ← importAttributes
          Parser.semicolon
          return .importFrom (← Parser.spanFrom (Ψ.places.shift start)) (Ψ.moved specifiers) source
            attributes) :=
    pass (inner_moduleSource _ _ _) fun _ _ _ => pass (inner_importAttributes _ _ _) fun _ _ _ =>
      pass semicolon fun _ _ _ => spanFrom rfl (done rfl)
  refine here (take (expectWord _) fun _ _ _ => ifKind (fun _ => hrest [] _ _) fun _ => ?_)
  exact pass (inner_importClause _ _ _) hrest

/-- An entry of an export list, renamed on both sides or on neither. -/
theorem inner_exportSpecifier : Ψ.Inner exportSpecifier exportSpecifier := by
  intro env s₁ s₂
  refine here (pass (inner_moduleName _ _ _) fun localName s₁ s₂ => ifName (fun hk => ?_) ?_)
  · exact take (skip (by rw [hk]; rfl)) fun _ _ _ => pass (inner_moduleName _ _ _) fun _ _ _ =>
      spanFrom rfl (done rfl)
  · exact pass (done rfl) fun _ _ _ => spanFrom rfl (done rfl)

section

variable {start start' : Position} (hstart : start' = Ψ.places.shift start)
include hstart

/-- The place where the export begins has been moved with it. -/
theorem inner_exportAll : Ψ.Inner (exportAll start) (exportAll start') := by
  intro env s₁ s₂
  have hrest (exported : Option ModuleName) (s₁ s₂ : ParserState) :
      Ψ.Follows .clear Ψ.Same false env s₁ s₂
        (do
          Parser.expectName "from"
          let source ← moduleSource
          let attributes ← importAttributes
          Parser.semicolon
          return .exportAll (← Parser.spanFrom start) exported source attributes : Parser ModuleDecl)
        (do
          Parser.expectName "from"
          let source ← moduleSource
          let attributes ← importAttributes
          Parser.semicolon
          return .exportAll (← Parser.spanFrom start') (Ψ.moved exported) source attributes) :=
    take (expectName _) fun _ _ _ => pass (inner_moduleSource _ _ _) fun _ _ _ =>
      pass (inner_importAttributes _ _ _) fun _ _ _ => pass semicolon fun _ _ _ =>
      spanFrom hstart (done rfl)
  refine ifName (fun hk => take (skip (by rw [hk]; rfl)) fun _ _ _ => ?_) (hrest none _ _)
  exact pass (map (inner_moduleName _ _ _) fun _ => rfl) hrest

/-- Entries and source of an export list, from its opening brace on. -/
theorem inner_exportList : Ψ.Inner (exportList start) (exportList start') := by
  intro env s₁ s₂
  refine pass (inner_commaSeparated inner_exportSpecifier _ _ _) fun specifiers s₁ s₂ => ?_
  refine ifName (fun hk => take (skip (by rw [hk]; rfl)) fun _ _ _ => ?_) ?_
  · exact pass (inner_moduleSource _ _ _) fun _ _ _ => pass (inner_importAttributes _ _ _)
      fun _ _ _ => pass semicolon fun _ _ _ => spanFrom hstart (done rfl)
  · exact pass semicolon fun _ _ _ => spanFrom hstart (done rfl)

omit hstart in
/-- Where a module declaration may stand is no matter of its place. -/
theorem inner_checkModulePosition (isTopLevel : Bool) :
    Ψ.Inner (checkModulePosition start isTopLevel) (checkModulePosition start' isTopLevel) := by
  intro env s₁ s₂
  exact read (ite Iff.rfl (fun _ => done rfl) fun _ => ite Iff.rfl (fun _ => fail) fun _ =>
    ite Iff.rfl (fun _ => fail) fun _ => done rfl)

end

/-! ## Checks -/

/-- What a declaration binds is the same names wherever it stands. -/
theorem run_checkLexicalNames (kind : VarKind) (id : Pat) (env : Surrounding) (s₁ s₂ : ParserState) :
    (checkLexicalNames kind id env s₁ = .ok ((), s₁) ∧
      checkLexicalNames kind (Ψ.moved id) env s₂ = .ok ((), s₂)) ∨
    ∃ e, checkLexicalNames kind id env s₁ = .error e := by
  have hfind : (Ψ.moved id).find? "let" = (id.find? "let").map Ψ.places.shift :=
    Pat.find?_relocated "let" id
  unfold checkLexicalNames
  rw [hfind]
  cases kind.isLexical with
  | false => exact .inl ⟨rfl, rfl⟩
  | true =>
    cases id.find? "let" with
    | none => exact .inl ⟨rfl, rfl⟩
    | some place => exact .inr ⟨_, rfl⟩

/-- What a jump is checked for, by whether its label is known. -/
theorem checkJump_eq (start : Position) (isBreak : Bool) (label : Option Ident) :
    checkJump start isBreak label = (do
      let surrounding ← MonadReader.read
      (label.filter fun label => !surrounding.labels.contains label.name).elim
        (if surrounding.context.inLoop then pure ()
          else if !isBreak then Parser.fail start .continueOutsideLoop
          else if label.isNone && !surrounding.context.inSwitch then
            Parser.fail start .breakOutsideLoop
          else pure ())
        fun label => Parser.fail label.loc.start (.undefinedLabel label.name)) := by
  rw [checkJump]
  refine congrArg (MonadReader.read >>= ·) (funext fun surrounding => ?_)
  cases label.filter fun label => !surrounding.labels.contains label.name <;> rfl

/-- A jump has the same thing to jump to wherever it stands. -/
theorem run_checkJump (start start' : Position) (isBreak : Bool) (label : Option Ident)
    (env : Surrounding) (s₁ s₂ : ParserState) :
    (checkJump start isBreak label env s₁ = .ok ((), s₁) ∧
      checkJump start' isBreak (Ψ.moved label) env s₂ = .ok ((), s₂)) ∨
    ∃ e, checkJump start isBreak label env s₁ = .error e := by
  have hfilter : (Ψ.moved label).filter (fun label => !env.labels.contains label.name) =
      Ψ.moved (label.filter fun label => !env.labels.contains label.name) := by
    cases label with
    | none => rfl
    | some id =>
      show (if (!env.labels.contains id.name) = true then _ else _) =
        Ψ.moved (if (!env.labels.contains id.name) = true then _ else _)
      split <;> rfl
  have hrun (start : Position) (label : Option Ident) (s : ParserState) :
      checkJump start isBreak label env s =
        ((label.filter fun label => !env.labels.contains label.name).elim
          (if env.context.inLoop then pure ()
            else if !isBreak then Parser.fail start .continueOutsideLoop
            else if label.isNone && !env.context.inSwitch then Parser.fail start .breakOutsideLoop
            else pure ())
          fun label => Parser.fail label.loc.start (.undefinedLabel label.name) : Parser Unit) env s := by
    rw [checkJump_eq]
    rfl
  have hnone : (Ψ.moved label).isNone = label.isNone := by cases label <;> rfl
  rw [hrun, hrun, hfilter, hnone]
  cases label.filter fun label => !env.labels.contains label.name with
  | some label => exact .inr ⟨_, rfl⟩
  | none =>
    simp only [Stretch.moved]
    split
    · exact .inl ⟨rfl, rfl⟩
    split
    · exact .inr ⟨_, rfl⟩
    split
    · exact .inr ⟨_, rfl⟩
    · exact .inl ⟨rfl, rfl⟩

/-- A label on the line of its jump is on the line of the copy. -/
theorem inner_jumpLabel : Ψ.Inner jumpLabel jumpLabel := by
  intro env s₁ s₂
  refine ifKind (fun _ => ifNewline (done rfl) ?_) fun _ => done rfl
  exact take ident fun _ _ _ => done rfl

/-- The word of a declaration and its copy are of one kind. -/
theorem follows_varKind {env : Surrounding} {s₁ s₂ : ParserState} (hk : s₁.token.kind.isPlain) :
    Ψ.Follows .clear Ψ.Same true env s₁ s₂ varKind varKind := by
  refine take (bump hk) fun t _ _ => ?_
  rw [show (Ψ.moved t).kind = t.kind from rfl]
  split <;> exact done rfl

/-- A clause ends at the same tokens on both sides. -/
theorem inner_atCaseEnd : Ψ.Inner atCaseEnd atCaseEnd := by
  intro env s₁ s₂
  refine kind ?_
  split <;> exact done rfl

/-- The keyword of a declaration, or `let` before a name. -/
theorem atVarDecl_bind {α : Type} (p q : Parser α) :
    (atVarDecl >>= fun b => if b = true then p else q) = (do
      match ← Parser.kind with
      | .keyword .var | .keyword .const => p
      | _ => if ← atLetDeclaration then p else q) := by
  rw [atVarDecl, bind_assoc]
  refine congrArg (_ >>= ·) (funext fun k => ?_)
  cases k with
  | keyword word => cases word <;> rfl
  | _ => rfl

/-- Whether something can be assigned to is no matter of what follows it. -/
theorem leaves_forTarget {init : ForInit} {env : Surrounding} {s : ParserState} :
    Parser.Leaves env s (forTarget init) fun _ s' => s' = s := by
  cases init with
  | decl d =>
    obtain ⟨loc, kind, declarators⟩ := d
    match declarators with
    | [] => exact .fail _ _
    | [declarator] => exact .pure rfl
    | _ :: _ :: _ => exact .fail _ _
  | expr e => exact .ofExcept fun _ _ => .pure rfl

/-- The contexts agree on whether `await` is an operator. -/
theorem inner_eatAwait : Ψ.Inner eatAwait eatAwait := by
  intro env s₁ s₂
  refine context (token (ite Iff.rfl (fun hawait => ?_) fun _ => done rfl))
  have hk := Token.kind_of_isIdentifier (Bool.and_eq_true_iff.1 hawait).2
  exact take (skip (by rw [hk]; rfl)) fun _ _ _ => done rfl

/-- The word is passed, and the semicolon unless it is left out on both sides. -/
theorem follows_debuggerStatement {start start' : Position} (hstart : start' = Ψ.places.shift start)
    {env : Surrounding} {s₁ s₂ : ParserState} (hk : s₁.token.kind.isPlain) :
    Ψ.Follows .clear Ψ.Same false env s₁ s₂ (debuggerStatement start) (debuggerStatement start') :=
  take (skip hk) fun _ _ _ => pass semicolon fun _ _ _ => spanFrom hstart (done rfl)

/-- A jump is legal by the labels and the context, which are those of the copy. -/
theorem follows_jumpStatement {start start' : Position} (hstart : start' = Ψ.places.shift start)
    (isBreak : Bool) {env : Surrounding} {s₁ s₂ : ParserState} (hk : s₁.token.kind.isPlain) :
    Ψ.Follows .clear Ψ.Same false env s₁ s₂ (jumpStatement start isBreak)
      (jumpStatement start' isBreak) :=
  take (skip hk) fun _ _ _ => pass (inner_jumpLabel _ _ _) fun label _ _ =>
    check (run_checkJump ..) (pass semicolon fun _ _ _ =>
      spanFrom hstart (done (by cases isBreak <;> rfl)))

namespace Alike

variable {g g' : Grammar} (h : Alike Ψ g g')
include h

/-- Inside of brackets a sequence goes on past each comma, as its copy does. -/
theorem inner_expression : Ψ.Inner g.expression g'.expression := h.outer_expression.inner

/-- A block ends at its brace, so nothing behind the stretch is looked at. -/
theorem inner_block : Ψ.Inner g.block g'.block := h.outer_block.inner

/-- An expression of a statement ends at its parenthesis. -/
theorem inner_parenExpression : Ψ.Inner g.parenExpression g'.parenExpression := by
  intro env s₁ s₂
  exact take (expectMark _) fun _ _ _ => pass (allowIn fun _ => h.inner_expression _ _ _)
    fun _ _ _ => take (expectMark _) fun _ _ _ => done rfl

/-! ## Declarations -/

/-- A name that must not be declared is refused in the copy, too. -/
theorem inner_declarator (kind : VarKind) : Ψ.Inner (g.declarator kind) (g'.declarator kind) := by
  intro env s₁ s₂
  refine here (pass (h.inner_bindingTarget _ _ _) fun id s₁ s₂ => check (run_checkLexicalNames ..) ?_)
  refine eaten rfl (fun _ _ => ?_) fun _ => pass (done rfl) fun value _ _ => spanFrom rfl (done (by simp))
  exact pass (map (h.assignment.inner _ _ _) fun _ => rfl) fun value _ _ => spanFrom rfl (done (by simp))

/-- The word of a declaration is passed, so the rest of it is inside of the stretch. -/
theorem follows_varDecl {env : Surrounding} {s₁ s₂ : ParserState} (hk : s₁.token.kind.isPlain) :
    Ψ.Follows .clear Ψ.Same false env s₁ s₂ g.varDecl g'.varDecl := by
  refine here (take (follows_varKind hk) fun kind _ _ => pass (h.inner_declarator kind _ _ _) ?_)
  exact fun _ _ _ => pass (afterCommas (h.inner_declarator kind _)) fun _ _ _ =>
    spanFrom rfl (done (by simp))

section

variable {start start' : Position} (hstart : start' = Ψ.places.shift start)
  {env : Surrounding} {s₁ s₂ : ParserState}
include hstart

/-- A declaration with the end of its statement. -/
theorem follows_varStatement (hk : s₁.token.kind.isPlain) :
    Ψ.Follows .clear Ψ.Same false env s₁ s₂ (g.varStatement start) (g'.varStatement start') := by
  refine pass (h.follows_varDecl hk) fun declaration _ _ => ?_
  obtain ⟨_, kind, declarators⟩ := declaration
  exact pass semicolon fun _ _ _ => spanFrom hstart (done (by simp))

/-! ## Choices -/

/-- A branch after `else` is there on both sides or on neither. -/
theorem follows_ifStatement (hk : s₁.token.kind.isPlain) :
    Ψ.Follows .clear Ψ.Same false env s₁ s₂ (g.ifStatement start) (g'.ifStatement start') := by
  refine take (skip hk) fun _ _ _ => pass (h.inner_parenExpression _ _ _) fun _ _ _ => ?_
  refine pass (h.statement false _ _ _) fun _ _ _ => eaten rfl (fun _ _ => ?_) fun _ => ?_
  · exact pass (map (h.statement false _ _ _) fun _ => rfl) fun _ _ _ =>
      spanFrom hstart (done (by simp))
  · exact pass (done rfl) fun _ _ _ => spanFrom hstart (done (by simp))

end

/-- One word decides whether a clause has a test. -/
theorem inner_caseTest : Ψ.Inner g.caseTest g'.caseTest := by
  intro env s₁ s₂
  refine eaten rfl (fun _ _ => ?_) fun _ => take (expectWord _) fun _ _ _ => done rfl
  exact pass (allowIn fun _ => h.inner_expression _ _ _) fun _ _ _ => done rfl

/-- The statements of a clause are collected up to the same token. -/
theorem inner_switchCase : Ψ.Inner g.switchCase g'.switchCase := by
  intro env s₁ s₂
  refine here (pass (h.inner_caseTest _ _ _) fun test _ _ => take (expectMark _) fun _ _ _ => ?_)
  refine pass (collectUntil (inner_atCaseEnd _) (h.statement false _)) fun consequent _ _ => ?_
  exact ifKind (fun _ => unexpected) fun _ => spanFrom rfl (done (by simp))

/-! ## Loops -/

/-- The body of a loop is followed in the context of a loop. -/
theorem inner_loopBody : Ψ.Inner g.loopBody g'.loopBody :=
  fun _ _ _ => withContext (h.statement false _ _ _)

/-- An expression that is left out is left out in the copy. -/
theorem inner_optionalExpression (mark : Punctuator) :
    Ψ.Inner (g.optionalExpression mark) (g'.optionalExpression mark) := by
  intro env s₁ s₂
  refine ifKind (fun _ => done rfl) fun _ => ?_
  exact pass (allowIn fun _ => h.inner_expression _ _ _) fun _ _ _ => done rfl

omit h in
/-- What a loop assigns to is the same wherever its head stands. -/
theorem inner_forTarget (init : ForInit) : Ψ.Inner (forTarget init) (forTarget (Ψ.moved init)) := by
  intro env s₁ s₂
  cases init with
  | decl d =>
    obtain ⟨loc, kind, declarators⟩ := d
    match declarators with
    | [] => exact fail
    | [declarator] => exact done (by simp)
    | _ :: _ :: _ => exact fail
  | expr e =>
    exact ofExcept (e.toPattern_relocated Ψ.places.shift_injective false) fun _ => done rfl

section

variable {start start' : Position} (hstart : start' = Ψ.places.shift start)
  {env : Surrounding} {s₁ s₂ : ParserState}
include hstart

/-- The clauses of a `switch` are collected up to its brace. -/
theorem follows_switchStatement (hk : s₁.token.kind.isPlain) :
    Ψ.Follows .clear Ψ.Same false env s₁ s₂ (g.switchStatement start)
      (g'.switchStatement start') := by
  refine take (skip hk) fun _ _ _ => pass (h.inner_parenExpression _ _ _) fun _ _ _ => ?_
  refine take (expectMark _) fun _ _ _ => pass (withContext ?_) fun _ _ _ =>
    spanFrom hstart (done (by simp))
  exact collectUntil (fun _ _ => eatMark _) (h.inner_switchCase _)

/-- The test in parentheses and the body. -/
theorem follows_whileStatement (hk : s₁.token.kind.isPlain) :
    Ψ.Follows .clear Ψ.Same false env s₁ s₂ (g.whileStatement start) (g'.whileStatement start') :=
  take (skip hk) fun _ _ _ => pass (h.inner_parenExpression _ _ _) fun _ _ _ =>
    pass (h.inner_loopBody _ _ _) fun _ _ _ => spanFrom hstart (done (by simp))

/-- The body comes first, and a semicolon at the end may be passed. -/
theorem follows_doWhileStatement (hk : s₁.token.kind.isPlain) :
    Ψ.Follows .clear Ψ.Same false env s₁ s₂ (g.doWhileStatement start)
      (g'.doWhileStatement start') := by
  refine take (skip hk) fun _ _ _ => ?_
  refine pass (h.inner_loopBody _ _ _) fun _ _ _ => take (expectWord _) fun _ _ _ => ?_
  refine pass (h.inner_parenExpression _ _ _) fun _ _ _ => ?_
  exact pass (map (eatMark _) fun _ => rfl) fun _ _ _ => spanFrom hstart (done (by simp))

/-- A loop with semicolons, from the first of them on. -/
theorem inner_forRest (init : Option ForInit) :
    Ψ.Inner (g.forRest start init) (g'.forRest start' (Ψ.moved init)) := by
  intro env s₁ s₂
  refine take (expectMark _) fun _ _ _ => pass (h.inner_optionalExpression _ _ _ _) fun _ _ _ => ?_
  refine take (expectMark _) fun _ _ _ => pass (h.inner_optionalExpression _ _ _ _) fun _ _ _ => ?_
  exact take (expectMark _) fun _ _ _ => pass (h.inner_loopBody _ _ _) fun _ _ _ =>
    spanFrom hstart (done (by simp))

/-- What the loop begins with is turned into a target on both sides, or on neither. -/
theorem follows_forOfRest (isAwait : Bool) (init : ForInit) (hk : s₁.token.kind.isPlain) :
    Ψ.Follows .clear Ψ.Same false env s₁ s₂ (g.forOfRest start isAwait init)
      (g'.forOfRest start' isAwait (Ψ.moved init)) := by
  refine bind_by (t := false) (u := false) (Int.zero_add 0) (inner_forTarget init _ _ _)
    fun _ m₁ _ hrun => ?_
  obtain rfl := leaves_forTarget.of_run hrun
  refine take (skip hk) fun _ _ _ => pass (allowIn fun _ => h.assignment.inner _ _ _) fun _ _ _ => ?_
  exact take (expectMark _) fun _ _ _ => pass (h.inner_loopBody _ _ _) fun _ _ _ =>
    spanFrom hstart (done (by simp))

/-- As `follows_forOfRest`, with commas in what is looped over. -/
theorem follows_forInRest (init : ForInit) (hk : s₁.token.kind.isPlain) :
    Ψ.Follows .clear Ψ.Same false env s₁ s₂ (g.forInRest start init)
      (g'.forInRest start' (Ψ.moved init)) := by
  refine bind_by (t := false) (u := false) (Int.zero_add 0) (inner_forTarget init _ _ _)
    fun _ m₁ _ hrun => ?_
  obtain rfl := leaves_forTarget.of_run hrun
  refine take (skip hk) fun _ _ _ => pass (allowIn fun _ => h.inner_expression _ _ _) fun _ _ _ => ?_
  exact take (expectMark _) fun _ _ _ => pass (h.inner_loopBody _ _ _) fun _ _ _ =>
    spanFrom hstart (done (by simp))

end

/-- A declaration or an expression, as the same tokens say. -/
theorem inner_forInit : Ψ.Inner g.forInit g'.forInit := by
  intro env s₁ s₂
  have hdecl (hk : s₁.token.kind.isPlain) : Ψ.Follows .clear Ψ.Same false env s₁ s₂
      (do return .decl (← g.varDecl) : Parser ForInit) (do return .decl (← g'.varDecl)) :=
    pass (h.follows_varDecl hk) fun _ _ _ => done rfl
  rw [forInit, forInit, atVarDecl_bind, atVarDecl_bind]
  refine kind ?_
  split
  next hk => exact hdecl (by rw [hk]; rfl)
  next hk => exact hdecl (by rw [hk]; rfl)
  next =>
    refine follows_ahead (fun _ => rfl) (fun hk => hdecl (by rw [hk]; rfl)) ?_
    exact pass (h.inner_expression _ _ _) fun _ _ _ => done rfl

section

variable {start start' : Position} (hstart : start' = Ψ.places.shift start)
  {env : Surrounding} {s₁ s₂ : ParserState}
include hstart

/-- The token after the beginning of a loop decides which sort of loop it is. -/
theorem follows_forStatement (hk : s₁.token.kind.isPlain) :
    Ψ.Follows .clear Ψ.Same false env s₁ s₂ (g.forStatement start) (g'.forStatement start') := by
  refine take (skip hk) fun _ _ _ => pass (inner_eatAwait _ _ _) fun isAwait _ _ => ?_
  refine take (expectMark _) fun _ _ _ => ifKind (fun _ => h.inner_forRest hstart none _ _ _) fun _ => ?_
  refine pass (withContext (h.inner_forInit _ _ _)) fun init s₁ s₂ => ?_
  refine ifName (fun hk => h.follows_forOfRest hstart isAwait init (by rw [hk]; rfl)) ?_
  refine ifKind (fun hk => h.follows_forInRest hstart init (by rw [hk]; rfl)) fun _ => ?_
  exact h.inner_forRest hstart (some init) _ _ _

/-! ## Jumps -/

/-- Where `return` is not allowed, it is allowed in the copy just as little. -/
theorem follows_returnStatement (hk : s₁.token.kind.isPlain) :
    Ψ.Follows .clear Ψ.Same false env s₁ s₂ (g.returnStatement start)
      (g'.returnStatement start') := by
  have hrest (argument : Option Expr) (s₁ s₂ : ParserState) : Ψ.Follows .clear Ψ.Same false env s₁ s₂
      (do
        Parser.semicolon
        return .return (← Parser.spanFrom start) argument : Parser Stmt)
      (do
        Parser.semicolon
        return .return (← Parser.spanFrom start') (Ψ.moved argument)) :=
    pass semicolon fun _ _ _ => spanFrom hstart (done (by simp))
  refine read (ite Iff.rfl (fun _ => fail) fun _ => take (skip hk) fun _ _ _ => ?_)
  refine pass atStatementEnd fun ends s₁ s₂ => ite Iff.rfl (fun _ => hrest none _ _) fun _ => ?_
  exact pass (map (h.inner_expression _ _ _) fun _ => rfl) hrest

/-- The argument of a `throw` is on its line on both sides. -/
theorem follows_throwStatement (hk : s₁.token.kind.isPlain) :
    Ψ.Follows .clear Ψ.Same false env s₁ s₂ (g.throwStatement start)
      (g'.throwStatement start') := by
  refine take (skip hk) fun _ _ _ => ifNewline (here fail) ?_
  exact pass (h.inner_expression _ _ _) fun _ _ _ => pass semicolon fun _ _ _ =>
    spanFrom hstart (done rfl)

end

/-! ## Other statements -/

/-- A clause may be missing, and its parameter as well. -/
theorem inner_catchClause : Ψ.Inner g.catchClause g'.catchClause := by
  intro env s₁ s₂
  have hrest {start start' : Position} (hstart : start' = Ψ.places.shift start) (param : Option Pat)
      (s₁ s₂ : ParserState) : Ψ.Follows .clear Ψ.Same false env s₁ s₂
      (do
        let body ← g.block
        return some (.mk (← Parser.spanFrom start) param body) : Parser (Option CatchClause))
      (do
        let body ← g'.block
        return some (.mk (← Parser.spanFrom start') (Ψ.moved param) body)) :=
    pass (h.inner_block _ _ _) fun _ _ _ => spanFrom hstart (done (by cases param <;> simp))
  refine here (eaten rfl (fun _ _ => eaten rfl (fun _ _ => ?_) fun _ => ?_) fun _ => done rfl)
  · exact pass (h.inner_bindingTarget _ _ _) fun param _ _ => take (expectMark _) fun _ _ _ =>
      hrest rfl (some param) _ _
  · exact hrest rfl none _ _

section

variable {start start' : Position} (hstart : start' = Ψ.places.shift start)
  {env : Surrounding} {s₁ s₂ : ParserState}
include hstart

/-- A `try` without clauses is refused on both sides. -/
theorem follows_tryStatement (hk : s₁.token.kind.isPlain) :
    Ψ.Follows .clear Ψ.Same false env s₁ s₂ (g.tryStatement start) (g'.tryStatement start') := by
  have hrest (body : Block) (handler : Option CatchClause) (finalizer : Option Block)
      (s₁ s₂ : ParserState) : Ψ.Follows .clear Ψ.Same false env s₁ s₂
      (do
        if handler.isNone && finalizer.isNone then Parser.fail (← Parser.here) .tryAlone
        else return .try (← Parser.spanFrom start) body handler finalizer : Parser Stmt)
      (do
        if (Ψ.moved handler).isNone && (Ψ.moved finalizer).isNone then
          Parser.fail (← Parser.here) .tryAlone
        else
          return .try (← Parser.spanFrom start') (Ψ.moved body) (Ψ.moved handler)
            (Ψ.moved finalizer)) := by
    refine ite ?_ (fun _ => here fail) fun _ => spanFrom hstart (done (by simp))
    cases handler <;> cases finalizer <;> exact Iff.rfl
  refine take (skip hk) fun _ _ _ => pass (h.inner_block _ _ _) fun body _ _ => ?_
  refine pass (h.inner_catchClause _ _ _) fun handler _ _ => eaten rfl (fun _ _ => ?_) fun _ => ?_
  · exact pass (map (h.inner_block _ _ _) fun _ => rfl) fun finalizer => hrest body handler finalizer
  · exact hrest body handler none _ _

/-- The object in parentheses and the body. -/
theorem follows_withStatement (hk : s₁.token.kind.isPlain) :
    Ψ.Follows .clear Ψ.Same false env s₁ s₂ (g.withStatement start) (g'.withStatement start') :=
  take (skip hk) fun _ _ _ => pass (h.inner_parenExpression _ _ _) fun _ _ _ =>
    pass (h.statement false _ _ _) fun _ _ _ => spanFrom hstart (done (by simp))

/-- A label that is there twice is there twice in the copy. -/
theorem inner_labeledStatement : Ψ.Inner (g.labeledStatement start) (g'.labeledStatement start') := by
  intro env s₁ s₂
  refine take ident fun label _ _ => read (ite Iff.rfl (fun _ => fail) fun _ => ?_)
  exact take (expectMark _) fun _ _ _ => pass (withLabel fun _ => h.statement false _ _ _)
    fun _ _ _ => spanFrom hstart (done (by simp))

/-- An expression inside of the stretch, and the end of its statement. -/
theorem inner_expressionStatement :
    Ψ.Inner (g.expressionStatement start) (g'.expressionStatement start') := by
  intro env s₁ s₂
  exact pass (h.inner_expression _ _ _) fun _ _ _ => pass semicolon fun _ _ _ =>
    spanFrom hstart (done rfl)

/-! ## Exports -/

end

/-- A function, a class or an expression, as the same tokens say. -/
theorem inner_defaultExport : Ψ.Inner g.defaultExport g'.defaultExport := by
  intro env s₁ s₂
  refine here (ifKind (fun _ => ?_) fun _ => ?_)
  · exact pass ((h.outer_function rfl false false).inner _ _ _) fun _ _ _ => done rfl
  refine follows_ahead (fun _ => rfl) (fun hk => take (skip (by rw [hk]; rfl)) fun _ _ _ => ?_) ?_
  · exact pass ((h.outer_function rfl true false).inner _ _ _) fun _ _ _ => done rfl
  refine ifKind (fun _ => ?_) fun _ => ?_
  · exact pass ((h.outer_classDefinition false).inner _ _ _) fun _ _ _ => done rfl
  · exact pass (h.assignment.inner _ _ _) fun _ _ _ => pass semicolon fun _ _ _ => done rfl

omit h in
/-- Whether something can be exported is seen from the same tokens. -/
theorem inner_atExportable : Ψ.Inner atExportable atExportable := by
  intro env s₁ s₂
  refine kind ?_
  split
  case h_5 => exact follows_ahead (fun _ => rfl) (fun _ => done rfl) (inner_atAsyncFunction _ _ _)
  all_goals exact done rfl

/-- Each sort of export is told by a word or punctuator that has its copy. -/
theorem inner_exportDeclaration : Ψ.Inner g.exportDeclaration g'.exportDeclaration := by
  intro env s₁ s₂
  refine here (take (expectWord _) fun _ _ _ => eaten rfl (fun _ _ => ?_) fun _ => ?_)
  · exact pass (h.inner_defaultExport _ _ _) fun _ _ _ => spanFrom rfl (done rfl)
  refine eaten rfl (inner_exportAll rfl _) fun _ => eaten rfl (inner_exportList rfl _) fun _ => ?_
  refine pass (inner_atExportable _ _ _) fun _ _ _ => ite Iff.rfl (fun _ => ?_) fun _ => unexpected
  exact pass (h.statement false _ _ _) fun _ _ _ => spanFrom rfl (done rfl)

/-! ## All of them -/

section

variable {start start' : Position} (hstart : start' = Ψ.places.shift start)
  {env : Surrounding} {s₁ s₂ : ParserState}
include hstart

/-- What follows the identifier is looked at on both sides. -/
theorem follows_statementAtName (hk : s₁.token.kind = .identifier) :
    Ψ.Follows .clear Ψ.Same false env s₁ s₂ (g.statementAtName start)
      (g'.statementAtName start') := by
  have hplain : s₁.token.kind.isPlain := by rw [hk]; rfl
  refine follows_ahead (fun _ => rfl) (fun _ => h.follows_varStatement hstart hplain) ?_
  refine follows_ahead (fun _ => rfl) (fun _ => take (skip hplain) fun _ _ _ => ?_) ?_
  · exact pass ((h.outer_function hstart true true).inner _ _ _) fun _ _ _ => done rfl
  refine peek (by rw [hk]; rfl) fun t => ite Iff.rfl (fun _ => ?_) fun _ => ?_
  · exact h.inner_labeledStatement hstart _ _ _
  · exact h.inner_expressionStatement hstart _ _ _

/-- An `import` that is called or accessed begins an expression on both sides. -/
theorem follows_statementAtImport (isTopLevel : Bool) (hk : s₁.token.kind = .keyword .import) :
    Ψ.Follows .clear Ψ.Same false env s₁ s₂ (g.statementAtImport start isTopLevel)
      (g'.statementAtImport start' isTopLevel) := by
  refine peek (by rw [hk]; rfl) fun t => ?_
  rw [show (Ψ.moved t).kind = t.kind from rfl]
  split
  · exact h.inner_expressionStatement hstart _ _ _
  · exact h.inner_expressionStatement hstart _ _ _
  · refine pass (inner_checkModulePosition isTopLevel _ _ _) fun _ _ _ => ?_
    exact pass (inner_importDeclaration _ _ _) fun _ _ _ => done rfl

/-- By the word, one statement each. -/
theorem follows_statementAtWord (isTopLevel : Bool) (word : Keyword)
    (hk : s₁.token.kind = .keyword word) :
    Ψ.Follows .clear Ψ.Same false env s₁ s₂ (g.statementAtWord start isTopLevel word)
      (g'.statementAtWord start' isTopLevel word) := by
  have hplain : s₁.token.kind.isPlain := by rw [hk]; rfl
  unfold statementAtWord
  split
  case h_1 | h_2 => exact h.follows_varStatement hstart hplain
  case h_3 => exact pass ((h.outer_function hstart false true).inner _ _ _) fun _ _ _ => done rfl
  case h_4 => exact pass ((h.outer_classDefinition true).inner _ _ _) fun _ _ _ => done rfl
  case h_5 => exact h.follows_ifStatement hstart hplain
  case h_6 => exact h.follows_forStatement hstart hplain
  case h_7 => exact h.follows_whileStatement hstart hplain
  case h_8 => exact h.follows_doWhileStatement hstart hplain
  case h_9 => exact h.follows_switchStatement hstart hplain
  case h_10 => exact h.follows_tryStatement hstart hplain
  case h_11 => exact h.follows_returnStatement hstart hplain
  case h_12 => exact h.follows_throwStatement hstart hplain
  case h_13 | h_14 => exact follows_jumpStatement hstart _ hplain
  case h_15 => exact follows_debuggerStatement hstart hplain
  case h_16 => exact h.follows_withStatement hstart hplain
  case h_17 => exact h.follows_statementAtImport hstart isTopLevel hk
  case h_18 =>
    refine pass (inner_checkModulePosition isTopLevel _ _ _) fun _ _ _ => ?_
    exact pass (h.inner_exportDeclaration _ _ _) fun _ _ _ => done rfl
  case h_19 => exact h.inner_expressionStatement hstart _ _ _

end

/-- The first token decides which statement it is, and is passed. -/
theorem inner_statementBody (isTopLevel : Bool) :
    Ψ.Inner (g.statementBody isTopLevel) (g'.statementBody isTopLevel) := by
  intro env s₁ s₂
  refine here (kind ?_)
  split
  next => exact pass (h.inner_block _ _ _) fun _ _ _ => done (by simp)
  next hk => exact take (bump (by rw [hk]; rfl)) fun _ _ _ => done rfl
  next hk => exact h.follows_statementAtName rfl hk
  next word hk => exact h.follows_statementAtWord rfl isTopLevel word hk
  next => exact h.inner_expressionStatement rfl _ _ _

/-- What is true of two grammars is true of those with one more level of nesting. -/
theorem deeper : Alike Ψ g.deeper g'.deeper where
  statement := h.inner_statementBody
  assignment := h.outer_assignmentBody
  operation := h.outer_operationBody
  unary := h.outer_unaryBody
  leftHandSide := h.outer_leftHandSideBody
  newExpr := h.outer_newBody
  arrayPattern := h.inner_arrayPatternBody
  objectPattern := h.inner_objectPatternBody

end Alike

/-! ## Every level of nesting -/

/-- The limit on nesting is a limit of the parser and not of the text. -/
theorem outcome_tooDeep {α : Type} {env : Surrounding} {s : ParserState}
    {Q : α → ParserState → Prop} : Parser.Outcome SyntaxError.Scarce env s tooDeep Q := .inl rfl

/-- A grammar at its limit is followed by any other. -/
theorem follows_tooDeep {α : Type} [Relocatable α] {z : Stretch.Zone}
    {R : ParserState → ParserState → Prop} {taken : Bool} {env : Surrounding} {s₁ s₂ : ParserState}
    {q : Parser α} : Ψ.Follows z R taken env s₁ s₂ tooDeep q := fun _ _ _ hrun => by cases hrun

/-- Nothing is read at the limit of nesting. -/
theorem alike_limit (g : Grammar) : Alike Ψ limit g where
  statement _ _ _ _ := follows_tooDeep
  assignment _ _ _ := follows_tooDeep
  operation _ _ _ _ := follows_tooDeep
  unary _ _ _ := follows_tooDeep
  leftHandSide _ _ _ := follows_tooDeep
  newExpr _ _ _ := follows_tooDeep
  arrayPattern _ _ _ := follows_tooDeep
  objectPattern _ _ _ := follows_tooDeep

/-- At the limit of nesting nothing but the limit is met. -/
theorem Alike.at_limit {g g' : Grammar} (h : Alike Ψ g g') : Alike Ψ g limit where
  statement isTopLevel env s₁ s₂ := scarce (h.statement isTopLevel env s₁ s₂) outcome_tooDeep
  assignment env s₁ s₂ := scarce (h.assignment env s₁ s₂) outcome_tooDeep
  operation floor env s₁ s₂ := scarce (h.operation floor env s₁ s₂) outcome_tooDeep
  unary env s₁ s₂ := scarce (h.unary env s₁ s₂) outcome_tooDeep
  leftHandSide env s₁ s₂ := scarce (h.leftHandSide env s₁ s₂) outcome_tooDeep
  newExpr env s₁ s₂ := scarce (h.newExpr env s₁ s₂) outcome_tooDeep
  arrayPattern env s₁ s₂ := scarce (h.arrayPattern env s₁ s₂) outcome_tooDeep
  objectPattern env s₁ s₂ := scarce (h.objectPattern env s₁ s₂) outcome_tooDeep

/-- The grammars of any two levels of nesting read a copy alike. -/
theorem alike_nest (Ψ : Stretch) (n m : Nat) : Alike Ψ (nest n) (nest m) := by
  induction n generalizing m with
  | zero => exact alike_limit _
  | succ n ih =>
    cases m with
    | zero => exact (ih 0).deeper.at_limit
    | succ m => exact (ih m).deeper

end Grammar

end WithScope
