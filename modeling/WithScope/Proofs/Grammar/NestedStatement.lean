import WithScope.Grammar.Program
import WithScope.Proofs.Grammar.NestedOperation

/-!
# Statements are nested

If the productions through which the grammar contains itself form constructs, so do statements,
imports and exports.
-/

namespace WithScope

open WithScope.Parser (Reads Looks Decides Round)

namespace Grammar

variable {source : List Char} {env : Surrounding} {s : ParserState} {moved : Bool}
  {start : Position} {ns : List Located}

/-! ## Imports -/

/-- The fault of a misplaced declaration is at its beginning. -/
theorem looks_checkModulePosition (hstart : IsPlace source start) (isTopLevel : Bool) :
    Looks source env s (checkModulePosition start isTopLevel) := by
  refine Reads.read ?_
  dsimp only
  split
  · exact Reads.pure rfl
  split
  · exact .fail hstart nofun
  split
  · exact .fail hstart nofun
  · exact Reads.pure rfl

/-- The text that names a module is a construct of one token. -/
theorem forms_moduleSource : Forms source moduleSource .string :=
  fun _ _ hs => .bind (hs.expectLeaf TokenKind.noConfusion) fun _ _ h => .pure (h _ rfl rfl)

/-- A name of an export is a construct of one token. -/
theorem forms_moduleName : Forms source moduleName ModuleName.located := by
  refine fun env s hs => .ite (.look (.atKind _) ?_ ?_)
  · exact .bind (forms_moduleSource hs) fun lit s h => .pure h
  · exact .bind (forms_identName hs) fun id s h => .pure h

/-- An entry of a `with` clause holds its key and its value, in this order. -/
theorem forms_importAttribute : Forms source importAttribute .importAttribute := by
  refine fun env s hs => .here (.bind (forms_moduleName hs) fun key s h₁ => ?_)
  refine .bind h₁.since.expectMark fun _ s h₂ => .bind (forms_moduleSource.adds h₂) fun value s h₃ => ?_
  exact .spanFrom (.pure (h₃.made rfl h₃.row))

/-- Whether there is a `with` clause is seen without moving. -/
theorem looks_atImportAttributes : Looks source env s atImportAttributes := by
  refine .ite (.look (.atKind _) (.pure rfl) (.ite (.look (.atName _) ?_ (.pure rfl))))
  exact Looks.afterNewline.bind fun _ => .pure rfl

/-- The entries of a `with` clause stand one after the other, or there are none. -/
theorem adds_importAttributes :
    Adds source importAttributes fun attributes => attributes.map .importAttribute := by
  refine fun env s moved start ns hs => .ite (.look looks_atImportAttributes ?_ (.pure ?_))
  · refine .bind hs.discardBump fun _ s h₁ => .bind h₁.expectMark fun _ s h₂ => ?_
    exact forms_importAttribute.toAdds.commaSeparated.ofFlatMap h₂.relax
  · simpa using hs

/-- Without `as` the name is the imported one. -/
theorem reads_importedName {imported : ModuleName} {isName : Bool}
    (hs : Since source moved start [imported.located] s) :
    Reads source env s (importedName isName imported) fun id s' =>
      imported = .ident id ∧ s' = s := by
  have hplace := hs.isPlace (List.mem_singleton_self _)
  cases imported with
  | ident id =>
    rw [importedName]
    split
    · exact .pure ⟨rfl, rfl⟩
    · exact .fail hplace fun h => by cases h
  | string lit => exact .fail hplace fun h => by cases h

/-- An entry of an import holds the imported name and the one in this module. Without an `as` there
is only one name, and it is both. -/
theorem forms_namedImport : Forms source namedImport .importSpecifier := by
  refine fun env s hs => .here ((Looks.atKind _).bind fun isName => ?_)
  refine .bind (forms_moduleName hs) fun imported s₁ h₁ => ?_
  have h₁ := h₁.since
  have hmake (localName : Ident) {s' : ParserState} (h : Since source true s.here (Located.children
      (.importSpecifier (.named ⟨.origin, .origin⟩ imported localName))) s') :
      Reads source env s' (do return .named (← Parser.spanFrom s.here) imported localName)
        fun specifier s' => Made source s.here (.importSpecifier specifier) s' :=
    .spanFrom (.pure (h.made rfl h.row))
  refine .ite (.look (.atName _) ?_ ?_)
  · refine .bind h₁.discardBump fun _ s₂ h₂ => .bind (forms_ident.adds h₂) fun localName s₃ h₃ => ?_
    refine hmake localName ?_
    simp only [Located.children]
    split
    · exact h₃.sublist (List.sublist_append_right [_] _)
    · exact h₃
  · refine .bind (reads_importedName h₁) fun localName s' ⟨himported, hs'⟩ => hmake localName ?_
    subst himported hs'
    simp only [Located.children, if_true]
    exact h₁

/-- A namespace is one entry, and names in braces are an entry each. -/
theorem adds_importSpecifiers :
    Adds source importSpecifiers fun specifiers => specifiers.map .importSpecifier := by
  refine fun env s moved start ns hs => .ite (.look (.atKind _) (.here ?_) ?_)
  · refine .bind (Since.here hs.sound).discardBump fun _ s h₁ => ?_
    refine .bind h₁.expectName fun _ s h₂ => .bind (forms_ident.adds h₂) fun localName s h₃ => ?_
    refine .spanFrom (.pure (hs.add ?_).relax)
    exact h₃.made (n := .importSpecifier (.namespace _ localName)) rfl h₃.row
  · refine .bind hs.expectMark fun _ s h₁ => ?_
    exact forms_namedImport.toAdds.commaSeparated.ofFlatMap h₁.relax

/-- The default name comes first. -/
theorem adds_importClause :
    Adds source importClause fun specifiers => specifiers.map .importSpecifier := by
  intro env s moved start ns hs
  have hfrom (specifiers : List ImportSpecifier) {s : ParserState}
      (h : Since source moved start (ns ++ specifiers.map .importSpecifier) s) :
      Reads source env s (do Parser.expectName "from"; return specifiers) fun specifiers s' =>
        Since source moved start (ns ++ specifiers.map .importSpecifier) s' :=
    .bind h.expectName fun _ _ h => .pure h
  refine .ite (.look (.atKind _) ?_ (.bind (adds_importSpecifiers hs) fun _ _ => hfrom _))
  refine .bind (forms_ident hs.sound) fun id s h₁ => ?_
  have h₁ := hs.add (h₁.wrap (m := .importSpecifier (.default id.loc id)) rfl rfl)
  refine .join (Q := fun others s' => Since source moved start (ns ++
      (.importSpecifier (.default id.loc id) :: others.map .importSpecifier)) s')
    (h₁.eatKind TokenKind.noConfusion (fun s h₂ => ?_) fun _ => .pure h₁.relax)
    fun others s h₂ => hfrom (.default id.loc id :: others) h₂
  simpa using adds_importSpecifiers h₂.relax

/-- An import holds its names, its source and the entries of its `with` clause. -/
theorem forms_importDeclaration : Forms source importDeclaration .module := by
  refine fun env s hs => .here (.bind (Since.here hs).expectWord fun _ s h₁ => ?_)
  refine .join (Q := fun specifiers s' => Since source true _ (specifiers.map .importSpecifier) s')
    (.look (.atKind _) (.pure h₁) (adds_importClause h₁)) fun specifiers s h₂ => ?_
  refine .bind (forms_moduleSource.adds h₂) fun from_ s h₃ => ?_
  refine .bind (adds_importAttributes h₃) fun attributes s h₄ => .bind h₄.semicolon fun _ s h₅ => ?_
  refine .spanFrom (.pure (h₅.made rfl ?_))
  simpa [Located.children, Located.moduleChildren] using h₅.row

/-! ## Exports -/

/-- An entry of an export list holds both of its names. Without an `as` the one name is both. -/
theorem forms_exportSpecifier : Forms source exportSpecifier .exportSpecifier := by
  refine fun env s hs => .here (.bind (forms_moduleName hs) fun localName s₁ h₁ => ?_)
  have h₁ := h₁.since
  have hmake (exported : ModuleName) {s' : ParserState} (h : Since source true s.here
      (Located.children (.exportSpecifier ⟨⟨.origin, .origin⟩, localName, exported⟩)) s') :
      Reads source env s' (do return ⟨← Parser.spanFrom s.here, localName, exported⟩)
        fun specifier s' => Made source s.here (.exportSpecifier specifier) s' :=
    .spanFrom (.pure (h.made rfl h.row))
  refine .ite (.look (.atName _) ?_ ?_)
  · refine .bind h₁.discardBump fun _ s₂ h₂ => .bind (forms_moduleName.adds h₂) fun exported s₃ h₃ => ?_
    refine hmake exported ?_
    simp only [Located.children]
    split
    · exact h₃.sublist (List.sublist_append_left _ _)
    · exact h₃
  · refine hmake localName ?_
    simp only [Located.children, if_true]
    exact h₁

/-- An export of everything holds its name, if it has one, its source and its `with` clause. -/
theorem reads_exportAll (hs : Since source true start [] s) :
    Reads source env s (exportAll start) fun d s' => Made source start (.module d) s' := by
  have hmake (exported : Option ModuleName) {s : ParserState}
      (h₁ : Since source true start (exported.toList.map ModuleName.located) s) :
      Reads source env s (do
        Parser.expectName "from"
        let from_ ← moduleSource
        let attributes ← importAttributes
        Parser.semicolon
        return .exportAll (← Parser.spanFrom start) exported from_ attributes) fun d s' =>
          Made source start (.module d) s' := by
    refine .bind h₁.expectName fun _ s h₂ => .bind (forms_moduleSource.adds h₂) fun from_ s h₃ => ?_
    refine .bind (adds_importAttributes h₃) fun attributes s h₄ => .bind h₄.semicolon fun _ s h₅ => ?_
    refine .spanFrom (.pure (h₅.made rfl ?_))
    simpa [Located.children, Located.moduleChildren] using h₅.row
  refine .ite (.look (.atName _) ?_ ?_)
  · refine .bind hs.discardBump fun _ s h₁ => ?_
    exact .bind (P := fun (exported : Option ModuleName) s' =>
        Since source true start (exported.toList.map ModuleName.located) s')
      (.map (forms_moduleName.adds h₁)) fun exported s => hmake exported
  · exact hmake none hs

/-- An export list holds its entries, and what follows `from` if there is that. -/
theorem reads_exportList (hs : Since source true start [] s) :
    Reads source env s (exportList start) fun d s' => Made source start (.module d) s' := by
  refine .bind (forms_exportSpecifier.toAdds.commaSeparated.ofFlatMap hs) fun specifiers s h₁ => ?_
  refine .ite (.look (.atName _) ?_ ?_)
  · refine .bind h₁.discardBump fun _ s h₂ => .bind (forms_moduleSource.adds h₂) fun from_ s h₃ => ?_
    refine .bind (adds_importAttributes h₃) fun attributes s h₄ => .bind h₄.semicolon fun _ s h₅ => ?_
    exact .spanFrom (.pure (h₅.made rfl h₅.row))
  · refine .bind h₁.semicolon fun _ s h₂ => .spanFrom (.pure (h₂.made rfl ?_))
    simpa [Located.children, Located.moduleChildren] using h₂.row

/-- Whether `let` declares something is seen without moving. -/
theorem looks_atLetDeclaration (hs : s.Sound source) : Looks source env s atLetDeclaration :=
  .ite (.look (.atName _) ((Looks.peek hs).bind fun _ => .pure rfl) (.pure rfl))

/-- Whether something can be exported is seen without moving. -/
theorem looks_atExportable (hs : s.Sound source) : Looks source env s atExportable := by
  refine Reads.kind ?_
  split
  case h_5 => exact .ite (.look (looks_atLetDeclaration hs) (.pure rfl) (looks_atAsyncFunction hs))
  all_goals exact .pure rfl

/-- Whether a declaration begins is seen without moving. -/
theorem looks_atVarDecl (hs : s.Sound source) : Looks source env s atVarDecl := by
  refine Reads.kind ?_
  split
  case h_3 => exact looks_atLetDeclaration hs
  all_goals exact .pure rfl

/-! ## Parts of statements -/

/-- The word of a declaration belongs to it and is no construct of its own. -/
theorem keeps_varKind : Keeps source varKind := by
  refine fun env s moved start ns hs => .bind hs.bump fun t s ⟨_, _, h₁, _⟩ => ?_
  split <;> exact .pure h₁

/-- A name that must not be declared stands in the pattern, so the fault is at a place of the text.
-/
theorem looks_checkLexicalNames {kind : VarKind} {id : Pat} {lo hi : Nat}
    (hid : Row source lo hi [.pat id]) : Looks source env s (checkLexicalNames kind id) := by
  unfold checkLexicalNames
  split
  · split
    · next place hplace => exact .fail (id.isPlace_find "let" hid place hplace) nofun
    · exact Reads.pure rfl
  · exact Reads.pure rfl

/-- Whether a clause ends is seen without moving. -/
theorem keeps_atCaseEnd : Keeps source atCaseEnd := by
  refine fun env s moved start ns hs => .kind ?_
  split <;> exact .pure hs

/-- The target of a loop stands where the expression stood that it is made of. -/
theorem reads_forTarget {init : ForInit} (hs : Since source moved start [init.located] s) :
    Reads source env s (forTarget init) fun target s' =>
      Since source moved start [target.located] s' := by
  have hplace := hs.isPlace (List.mem_singleton_self _)
  cases init with
  | decl d =>
    obtain ⟨loc, kind, _ | ⟨declarator, _ | ⟨other, others⟩⟩⟩ := d
    · exact .fail hplace nofun
    · exact .pure hs
    · exact .fail hplace nofun
  | expr e => exact .bind (hs.convert (e.nested_toPattern false hs.row)) fun target s h₁ => .pure h₁

/-- The word `await` belongs to the loop and is no construct of its own. -/
theorem keeps_eatAwait : Keeps source eatAwait := by
  refine fun env s moved start ns hs => .context (.token ?_)
  split
  · exact .bind hs.discardBump fun _ s h₁ => .pure h₁
  · exact .pure hs

/-- The label of a jump is a construct, or is left out. -/
theorem adds_jumpLabel : Adds source jumpLabel fun label => label.toList.map .ident := by
  have hnone {env : Surrounding} {s : ParserState} {moved : Bool} {start : Position}
      {ns : List Located} (hs : Since source moved start ns s) :
      Reads source env s (pure none : Parser (Option Ident)) fun label s' =>
        Since source moved start (ns ++ label.toList.map .ident) s' := .pure (by simpa using hs)
  refine fun env s moved start ns hs => .ite (.look (.atKind _) ?_ (hnone hs))
  refine .ite (.look .afterNewline (hnone hs) ?_)
  exact .bind (forms_ident.adds hs) fun label s h₁ => .pure h₁.relax

/-- A jump without a target is a fault where it begins, and a label that is unknown one where it
stands. -/
theorem looks_checkJump {isBreak : Bool} {label : Option Ident} (hstart : IsPlace source start)
    (hlabel : ∀ id ∈ label, IsPlace source id.loc.start) :
    Looks source env s (checkJump start isBreak label) := by
  refine Reads.read ?_
  dsimp only
  split
  · next id hid => exact .fail (hlabel id (Option.filter_eq_some_iff.1 hid).1) nofun
  split
  · exact Reads.pure rfl
  split
  · exact .fail hstart nofun
  split
  · exact .fail hstart nofun
  · exact Reads.pure rfl

/-- A jump holds its label. -/
theorem reads_jumpStatement (hs : s.Sound source) (hk : s.token.kind ≠ .eof) (isBreak : Bool) :
    Reads source env s (jumpStatement s.here isBreak) fun stmt s' =>
      Made source s.here (.stmt stmt) s' := by
  refine .bind ((Since.here hs).pass hk) fun _ s₁ h₁ => .bind (adds_jumpLabel h₁) fun label s₂ h₂ => ?_
  refine (looks_checkJump hs.isPlace_here fun id hid => ?_).bind fun _ => ?_
  · exact h₂.isPlace (n := .ident id) (by simpa using hid)
  · refine .bind h₂.semicolon fun _ s₃ h₃ => .spanFrom (.pure ?_)
    split <;> exact h₃.made rfl h₃.row

/-- There is nothing inside of a `debugger` statement. -/
theorem reads_debuggerStatement (hs : s.Sound source) (hk : s.token.kind ≠ .eof) :
    Reads source env s (debuggerStatement s.here) fun stmt s' =>
      Made source s.here (.stmt stmt) s' := by
  refine .bind ((Since.here hs).pass hk) fun _ s₁ h₁ => .bind h₁.semicolon fun _ s₂ h₂ => ?_
  exact .spanFrom (.pure (h₂.made rfl h₂.row))

namespace Nests

variable {g : Grammar} (h : g.Nests source)
include h

/-- What is exported by default is added as what it is: a function, a class or an expression. -/
theorem defaultExport : Adds source g.defaultExport fun value => [value.located] := by
  refine fun env s moved start ns hs => .here (.ite (.look (.atKind _) ?_ ?_))
  · exact .bind (h.function (Since.here hs.sound)) fun f s h₁ => .pure (hs.add h₁).relax
  refine .ite (.look (looks_atAsyncFunction hs.sound) ?_ (.ite (.look (.atKind _) ?_ ?_)))
  · refine .bind (Since.here hs.sound).discardBump fun _ s h₁ => ?_
    exact .bind (h.function h₁) fun f s h₂ => .pure (hs.add h₂).relax
  · exact .bind ((h.classDefinition false).toAdds hs) fun c s h₁ => .pure h₁
  · exact .bind (h.assignment.toAdds hs) fun e s h₁ => .bind h₁.semicolon fun _ s h₂ => .pure h₂

/-- An export begins with its word, and holds what is exported. -/
theorem exportDeclaration : Forms source g.exportDeclaration .module := by
  refine fun env s hs => .here (.bind (Since.here hs).expectWord fun _ s h₁ => ?_)
  refine .ite (h₁.eatKind TokenKind.noConfusion (fun s h₂ => ?_) fun _ => ?_)
  · refine .bind (h.defaultExport h₂) fun value s h₃ => ?_
    exact .spanFrom (.pure (h₃.made rfl h₃.row))
  refine .ite (h₁.eatKind TokenKind.noConfusion (fun s => reads_exportAll) fun _ => ?_)
  refine .ite (h₁.eatKind TokenKind.noConfusion (fun s => reads_exportList) fun _ => ?_)
  refine .ite (.look (looks_atExportable h₁.sound) ?_ (.unexpected h₁.sound))
  refine .bind ((h.statement false).adds h₁) fun declaration s h₂ => ?_
  exact .spanFrom (.pure (h₂.made rfl h₂.row))

/-! ## Declarations -/

/-- A declarator holds its pattern and its value, in this order. -/
theorem declarator (kind : VarKind) : Forms source (g.declarator kind) .declarator := by
  refine fun env s hs => .here (.bind (h.bindingTarget hs) fun id s h₁ => ?_)
  have h₁ := h₁.since
  refine (looks_checkLexicalNames h₁.row).bind fun _ => ?_
  refine .join (Q := fun value s' => Since source true _ (.pat id :: value.toList.map .expr) s')
    (h₁.eatKind TokenKind.noConfusion (fun s h₂ => .map (h.assignment.adds h₂)) fun _ => .pure h₁)
    fun value s h₂ => ?_
  exact .spanFrom (.pure (h₂.made rfl h₂.row))

/-- A declaration holds its declarators one after the other. -/
theorem varDecl : Forms source g.varDecl .varDecl := by
  refine fun env s hs => .here (.bind (keeps_varKind (Since.here hs)) fun kind s h₁ => ?_)
  refine .bind ((h.declarator kind).adds h₁) fun first s h₂ => ?_
  refine .bind ((h.declarator kind).toAdds.afterCommas.ofFlatMap h₂) fun others s h₃ => ?_
  exact .spanFrom (.pure (h₃.made rfl h₃.row))

/-- As a statement, a declaration goes on to its semicolon. -/
theorem varStatement (hs : s.Sound source) :
    Reads source env s (g.varStatement s.here) fun stmt s' => Made source s.here (.stmt stmt) s' := by
  refine .bind (h.varDecl hs) fun d s₁ h₁ => ?_
  obtain ⟨loc, kind, declarators⟩ := d
  refine .bind h₁.2.semicolon fun _ s₂ h₂ => .spanFrom (.pure ?_)
  exact (h₂.made (n := .varDecl (.mk _ kind declarators)) rfl h₂.row).wrap rfl rfl

/-! ## Choices -/

/-- An `if` holds its test and its branches, in this order. -/
theorem ifStatement (hs : s.Sound source) (hk : s.token.kind ≠ .eof) :
    Reads source env s (g.ifStatement s.here) fun stmt s' => Made source s.here (.stmt stmt) s' := by
  refine .bind ((Since.here hs).pass hk) fun _ s₁ h₁ => .bind (h.parenExpression h₁) fun test s₂ h₂ => ?_
  refine .bind ((h.statement false).adds h₂) fun consequent s₃ h₃ => ?_
  refine .join (Q := fun alternate s' => Since source true _
      ([.expr test, .stmt consequent] ++ alternate.toList.map .stmt) s')
    (h₃.eatKind TokenKind.noConfusion (fun s₄ h₄ => .map ((h.statement false).adds h₄))
      fun _ => .pure h₃) fun alternate s₄ h₄ => ?_
  exact .spanFrom (.pure (h₄.made rfl h₄.row))

/-- The test of a clause is an expression, or is left out after `default`. -/
theorem caseTest : Adds source g.caseTest fun test => test.toList.map .expr := by
  refine fun env s moved start ns hs => .ite (hs.eatKind TokenKind.noConfusion
    (fun s h₁ => ?_) fun _ => ?_)
  · exact .bind (h.expression.withContext.adds h₁) fun e s h₂ => .pure h₂.relax
  · exact .bind hs.expectWord fun _ s h₁ => .pure (by simpa using h₁.relax)

/-- A clause holds its test and then its statements. -/
theorem switchCase : Forms source g.switchCase .switchCase := by
  refine fun env s hs => .here (.bind (h.caseTest (Since.here hs)) fun test s h₁ => ?_)
  refine .bind h₁.expectMark fun _ s h₂ => ?_
  refine .bind ((Adds.collectUntil keeps_atCaseEnd (h.statement false).toAdds).ofFlatMap h₂)
    fun consequent s h₃ => ?_
  refine .ite (.look (.atKind _) (.unexpected h₃.sound) ?_)
  exact .spanFrom (.pure (h₃.made rfl h₃.row))

/-- A `switch` holds the value that decides and then its clauses. -/
theorem switchStatement (hs : s.Sound source) (hk : s.token.kind ≠ .eof) :
    Reads source env s (g.switchStatement s.here) fun stmt s' =>
      Made source s.here (.stmt stmt) s' := by
  refine .bind ((Since.here hs).pass hk) fun _ s₁ h₁ => ?_
  refine .bind (h.parenExpression h₁) fun discriminant s₂ h₂ => .bind h₂.expectMark fun _ s₃ h₃ => ?_
  refine .bind ((Adds.collectUntil (.eatMark _) h.switchCase.toAdds).ofFlatMap.withContext h₃)
    fun cases s₄ h₄ => ?_
  exact .spanFrom (.pure (h₄.made rfl h₄.row))

/-! ## Loops -/

/-- The body of a loop is a statement like any other. -/
theorem loopBody : Forms source g.loopBody .stmt := (h.statement false).withContext

/-- A `while` loop holds its test and then its body. -/
theorem whileStatement (hs : s.Sound source) (hk : s.token.kind ≠ .eof) :
    Reads source env s (g.whileStatement s.here) fun stmt s' =>
      Made source s.here (.stmt stmt) s' := by
  refine .bind ((Since.here hs).pass hk) fun _ s₁ h₁ => .bind (h.parenExpression h₁) fun test s₂ h₂ => ?_
  refine .bind (h.loopBody.adds h₂) fun body s₃ h₃ => ?_
  exact .spanFrom (.pure (h₃.made rfl h₃.row))

/-- A `do` loop holds its body and then its test. -/
theorem doWhileStatement (hs : s.Sound source) (hk : s.token.kind ≠ .eof) :
    Reads source env s (g.doWhileStatement s.here) fun stmt s' =>
      Made source s.here (.stmt stmt) s' := by
  refine .bind ((Since.here hs).pass hk) fun _ s₁ h₁ => .bind (h.loopBody.adds h₁) fun body s₂ h₂ => ?_
  refine .bind h₂.expectWord fun _ s₃ h₃ => .bind (h.parenExpression h₃) fun test s₄ h₄ => ?_
  refine .bind (P := fun _ s' => Since source true _ [.stmt body, .expr test] s')
    (.map (Keeps.eatMark _ h₄)) fun _ s₅ h₅ => ?_
  exact .spanFrom (.pure (h₅.made rfl h₅.row))

/-- A loop begins with a declaration or an expression. -/
theorem forInit : Forms source g.forInit ForInit.located := by
  refine fun env s hs => .ite (.look (looks_atVarDecl hs) ?_ ?_)
  · exact .bind (h.varDecl hs) fun d s h₁ => .pure h₁
  · exact .bind (h.expression hs) fun e s h₁ => .pure h₁

/-- An expression that is left out adds nothing. -/
theorem optionalExpression (mark : Punctuator) :
    Adds source (g.optionalExpression mark) fun e => e.toList.map .expr := by
  refine fun env s moved start ns hs => .ite (.look (.atKind _) (.pure (by simpa using hs)) ?_)
  exact .bind (h.expression.withContext.adds hs) fun e s h₁ => .pure h₁.relax

/-- Up to four parts stand in a loop one after the other, of which three may be left out. -/
theorem forRest {init : Option ForInit}
    (hs : Since source moved start (init.toList.map ForInit.located) s) :
    Reads source env s (g.forRest start init) fun stmt s' => Made source start (.stmt stmt) s' := by
  refine .bind hs.expectMark fun _ s h₁ => .bind (h.optionalExpression _ h₁) fun test s h₂ => ?_
  refine .bind h₂.expectMark fun _ s h₃ => .bind (h.optionalExpression _ h₃) fun update s h₄ => ?_
  refine .bind h₄.expectMark fun _ s h₅ => .bind (h.loopBody.adds h₅) fun body s h₆ => ?_
  exact .spanFrom (.pure (h₆.made rfl h₆.row))

/-- The target of a loop over values comes before what is looped over, and the body last. -/
theorem forOfRest {isAwait : Bool} {init : ForInit}
    (hs : Since source true start [init.located] s) :
    Reads source env s (g.forOfRest start isAwait init) fun stmt s' =>
      Made source start (.stmt stmt) s' := by
  refine .bind (reads_forTarget hs) fun target s h₁ => .bind h₁.discardBump fun _ s h₂ => ?_
  refine .bind (h.assignment.withContext.adds h₂) fun right s h₃ => .bind h₃.expectMark fun _ s h₄ => ?_
  refine .bind (h.loopBody.adds h₄) fun body s h₅ => ?_
  exact .spanFrom (.pure (h₅.made rfl h₅.row))

/-- As `forOfRest`, for a loop over keys. -/
theorem forInRest {init : ForInit} (hs : Since source true start [init.located] s) :
    Reads source env s (g.forInRest start init) fun stmt s' =>
      Made source start (.stmt stmt) s' := by
  refine .bind (reads_forTarget hs) fun target s h₁ => .bind h₁.discardBump fun _ s h₂ => ?_
  refine .bind (h.expression.withContext.adds h₂) fun right s h₃ => .bind h₃.expectMark fun _ s h₄ => ?_
  refine .bind (h.loopBody.adds h₄) fun body s h₅ => ?_
  exact .spanFrom (.pure (h₅.made rfl h₅.row))

/-- The word that a loop begins with has been read, so all that follows is in it. -/
theorem forStatement (hs : s.Sound source) :
    Reads source env s (g.forStatement s.here) fun stmt s' =>
      Made source s.here (.stmt stmt) s' := by
  refine .bind (Since.here hs).discardBump fun _ s₁ h₁ => .bind (keeps_eatAwait h₁) fun isAwait s₂ h₂ => ?_
  refine .bind h₂.expectMark fun _ s₃ h₃ => .ite (.look (.atKind _) (h.forRest h₃) ?_)
  refine .bind (h.forInit.withContext.adds h₃) fun init s₄ h₄ => ?_
  refine .ite (.look (.atName _) (h.forOfRest h₄) (.ite (.look (.atKind _) (h.forInRest h₄) ?_)))
  exact h.forRest h₄

/-! ## Other statements -/

/-- A `return` holds its argument, if it has one. -/
theorem returnStatement (hs : s.Sound source) (hk : s.token.kind ≠ .eof) :
    Reads source env s (g.returnStatement s.here) fun stmt s' =>
      Made source s.here (.stmt stmt) s' := by
  refine .read ?_
  split
  · exact .fail hs.isPlace_here nofun
  refine .bind ((Since.here hs).pass hk) fun _ s₁ h₁ => ?_
  refine .join (Q := fun argument s' => Since source true _ (argument.toList.map .expr) s')
    (.look .atStatementEnd (.pure h₁) (.map (h.expression.adds h₁))) fun argument s₂ h₂ => ?_
  refine .bind h₂.semicolon fun _ s₃ h₃ => ?_
  exact .spanFrom (.pure (h₃.made rfl h₃.row))

/-- A `throw` holds its argument. -/
theorem throwStatement (hs : s.Sound source) :
    Reads source env s (g.throwStatement s.here) fun stmt s' =>
      Made source s.here (.stmt stmt) s' := by
  refine .bind (Since.here hs).discardBump fun _ s₁ h₁ => ?_
  refine .ite (.look .afterNewline (.here (.fail h₁.sound.isPlace_here nofun)) ?_)
  refine .bind (h.expression.adds h₁) fun argument s₂ h₂ => .bind h₂.semicolon fun _ s₃ h₃ => ?_
  exact .spanFrom (.pure (h₃.made rfl h₃.row))

/-- A clause holds its parameter, if it has one, and its block. -/
theorem catchClause : Adds source g.catchClause fun c => c.toList.map .catchClause := by
  intro env s moved start ns hs
  have hbody (param : Option Pat) {s' : ParserState}
      (h₁ : Since source true s.here (param.toList.map .pat) s') :
      Reads source env s' (do
        let body ← g.block
        return some (.mk (← Parser.spanFrom s.here) param body)) fun c s' =>
          Since source moved start (ns ++ c.toList.map .catchClause) s' := by
    refine .bind (h.block.adds h₁) fun body s h₂ => .spanFrom (.pure ?_)
    exact (hs.add (h₂.made (n := .catchClause (.mk _ param body)) rfl h₂.row)).relax
  refine .here (.ite ((Since.here hs.sound).eatKind TokenKind.noConfusion (fun s h₁ => ?_)
    fun _ => .pure (by simpa using hs)))
  refine .ite (h₁.eatKind TokenKind.noConfusion (fun s h₂ => ?_) fun _ => hbody none h₁)
  refine .bind (h.bindingTarget.adds h₂) fun param s h₃ => .bind h₃.expectMark fun _ s h₄ => ?_
  exact hbody (some param) h₄

/-- A `try` holds its block and its clauses, in this order. -/
theorem tryStatement (hs : s.Sound source) :
    Reads source env s (g.tryStatement s.here) fun stmt s' =>
      Made source s.here (.stmt stmt) s' := by
  refine .bind (Since.here hs).discardBump fun _ s₁ h₁ => .bind (h.block.adds h₁) fun body s₂ h₂ => ?_
  refine .bind (h.catchClause h₂) fun handler s₃ h₃ => ?_
  refine .join (Q := fun finalizer s' => Since source true _
      ([.block body] ++ handler.toList.map .catchClause ++ finalizer.toList.map .block) s')
    (h₃.eatKind TokenKind.noConfusion (fun s₄ h₄ => .map (h.block.adds h₄))
      fun _ => .pure (by simpa using h₃)) fun finalizer s₄ h₄ => ?_
  beta_reduce
  split
  · exact .here (.fail h₄.sound.isPlace_here nofun)
  · exact .spanFrom (.pure (h₄.made rfl h₄.row))

/-- A `with` statement holds its object and then its body. -/
theorem withStatement (hs : s.Sound source) :
    Reads source env s (g.withStatement s.here) fun stmt s' =>
      Made source s.here (.stmt stmt) s' := by
  refine .bind (Since.here hs).discardBump fun _ s₁ h₁ => ?_
  refine .bind (h.parenExpression h₁) fun object s₂ h₂ => ?_
  refine .bind ((h.statement false).adds h₂) fun body s₃ h₃ => ?_
  exact .spanFrom (.pure (h₃.made rfl h₃.row))

/-- A statement with a label holds the label and the statement. -/
theorem labeledStatement (hs : s.Sound source) :
    Reads source env s (g.labeledStatement s.here) fun stmt s' =>
      Made source s.here (.stmt stmt) s' := by
  refine .bind (forms_ident hs) fun label s₁ h₁ => .read ?_
  have h₁ := h₁.since
  split
  · exact .fail (h₁.isPlace (List.mem_singleton_self _)) nofun
  refine .bind h₁.expectMark fun _ s₂ h₂ => ?_
  refine .bind (.withLabel fun env => (h.statement false).adds h₂) fun body s₃ h₃ => ?_
  exact .spanFrom (.pure (h₃.made rfl h₃.row))

/-- An expression goes on to its semicolon as a statement. -/
theorem expressionStatement (hs : s.Sound source) :
    Reads source env s (g.expressionStatement s.here) fun stmt s' =>
      Made source s.here (.stmt stmt) s' := by
  refine .bind (h.expression hs) fun e s₁ h₁ => .bind h₁.since.semicolon fun _ s₂ h₂ => ?_
  exact .spanFrom (.pure (h₂.made rfl h₂.row))

/-! ## All of them -/

/-- Whichever statement an identifier begins, it begins with this token. -/
theorem statementAtName (hs : s.Sound source) :
    Reads source env s (g.statementAtName s.here) fun stmt s' =>
      Made source s.here (.stmt stmt) s' := by
  refine .ite (.look (looks_atLetDeclaration hs) (h.varStatement hs) ?_)
  refine .ite (.look (looks_atAsyncFunction hs) ?_ ((Looks.peek hs).bind fun next => ?_))
  · refine .bind (Since.here hs).discardBump fun _ s₁ h₁ => ?_
    exact .bind (h.function h₁) fun f s₂ h₂ => .pure (h₂.wrap rfl rfl)
  split
  · exact h.labeledStatement hs
  · exact h.expressionStatement hs

/-- An `import` that is called or accessed begins an expression. -/
theorem statementAtImport (hs : s.Sound source) (isTopLevel : Bool) :
    Reads source env s (g.statementAtImport s.here isTopLevel) fun stmt s' =>
      Made source s.here (.stmt stmt) s' := by
  refine (Looks.peek hs).bind fun next => ?_
  split
  · exact h.expressionStatement hs
  · exact h.expressionStatement hs
  · refine (looks_checkModulePosition hs.isPlace_here _).bind fun _ => ?_
    exact .bind (forms_importDeclaration hs) fun d s h₁ => .pure (h₁.wrap rfl rfl)

/-- Whichever statement a reserved word begins, it begins with this token. -/
theorem statementAtWord (hs : s.Sound source) {word : Keyword} (hk : s.token.kind = .keyword word)
    (isTopLevel : Bool) : Reads source env s (g.statementAtWord s.here isTopLevel word)
      fun stmt s' => Made source s.here (.stmt stmt) s' := by
  have hne : s.token.kind ≠ .eof := by rw [hk]; exact TokenKind.noConfusion
  unfold Grammar.statementAtWord
  split
  · exact h.varStatement hs
  · exact h.varStatement hs
  · exact .bind (h.function (Since.here hs)) fun f s h₁ => .pure (h₁.wrap rfl rfl)
  · exact .bind (h.classDefinition true hs) fun c s h₁ => .pure (h₁.wrap rfl rfl)
  · exact h.ifStatement hs hne
  · exact h.forStatement hs
  · exact h.whileStatement hs hne
  · exact h.doWhileStatement hs hne
  · exact h.switchStatement hs hne
  · exact h.tryStatement hs
  · exact h.returnStatement hs hne
  · exact h.throwStatement hs
  · exact reads_jumpStatement hs hne true
  · exact reads_jumpStatement hs hne false
  · exact reads_debuggerStatement hs hne
  · exact h.withStatement hs
  · exact h.statementAtImport hs isTopLevel
  · refine (looks_checkModulePosition hs.isPlace_here _).bind fun _ => ?_
    exact .bind (h.exportDeclaration hs) fun d s h₁ => .pure (h₁.wrap rfl rfl)
  · exact h.expressionStatement hs

/-- A statement is one construct, from its first token on. -/
theorem statementBody (isTopLevel : Bool) : Forms source (g.statementBody isTopLevel) .stmt := by
  refine fun env s hs => .here (.kind ?_)
  split
  · exact .bind (h.block hs) fun b s h₁ => .pure (h₁.wrap rfl rfl)
  · next hk => exact hs.leafAs hk TokenKind.noConfusion _ (fun _ => rfl) fun _ => rfl
  · exact h.statementAtName hs
  · next word hk => exact h.statementAtWord hs hk isTopLevel
  · exact h.expressionStatement hs

end Nests

/-! ## Every level of nesting -/

/-- One level more: what is made of constructs is one. -/
theorem nests_deeper {g : Grammar} (h : g.Nests source) : g.deeper.Nests source :=
  ⟨h.statementBody, h.assignmentBody, h.operationBody, h.unaryBody, h.leftHandSideBody, h.newBody,
    h.arrayPatternBody, h.objectPatternBody⟩

/-- At the limit of nesting nothing is read, and nothing is there to be nested. -/
theorem nests_limit : limit.Nests source := by
  have htooDeep {α : Type} (located : α → Located) : Forms source (tooDeep : Parser α) located :=
    fun _ _ hs => .here (.fail hs.isPlace_here nofun)
  exact ⟨fun _ => htooDeep _, htooDeep _, fun _ => htooDeep _, htooDeep _, htooDeep _, htooDeep _,
    htooDeep _, htooDeep _⟩

/-- The productions of the grammar form constructs, however deep they are nested. -/
theorem nests_nest (n : Nat) : (nest n).Nests source := by
  induction n with
  | zero => exact nests_limit
  | succ n ih => exact nests_deeper ih

end Grammar

end WithScope
