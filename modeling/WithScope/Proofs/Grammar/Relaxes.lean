import WithScope.Grammar.Program
import WithScope.Proofs.Tree.Legal

/-!
# Options that allow more

Two readings of one text, under options of which the second allow whatever the first do. The options
are looked at in three places: where a `return` or a module declaration stands, and where the source
type goes into the tree. What the first reading gets past, the second one gets past as well, so it
takes the same way through the grammar.

* `Options.Relaxed` — the second options allow what the first do;
* `Parser.Relaxes` — a parser that reads the same under options that allow more, with a rule for
  each way to put parsers together, and for the productions that do not contain themselves.
-/

namespace WithScope

/-- What the first options allow, the second do too, and they read a text as the same thing. -/
structure Options.Relaxed (o o' : Options) : Prop where
  /-- as a script or as a module on both sides -/
  sourceType : o.sourceType = o'.sourceType
  /-- `return` may stand wherever it may on the first side -/
  returnAnywhere : o.returnAnywhere = true → o'.returnAnywhere = true
  /-- imports and exports may stand wherever they may on the first side -/
  modulesAnywhere : o.modulesAnywhere = true → o'.modulesAnywhere = true

/-- The same surrounding under other options. -/
def Surrounding.under (env : Surrounding) (o : Options) : Surrounding := { env with options := o }

namespace Parser

variable {α β : Type}

/-- Whatever a parser reads, it reads the same under options that allow more. -/
def Relaxes (p : Parser α) : Prop :=
  ∀ ⦃env s r o⦄, env.options.Relaxed o → p env s = .ok r → p (env.under o) s = .ok r

namespace Relaxes

variable {p q : Parser α} {f : α → Parser β}

/-! ## Sequences and choices -/

/-- A value that is given without reading does not depend on the options. -/
theorem pure (a : α) : Relaxes (Pure.pure a : Parser α) := fun _ _ _ _ _ h => h

/-- What comes second is read from where the first has come to, which is the same state. -/
theorem bind (hp : Relaxes p) (hf : ∀ a, Relaxes (f a)) : Relaxes (p >>= f) := by
  intro env s r o ho hrun
  replace hrun : (p env s >>= fun x => f x.1 env x.2) = .ok r := hrun
  obtain ⟨x, hx, hfx⟩ := exists_of_bind_eq_ok hrun
  show (p (env.under o) s >>= fun x => f x.1 (env.under o) x.2) = .ok r
  rw [hp ho hx]
  exact hf x.1 ho hfx

/-- What is made of a value is the same if the value is. -/
theorem map {f : α → β} (hp : Relaxes p) : Relaxes (f <$> p) := bind hp fun a => pure (f a)

theorem discard (hp : Relaxes p) : Relaxes (Functor.discard p) := map hp

/-- A choice by something other than the options is made in the same way. -/
theorem ite {c : Prop} [Decidable c] (hp : Relaxes p) (hq : Relaxes q) :
    Relaxes (if c then p else q) := by
  split
  · exact hp
  · exact hq

/-- Two ways to come to the same place. -/
theorem join {c : Prop} [Decidable c] (hp : Relaxes p) (hq : Relaxes q)
    (hf : ∀ a, Relaxes (f a)) : Relaxes (if c then p >>= f else q >>= f) :=
  ite (bind hp hf) (bind hq hf)

/-- A fault is no result, so there is nothing to be kept. -/
theorem throw (e : SyntaxError) : Relaxes (MonadExcept.throw e : Parser α) := fun _ _ _ _ _ h => h

theorem fail (place : Position) (cause : SyntaxCause) :
    Relaxes (Parser.fail place cause : Parser α) := throw _

/-- What has been worked out without reading is the same under all options. -/
theorem ofExcept (x : Except SyntaxError α) : Relaxes (ofExcept x : Parser α) := by
  cases x with
  | error e => exact throw e
  | ok a => exact pure a

/-! ## What does not depend on the surrounding, or not on its options -/

/-- The state is looked at, and options are no part of it. -/
theorem get : Relaxes (MonadState.get : Parser ParserState) := fun _ _ _ _ _ h => h

/-- The state is replaced, and options are no part of it. -/
theorem set (s : ParserState) : Relaxes (MonadStateOf.set s : Parser PUnit) := fun _ _ _ _ _ h => h

theorem token : Relaxes Parser.token := fun _ _ _ _ _ h => h

theorem kind : Relaxes Parser.kind := fun _ _ _ _ _ h => h

theorem here : Relaxes Parser.here := fun _ _ _ _ _ h => h

theorem spanFrom (start : Position) : Relaxes (Parser.spanFrom start) := fun _ _ _ _ _ h => h

/-- The next token comes from the lexer, which knows no options. -/
theorem bump : Relaxes Parser.bump := by
  refine bind get fun s => ?_
  split
  · exact throw _
  · exact bind (set _) fun _ => pure _

/-- Looking ahead is left to the lexer as well. -/
theorem peek : Relaxes Parser.peek := by
  refine bind get fun s => ?_
  split
  · exact throw _
  · exact pure _

/-- A slash is read again by the lexer, in the same way. -/
theorem rescan : Relaxes Parser.rescan := by
  refine bind get fun s => ?_
  split
  · exact throw _
  · exact set _

/-- The context is that of the same surrounding under other options. -/
theorem context : Relaxes Parser.context := fun _ _ _ _ _ h => h

/-- A token that fits nowhere is a fault under both options. -/
theorem unexpected : Relaxes (Parser.unexpected : Parser α) :=
  bind token fun _ => ite (fail _ _) (fail _ _)

theorem skip : Relaxes (Functor.discard Parser.bump) := discard bump

theorem atKind (k : TokenKind) : Relaxes (Parser.atKind k) := bind kind fun _ => pure _

theorem atMark (mark : Punctuator) : Relaxes (Parser.atMark mark) := atKind _

theorem atWord (word : Keyword) : Relaxes (Parser.atWord word) := atKind _

/-- The current token and its name decide. -/
theorem atName (name : String) : Relaxes (Parser.atName name) := bind token fun _ => pure _

/-- Whether a line has ended is known to the token. -/
theorem afterNewline : Relaxes Parser.afterNewline := bind token fun _ => pure _

/-- A token is passed on both sides or on neither. -/
theorem eatKind (k : TokenKind) : Relaxes (Parser.eatKind k) :=
  bind (atKind k) fun _ => ite (bind skip fun _ => pure _) (pure _)

theorem eatMark (mark : Punctuator) : Relaxes (Parser.eatMark mark) := eatKind _

theorem eatWord (word : Keyword) : Relaxes (Parser.eatWord word) := eatKind _

/-- A token that is missing is missing on both sides. -/
theorem expectKind (k : TokenKind) : Relaxes (Parser.expectKind k) :=
  bind (atKind k) fun _ => ite bump unexpected

theorem expectMark (mark : Punctuator) : Relaxes (Parser.expectMark mark) := discard (expectKind _)

theorem expectWord (word : Keyword) : Relaxes (Parser.expectWord word) := discard (expectKind _)

theorem expectName (name : String) : Relaxes (Parser.expectName name) :=
  bind (atName name) fun _ => ite skip unexpected

theorem ident : Relaxes Parser.ident := bind (expectKind _) fun _ => pure _

/-- Reserved words are taken for names as well. -/
theorem identName : Relaxes Parser.identName := by
  refine bind kind fun k => ?_
  split
  · exact bind bump fun _ => pure _
  · exact ident

theorem atStatementBreak : Relaxes Parser.atStatementBreak := bind token fun _ => pure _

/-- Where a semicolon may be left out depends on the tokens alone. -/
theorem semicolon : Relaxes Parser.semicolon :=
  bind (eatMark _) fun _ => ite (pure _) (bind atStatementBreak fun _ => ite (pure _) unexpected)

/-- As for `semicolon`, without passing anything. -/
theorem atStatementEnd : Relaxes Parser.atStatementEnd :=
  bind (atMark _) fun _ => ite (pure _) atStatementBreak

/-- The surrounding is read by something that does not look at the options in it. -/
theorem read {f : Surrounding → Parser α} (hf : ∀ env, Relaxes (f env))
    (hsame : ∀ env o, f (env.under o) = f env) : Relaxes (MonadReader.read >>= f) := by
  intro env s r o ho hrun
  show f (env.under o) (env.under o) s = .ok r
  rw [hsame]
  exact hf env ho hrun

/-- A check of the surrounding that asks for less under options that allow more. -/
theorem guard {stray : Surrounding → Bool} {place : Position} {cause : SyntaxCause}
    (hstray : ∀ env o, env.options.Relaxed o → stray env = false → stray (env.under o) = false)
    (hp : Relaxes p) :
    Relaxes (MonadReader.read >>= fun env => if stray env then Parser.fail place cause else p) := by
  intro env s r o ho hrun
  replace hrun : (if stray env then Parser.fail place cause else p) env s = .ok r := hrun
  show (if stray (env.under o) then Parser.fail place cause else p) (env.under o) s = .ok r
  cases hcheck : stray env with
  | true =>
    rw [hcheck] at hrun
    cases hrun
  | false =>
    rw [hcheck] at hrun
    rw [hstray env o ho hcheck]
    exact hp ho hrun

/-! ## Changed surroundings -/

/-- The change of a context does not look at the options. -/
theorem withContext {change : Context → Context} (hp : Relaxes p) :
    Relaxes (p.withContext change) :=
  fun env _ _ _ ho h => @hp { env with context := change env.context } _ _ _ ho h

theorem allowIn (hp : Relaxes p) : Relaxes p.allowIn := hp.withContext

/-- The labels around a body are forgotten, and its options kept. -/
theorem inBody {context : Context} (hp : Relaxes p) : Relaxes (p.inBody context) :=
  fun env _ _ _ ho h => @hp { env with context := context, labels := [] } _ _ _ ho h

/-- One more label does not touch the options. -/
theorem withLabel {name : String} (hp : Relaxes p) : Relaxes (p.withLabel name) :=
  fun env _ _ _ ho h => @hp { env with labels := name :: env.labels } _ _ _ ho h

/-! ## Repetition -/

/-- By induction on the budget, which is the same on both sides. -/
theorem iterate {step : α → Parser (α ⊕ β)} (hstep : ∀ a, Relaxes (step a)) (budget : List Char) :
    ∀ a, Relaxes (Parser.iterate step budget a) := by
  induction budget with
  | nil => exact fun _ => bind here fun _ => fail _ _
  | cons _ budget ih =>
    refine fun a => bind (hstep a) fun r => ?_
    cases r with
    | inl a' => exact ih a'
    | inr b => exact pure b

/-- The budget of a repetition is the text that is left, and that is the same. -/
theorem repeatFrom {step : α → Parser (α ⊕ β)} (hstep : ∀ a, Relaxes (step a)) (a : α) :
    Relaxes (Parser.repeatFrom a step) :=
  fun _ s _ _ ho h => iterate hstep ('\x00' :: '\x00' :: s.lexer.rest) a ho h

/-- The items of a list, and the end of it, are found in the same rounds. -/
theorem collectUntil {stop : Parser Bool} (hstop : Relaxes stop) (hp : Relaxes p) :
    Relaxes (Parser.collectUntil stop p) :=
  repeatFrom (fun _ => bind hstop fun _ => ite (pure _) (bind hp fun _ => pure _)) _

theorem afterCommas (hp : Relaxes p) : Relaxes (Parser.afterCommas p) :=
  collectUntil (bind (eatMark _) fun _ => pure _) hp

/-- An item and the comma that separates it from the next. -/
theorem itemAndComma {close : Punctuator} (hp : Relaxes p) :
    Relaxes (Parser.itemAndComma close p) :=
  bind hp fun _ => bind (atMark _) fun _ => ite (pure _) (bind (expectMark _) fun _ => pure _)

/-- Items separated by commas, up to what closes them. -/
theorem commaSeparated {close : Punctuator} (hp : Relaxes p) :
    Relaxes (Parser.commaSeparated close p) :=
  collectUntil (eatMark _) hp.itemAndComma

/-- As `commaSeparated`, with a last item of another sort. -/
theorem itemsWithRest {close : Punctuator} {rest : Parser α} (hp : Relaxes p)
    (hrest : Relaxes rest) : Relaxes (Parser.itemsWithRest close p rest) := by
  refine repeatFrom (fun items => ?_) _
  refine bind (eatMark _) fun _ => ite (pure _) (bind (atMark _) fun _ => ite ?_ ?_)
  · exact bind hrest fun _ => bind (expectMark _) fun _ => pure _
  · exact bind hp fun _ => pure _

end Relaxes

end Parser

open WithScope.Parser (Relaxes)
open WithScope.Parser.Relaxes

/-! ## Productions that do not contain themselves -/

namespace Grammar

/-- Whether a name is missing is seen from the current token. -/
theorem relaxes_optionalName (isRequired : Bool) (isName : Token → Bool) :
    Relaxes (optionalName isRequired isName) :=
  bind token fun _ => ite (bind ident fun _ => pure _) (ite unexpected (pure _))

/-- An arrow on a line of its own is none under both options. -/
theorem relaxes_atArrow : Relaxes atArrow :=
  bind (atMark _) fun _ => ite (bind afterNewline fun _ => pure _) (pure _)

/-- The word `function` after `async` is seen by looking ahead. -/
theorem relaxes_atAsyncFunction : Relaxes atAsyncFunction :=
  bind (atName _) fun _ => ite (bind peek fun _ => pure _) (pure _)

/-- Whether a word is a modifier is seen from the token after it. -/
theorem relaxes_atModifier (word : String) : Relaxes (atModifier word) :=
  bind (atName _) fun _ => ite (bind peek fun _ => pure _) (pure _)

/-- The modifiers of a method are words and a star. -/
theorem relaxes_methodModifiers : Relaxes methodModifiers := by
  have hstar (kind : MethodKind) (isAsync : Bool) :
      Relaxes (do return ⟨kind, isAsync, ← Parser.eatMark .star⟩ : Parser MethodModifiers) :=
    bind (eatMark _) fun _ => pure _
  refine bind (relaxes_atModifier _) fun _ => ite (bind skip fun _ => hstar _ _) ?_
  refine bind (relaxes_atModifier _) fun _ => ite (bind skip fun _ => pure _) ?_
  exact bind (relaxes_atModifier _) fun _ => ite (bind skip fun _ => pure _) (hstar _ _)

/-- A regular expression is read again from its slash, and its parts are a matter of its text. -/
theorem relaxes_regExp : Relaxes regExp := by
  refine bind rescan fun _ => bind bump fun t => ?_
  split
  · exact pure _
  · exact fail _ _

/-- Where `super` may stand is decided by the token after it. -/
theorem relaxes_superOperand : Relaxes superOperand := by
  refine bind bump fun t => bind kind fun k => ?_
  split
  · exact pure _
  · exact pure _
  · exact pure _
  · exact fail _ _

/-- Literals are single tokens, which no option forbids. -/
theorem relaxes_literal : Relaxes literal := by
  refine bind kind fun k => ?_
  split
  case h_2 => exact relaxes_superOperand
  case h_9 | h_10 => exact relaxes_regExp
  case h_11 => exact unexpected
  all_goals exact bind bump fun _ => pure _

theorem relaxes_memberName : Relaxes memberName :=
  bind (atKind _) fun _ => ite (bind bump fun _ => pure _) (bind identName fun _ => pure _)

/-- The meaning of `new.target` is no matter of options. -/
theorem relaxes_newTarget (start : Position) (word : Token) : Relaxes (newTarget start word) := by
  refine bind identName fun property => ite (fail _ _) ?_
  refine bind context fun around => ite (fail _ _) ?_
  exact bind (spanFrom _) fun _ => pure _

/-- What can be updated is seen from the tree. -/
theorem relaxes_checkUpdateTarget (e : Expr) : Relaxes (checkUpdateTarget e) :=
  ite (pure _) (fail _ _)

/-- Only the context says which operators there are. -/
theorem relaxes_operator? (floor : Nat) : Relaxes (operator? floor) :=
  bind context fun _ => bind kind fun _ => pure _

/-! ## Imports and exports -/

/-- A module declaration may stand where it may under fewer permissions. -/
theorem relaxes_checkModulePosition (start : Position) (isTopLevel : Bool) :
    Relaxes (checkModulePosition start isTopLevel) := by
  intro env s r o ho hrun
  replace hrun : (if env.options.modulesAnywhere then Pure.pure ()
      else if env.options.sourceType ≠ .module then Parser.fail start .moduleDeclarationInScript
      else if !isTopLevel then Parser.fail start .nestedModuleDeclaration
      else Pure.pure () : Parser Unit) env s = .ok r := hrun
  show (if o.modulesAnywhere then Pure.pure ()
      else if o.sourceType ≠ .module then Parser.fail start .moduleDeclarationInScript
      else if !isTopLevel then Parser.fail start .nestedModuleDeclaration
      else Pure.pure () : Parser Unit) (env.under o) s = .ok r
  rw [← ho.sourceType]
  by_cases hany : o.modulesAnywhere = true
  · rw [if_pos hany]
    -- whatever the first side came to, it was no fault
    split at hrun
    · exact hrun
    · split at hrun
      · cases hrun
      · split at hrun
        · cases hrun
        · exact hrun
  · rw [if_neg fun h => hany (ho.modulesAnywhere h)] at hrun
    rw [if_neg hany]
    exact ite (fail _ _) (ite (fail _ _) (pure ())) ho hrun

/-- The text that names a module is a string. -/
theorem relaxes_moduleSource : Relaxes moduleSource := bind (expectKind _) fun _ => pure _

theorem relaxes_moduleName : Relaxes moduleName :=
  bind (atKind _) fun _ =>
    ite (bind relaxes_moduleSource fun _ => pure _) (bind identName fun _ => pure _)

/-- A key, a colon and a value. -/
theorem relaxes_importAttribute : Relaxes importAttribute := by
  refine bind here fun start => bind relaxes_moduleName fun key => ?_
  refine bind (expectMark _) fun colon => bind relaxes_moduleSource fun value => ?_
  exact bind (spanFrom _) fun loc => pure _

/-- Whether there is a `with` clause is seen from its word and the line it is on. -/
theorem relaxes_importAttributes : Relaxes importAttributes := by
  have hstart : Relaxes atImportAttributes :=
    bind (atWord _) fun _ => ite (pure _)
      (bind (atName _) fun _ => ite (bind afterNewline fun _ => pure _) (pure _))
  refine bind hstart fun hasAttributes => ite ?_ (pure _)
  refine bind skip fun word => bind (expectMark _) fun opening => ?_
  exact relaxes_importAttribute.commaSeparated

/-- Without an `as` the name has to be an identifier, whatever the options say. -/
theorem relaxes_importedName (isName : Bool) (name : ModuleName) :
    Relaxes (importedName isName name) := by
  cases name with
  | ident id => exact ite (pure _) (fail _ _)
  | string lit => exact fail _ _

/-- A name in the braces of an import, with another name after `as` or without. -/
theorem relaxes_namedImport : Relaxes namedImport := by
  refine bind here fun start => bind (atKind _) fun isName => ?_
  refine bind relaxes_moduleName fun imported => bind (atName _) fun isRenamed => ite ?_ ?_
  · exact bind skip fun word => bind ident fun name => bind (spanFrom _) fun loc => pure _
  · exact bind (relaxes_importedName _ _) fun name => bind (spanFrom _) fun loc => pure _

/-- A namespace or names in braces. -/
theorem relaxes_importSpecifiers : Relaxes importSpecifiers := by
  refine bind (atMark _) fun _ => ite ?_ ?_
  · refine bind here fun start => bind skip fun star => ?_
    refine bind (expectName _) fun word => bind ident fun name => ?_
    exact bind (spanFrom _) fun loc => pure _
  · exact bind (expectMark _) fun _ => relaxes_namedImport.commaSeparated

/-- A default name, with more after a comma or without, up to the word `from`. -/
theorem relaxes_importClause : Relaxes importClause := by
  have hfrom (specifiers : List ImportSpecifier) :
      Relaxes (do Parser.expectName "from"; return specifiers) :=
    bind (expectName _) fun _ => pure _
  refine bind (atKind _) fun _ => ite (bind ident fun id => bind (eatMark _) fun _ => ?_) ?_
  · exact join relaxes_importSpecifiers (pure _) fun _ => bind (pure _) hfrom
  · exact bind relaxes_importSpecifiers hfrom

/-- Where an import may stand has been asked before it is read. -/
theorem relaxes_importDeclaration : Relaxes importDeclaration := by
  refine bind here fun start => bind (expectWord _) fun word => bind (atKind _) fun isBare => ?_
  refine join (pure _) relaxes_importClause fun specifiers => ?_
  refine bind relaxes_moduleSource fun source => bind relaxes_importAttributes fun attributes => ?_
  exact bind semicolon fun ended => bind (spanFrom _) fun loc => pure _

/-- A name in the braces of an export, with another name after `as` or without. -/
theorem relaxes_exportSpecifier : Relaxes exportSpecifier := by
  refine bind here fun _ => bind relaxes_moduleName fun _ => bind (atName _) fun _ => ite ?_ ?_
  · exact bind skip fun _ => bind relaxes_moduleName fun _ => bind (spanFrom _) fun _ => pure _
  · exact bind (pure _) fun _ => bind (spanFrom _) fun _ => pure _

/-- What an export of everything is called, and where it comes from. -/
theorem relaxes_exportAll (start : Position) : Relaxes (exportAll start) := by
  have hrest (exported : Option ModuleName) :
      Relaxes (do Parser.expectName "from"
                  let source ← moduleSource
                  let attributes ← importAttributes
                  Parser.semicolon
                  return .exportAll (← Parser.spanFrom start) exported source attributes :
                Parser ModuleDecl) := by
    refine bind (expectName _) fun word => bind relaxes_moduleSource fun source => ?_
    refine bind relaxes_importAttributes fun attributes => bind semicolon fun ended => ?_
    exact bind (spanFrom _) fun loc => pure _
  refine bind (atName _) fun _ => ite ?_ (bind (pure _) hrest)
  exact bind skip fun _ => bind relaxes_moduleName.map hrest

/-- An export list, of names of this module or of another one. -/
theorem relaxes_exportList (start : Position) : Relaxes (exportList start) := by
  refine bind relaxes_exportSpecifier.commaSeparated fun _ => bind (atName _) fun _ => ite ?_ ?_
  · refine bind skip fun word => bind relaxes_moduleSource fun source => ?_
    refine bind relaxes_importAttributes fun attributes => bind semicolon fun ended => ?_
    exact bind (spanFrom _) fun loc => pure _
  · exact bind semicolon fun _ => bind (spanFrom _) fun _ => pure _

/-- Whether `let` declares something is seen from the token after it. -/
theorem relaxes_atLetDeclaration : Relaxes atLetDeclaration :=
  bind (atName _) fun _ => ite (bind peek fun _ => pure _) (pure _)

/-- Whether something can be exported is seen from the tokens at its beginning. -/
theorem relaxes_atExportable : Relaxes atExportable := by
  refine bind kind fun k => ?_
  split
  case h_5 =>
    exact bind relaxes_atLetDeclaration fun _ => ite (pure _) relaxes_atAsyncFunction
  all_goals exact pure _

/-! ## Parts of statements -/

theorem relaxes_varKind : Relaxes varKind := by
  refine bind bump fun t => ?_
  split <;> exact pure _

/-- The names that a pattern declares are found in the tree. -/
theorem relaxes_checkLexicalNames (kind : VarKind) (id : Pat) :
    Relaxes (checkLexicalNames kind id) := by
  refine ite ?_ (pure _)
  split
  · exact fail _ _
  · exact pure _

theorem relaxes_atVarDecl : Relaxes atVarDecl := by
  refine bind kind fun k => ?_
  split
  · exact pure _
  · exact pure _
  · exact relaxes_atLetDeclaration

theorem relaxes_atCaseEnd : Relaxes atCaseEnd := by
  refine bind kind fun k => ?_
  split <;> exact pure _

/-- The target of a loop is made of what has been read before. -/
theorem relaxes_forTarget (init : ForInit) : Relaxes (forTarget init) := by
  unfold forTarget
  split
  · split
    · exact pure _
    · exact fail _ _
  · exact bind (ofExcept _) fun _ => pure _

/-- Whether `await` is an operator is said by the context. -/
theorem relaxes_eatAwait : Relaxes eatAwait :=
  bind context fun _ => bind token fun _ => ite (bind skip fun _ => pure _) (pure _)

/-- The label of a jump is on the line of the jump. -/
theorem relaxes_jumpLabel : Relaxes jumpLabel :=
  bind (atKind _) fun _ => ite
    (bind afterNewline fun _ => ite (pure _) (bind ident fun _ => pure _)) (pure _)

/-- What a jump may jump to is no matter of options. -/
theorem relaxes_checkJump (start : Position) (isBreak : Bool) (label : Option Ident) :
    Relaxes (checkJump start isBreak label) := by
  refine read (fun env => ?_) fun _ _ => rfl
  dsimp only
  split
  · exact fail _ _
  · exact ite (pure _) (ite (fail _ _) (ite (fail _ _) (pure _)))

/-- What a jump may go to is in the labels and the context. -/
theorem relaxes_jumpStatement (start : Position) (isBreak : Bool) :
    Relaxes (jumpStatement start isBreak) := by
  refine bind skip fun word => bind relaxes_jumpLabel fun label => ?_
  refine bind (relaxes_checkJump _ _ _) fun checked => bind semicolon fun ended => ?_
  exact bind (spanFrom _) fun loc => pure _

theorem relaxes_debuggerStatement (start : Position) : Relaxes (debuggerStatement start) :=
  bind skip fun _ => bind semicolon fun _ => bind (spanFrom _) fun _ => pure _

end Grammar

end WithScope
