import WithScope.Grammar.Program
import WithScope.Proofs.Token.Names

/-!
# A name is one expression statement

A text that is a name which nothing reserves is read as a program of one statement, and the
statement is the name. The words that mean something to the grammar without being reserved, such as
`async`, are names too where nothing follows them.
-/

namespace WithScope

namespace Parser

variable {α β : Type} {env : Surrounding} {s s' : ParserState}

/-- A parser that succeeds goes on with what it gives. -/
theorem run_bind {p : Parser α} {a : α} (h : p env s = .ok (a, s')) (f : α → Parser β) :
    (p >>= f) env s = f a env s' := by
  show (p env s >>= fun r => f r.1 env r.2) = _
  rw [h]
  rfl

/-- A round that gives a result is the last one. -/
theorem run_repeatFrom {step : α → Parser (α ⊕ β)} {a : α} {b : β}
    (h : step a env s = .ok (.inr b, s')) : repeatFrom a step env s = .ok (b, s') := by
  rw [repeatFrom, run_bind (p := get) (s := s) rfl, iterate, run_bind h]
  rfl

/-- Two rounds, of which the second gives a result. -/
theorem run_repeatFrom_twice {step : α → Parser (α ⊕ β)} {a c : α} {b : β} {t : ParserState}
    (h₁ : step a env s = .ok (.inl c, t)) (h₂ : step c env t = .ok (.inr b, s')) :
    repeatFrom a step env s = .ok (b, s') := by
  rw [repeatFrom, run_bind (p := get) (s := s) rfl, iterate, run_bind h₁]
  simp only
  rw [iterate, run_bind h₂]
  rfl

/-! ### Steps that only look -/

/-- The place of the next token is where it starts. -/
theorem run_here {f : Position → Parser β} : (here >>= f) env s = f s.token.span.start env s := rfl

/-- The kind that is asked for is that of the next token. -/
theorem run_kind {f : TokenKind → Parser β} : (kind >>= f) env s = f s.token.kind env s := rfl

/-- The token that is asked for is the next one. -/
theorem run_token {f : Token → Parser β} : (token >>= f) env s = f s.token env s := rfl

/-- The context that is asked for is that of the surrounding. -/
theorem run_context {f : Context → Parser β} : (context >>= f) env s = f env.context env s := rfl

/-- A kind is compared with that of the next token. -/
theorem run_atKind {k : TokenKind} {f : Bool → Parser β} :
    (atKind k >>= f) env s = f (s.token.kind = k) env s := rfl

/-- A name is compared with that of the next token. -/
theorem run_atName {name : String} {f : Bool → Parser β} :
    (atName name >>= f) env s = f (s.token.isIdentifier name) env s := rfl

/-- A value that is given leaves the state as it is. -/
theorem run_pure {a : α} : (pure a : Parser α) env s = .ok (a, s) := rfl

end Parser

/-! ## Before and after the name -/

/-- The identifier that a text is. -/
def Ident.whole (cs : List Char) : Ident := ⟨⟨.origin, Position.origin.after cs⟩, String.ofList cs⟩

namespace ParserState

/-- A parser in front of a text that is a name. -/
def onName (cs : List Char) : ParserState := ⟨Lexer.atEnd cs, Lexer.wholeName cs, .origin⟩

/-- A parser behind a text that is a name. -/
def pastName (cs : List Char) : ParserState :=
  ⟨Lexer.atEnd cs, Lexer.endOfText (Position.origin.after cs), Position.origin.after cs⟩

/-- The first token is a name. -/
theorem onName_kind (cs : List Char) : (onName cs).token.kind = .identifier := rfl

/-- After the name the text ends. -/
theorem pastName_kind (cs : List Char) : (pastName cs).token.kind = .eof := rfl

end ParserState

open WithScope.Parser ParserState

variable {env : Surrounding} {cs : List Char} {g : Grammar}

/-- Passing the name leads to the end of the text. -/
theorem bump_onName : bump env (onName cs) = .ok (Lexer.wholeName cs, pastName cs) := by
  unfold bump
  rw [run_bind (p := get) (s := onName cs) rfl]
  simp only [onName, Lexer.next_atEnd]
  rfl

/-- The token after the name is the end of the text. -/
theorem peek_onName :
    peek env (onName cs) = .ok (Lexer.endOfText (Position.origin.after cs), onName cs) := by
  unfold peek
  rw [run_bind (p := get) (s := onName cs) rfl]
  simp only [onName, Lexer.next_atEnd]
  rfl

/-- An identifier is read, and it is the whole text. -/
theorem ident_onName : ident env (onName cs) = .ok (.whole cs, pastName cs) :=
  run_bind (p := expectKind .identifier) (s := onName cs) bump_onName _

namespace Grammar

/-! ## Expressions -/

section

attribute [local simp] run_here run_kind run_token run_context run_atKind run_atName run_pure
  onName_kind pastName_kind

/-- Nothing that would go on with an expression stands at the end of the text. -/
theorem eatMark_pastName (mark : Punctuator) :
    eatMark mark env (pastName cs) = .ok (false, pastName cs) := rfl

/-- No arrow follows. -/
theorem atArrow_pastName : atArrow env (pastName cs) = .ok (false, pastName cs) := rfl

/-- So the name is no parameter of an arrow function. -/
theorem nameOrArrow_onName (start : Position) :
    g.nameOrArrow start env (onName cs) = .ok (.ident (.whole cs), pastName cs) := by
  simp [nameOrArrow, run_bind ident_onName, run_bind atArrow_pastName]

/-- The end of the text is no `function`. -/
theorem atAsyncFunction_onName : atAsyncFunction env (onName cs) = .ok (false, onName cs) := by
  rw [atAsyncFunction, run_atName]
  split
  · exact run_bind peek_onName _
  · rfl

/-- The name is read as an expression, as it starts nothing else. -/
theorem identifierExpression_onName :
    g.identifierExpression env (onName cs) = .ok (.ident (.whole cs), pastName cs) := by
  rw [identifierExpression, run_here, run_bind atAsyncFunction_onName, if_neg Bool.false_ne_true,
    run_atName]
  split
  · rw [run_bind peek_onName]
    exact nameOrArrow_onName _
  · exact nameOrArrow_onName _

/-- As an operand the name is itself. -/
theorem primary_onName :
    g.primary env (onName cs) = .ok (.ident (.whole cs), pastName cs) := by
  simp [primary, identifierExpression_onName]

/-- Nothing is called or accessed at the end of the text. -/
theorem accesses_pastName (start : Position) (e : Expr) :
    accesses (g.access? start) e env (pastName cs) = .ok (e, pastName cs) :=
  run_repeatFrom rfl

/-- No member and no call follows. -/
theorem leftHandSideBody_onName :
    g.leftHandSideBody env (onName cs) = .ok (.ident (.whole cs), pastName cs) := by
  simp [leftHandSideBody, atWord, run_bind primary_onName, Expr.isArrow, accesses_pastName]

/-- No `++` and no `--` follows. -/
theorem postfixOperand_onName (start : Position) :
    g.postfixOperand start env (onName cs) = .ok (.ident (.whole cs), pastName cs) := by
  simp [postfixOperand, run_bind leftHandSideBody_onName, updateOp?]

/-- Unless it is `await`, the name is no operator. -/
theorem unaryBody_onName (hawait : (onName cs).token.isIdentifier "await" = false) :
    g.unaryBody env (onName cs) = .ok (.ident (.whole cs), pastName cs) := by
  simp [unaryBody, unaryOp?, updateOp?, hawait, postfixOperand_onName]

/-- No operator follows. -/
theorem operations_pastName (start : Position) (floor : Nat) (e : Expr) :
    g.operations start floor e env (pastName cs) = .ok (e, pastName cs) :=
  run_repeatFrom rfl

/-- So the operation is its first operand. -/
theorem operationBody_onName (hawait : (onName cs).token.isIdentifier "await" = false) (floor : Nat) :
    g.operationBody floor env (onName cs) = .ok (.ident (.whole cs), pastName cs) := by
  simp [operationBody, run_bind (unaryBody_onName hawait), Expr.isArrow, operations_pastName]

/-- No `?` follows. -/
theorem conditional_onName (hawait : (onName cs).token.isIdentifier "await" = false) :
    g.conditional env (onName cs) = .ok (.ident (.whole cs), pastName cs) := by
  simp [conditional, run_bind (operationBody_onName hawait 0), Expr.isArrow,
    run_bind (eatMark_pastName _)]

/-- No `=` follows. -/
theorem conditionalOrAssignment_onName (hawait : (onName cs).token.isIdentifier "await" = false) :
    g.conditionalOrAssignment env (onName cs) = .ok (.ident (.whole cs), pastName cs) := by
  simp [conditionalOrAssignment, run_bind (conditional_onName hawait), assignOp?]

/-- Unless it is `yield`, the name is read as an operand. -/
theorem assignmentBody_onName (hawait : (onName cs).token.isIdentifier "await" = false)
    (hyield : (onName cs).token.isIdentifier "yield" = false) :
    g.assignmentBody env (onName cs) = .ok (.ident (.whole cs), pastName cs) := by
  simp [assignmentBody, hyield, conditionalOrAssignment_onName hawait]

/-- An expression without commas is all there is. -/
theorem expression_onName
    (h : g.assignment env (onName cs) = .ok (.ident (.whole cs), pastName cs)) :
    g.expression env (onName cs) = .ok (.ident (.whole cs), pastName cs) := by
  simp [expression, run_bind h, atMark]

/-! ## Statements -/

/-- The statement that a name is. -/
def nameStatement (cs : List Char) : Stmt :=
  .expr ⟨.origin, Position.origin.after cs⟩ (.ident (.whole cs))

/-- The end of the text stands for a semicolon. -/
theorem semicolon_pastName : semicolon env (pastName cs) = .ok ((), pastName cs) := rfl

/-- The name is a statement with what has been read. -/
theorem expressionStatement_onName
    (h : g.assignment env (onName cs) = .ok (.ident (.whole cs), pastName cs)) :
    g.expressionStatement .origin env (onName cs) = .ok (nameStatement cs, pastName cs) := by
  rw [expressionStatement, run_bind (expression_onName h), run_bind semicolon_pastName]
  rfl

/-- Unless it is `let`, the name starts no declaration. -/
theorem atLetDeclaration_onName (hlet : (onName cs).token.isIdentifier "let" = false) :
    atLetDeclaration env (onName cs) = .ok (false, onName cs) := by
  simp [atLetDeclaration, hlet]

/-- No label, since no colon stands at the end of the text. -/
theorem statementAtName_onName
    (h : g.assignment env (onName cs) = .ok (.ident (.whole cs), pastName cs))
    (hlet : (onName cs).token.isIdentifier "let" = false) :
    g.statementAtName .origin env (onName cs) = .ok (nameStatement cs, pastName cs) := by
  rw [statementAtName, run_bind (atLetDeclaration_onName hlet), if_neg Bool.false_ne_true,
    run_bind atAsyncFunction_onName, if_neg Bool.false_ne_true, run_bind peek_onName]
  exact expressionStatement_onName h

/-- So the statement is an expression. -/
theorem statementBody_onName
    (h : g.assignment env (onName cs) = .ok (.ident (.whole cs), pastName cs))
    (hlet : (onName cs).token.isIdentifier "let" = false) (isTopLevel : Bool) :
    g.statementBody isTopLevel env (onName cs) = .ok (nameStatement cs, pastName cs) := by
  rw [statementBody, run_here, run_kind]
  exact statementAtName_onName h hlet

/-! ## Programs -/

/-- The program of one statement that a name is. -/
def nameProgram (sourceType : SourceType) (cs : List Char) : Program :=
  ⟨⟨.origin, Position.origin.after cs⟩, sourceType, [nameStatement cs]⟩

/-- The program is this one statement. -/
theorem program_onName
    (h : g.statement true env (onName cs) = .ok (nameStatement cs, pastName cs)) :
    g.program env (onName cs) = .ok (nameProgram env.options.sourceType cs, pastName cs) := by
  have hbody : collectUntil (atKind .eof) (g.statement true) env (onName cs) =
      .ok ([nameStatement cs], pastName cs) := by
    refine run_repeatFrom_twice (c := [nameStatement cs]) (t := pastName cs) ?_ ?_
    · rw [run_atKind, onName_kind, if_neg (by decide)]
      exact run_bind h _
    · rw [run_atKind, pastName_kind, if_pos (by decide)]
      rfl
  rw [program, run_here, run_bind hbody]
  rfl

end

end Grammar

/-- A name that nothing reserves is read as one statement, and this is the name. -/
theorem parse_of_isValidIdentifier (options : Options) {name : String}
    (h : isValidIdentifier name) :
    parse options name.toList = .ok (Grammar.nameProgram options.sourceType name.toList) := by
  have hofList : String.ofList name.toList = name := String.ofList_toList
  simp only [isValidIdentifier, Bool.and_eq_true, Option.isNone_iff_eq_none, Bool.not_eq_true',
    List.contains_eq_mem, decide_eq_false_iff_not] at h
  obtain ⟨⟨hname, hfree⟩, hstrict⟩ := h
  have hword (word : String) (hword : word ∈ strictReserved) :
      (onName name.toList).token.isIdentifier word = false := by
    have hne : name ≠ word := fun heq => hstrict (heq ▸ hword)
    simp [Token.isIdentifier, onName, Lexer.wholeName, Token.text, hne]
  have hassignment : (Grammar.nest 99).assignment options.surrounding (onName name.toList) =
      .ok (.ident (.whole name.toList), pastName name.toList) :=
    Grammar.assignmentBody_onName (hword "await" (by decide)) (hword "yield" (by decide))
  have hprogram := Grammar.program_onName (g := Grammar.nest Grammar.maxNesting)
    (Grammar.statementBody_onName hassignment (hword "let" (by decide)) true)
  rw [parse, Lexer.next_of_isName hname (by rwa [hofList])]
  show Prod.fst <$> (Grammar.nest Grammar.maxNesting).program options.surrounding
    (onName name.toList) = _
  rw [hprogram]
  rfl

end WithScope
