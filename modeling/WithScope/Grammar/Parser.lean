import WithScope.Syntax.Leaf
import WithScope.Token.Lexer

/-!
# Parsers

A `Parser` reads a stretch of tokens in a surrounding: the options of the whole text, what the
enclosing functions and loops allow, and the labels in scope. Its state is one token of lookahead
and the lexer behind it. The first fault ends it.

Repetitions run through `repeatFrom`, which goes round at most once per character left to read.
-/

namespace WithScope

/-- How a text is to be read. -/
structure Options where
  /-- as a script or as a module -/
  sourceType : SourceType
  /-- whether `return` may stand outside of functions -/
  returnAnywhere : Bool
  /-- whether imports and exports may stand in scripts and inside of other statements -/
  modulesAnywhere : Bool
deriving DecidableEq, Repr

/-- What the surrounding constructs allow. -/
structure Context where
  /-- inside of a function body or its parameters -/
  inFunction : Bool
  /-- where `await` is an operator -/
  awaitAllowed : Bool
  /-- where `yield` is an operator -/
  yieldAllowed : Bool
  /-- at the head of a `for` loop, where `in` is no operator -/
  noIn : Bool
  /-- inside of a function that is no arrow, or a class element, where `new.target` has a meaning -/
  newTarget : Bool
  /-- inside of a loop body -/
  inLoop : Bool
  /-- inside of a `switch` body -/
  inSwitch : Bool
deriving DecidableEq, Repr

/-- The context that allows nothing. -/
def Context.empty : Context := ⟨false, false, false, false, false, false, false⟩

/-- What a parser reads in. -/
structure Surrounding where
  /-- how the whole text is read -/
  options : Options
  /-- what the enclosing constructs allow -/
  context : Context
  /-- the labels in scope, the innermost first -/
  labels : List String
deriving DecidableEq, Repr

/-- How far a parser has read. -/
structure ParserState where
  /-- the lexer behind the current token -/
  lexer : Lexer
  /-- the current token -/
  token : Token
  /-- where the token before it ends -/
  lastEnd : Position

/-- A reader of tokens. -/
abbrev Parser := ReaderT Surrounding (StateT ParserState (Except SyntaxError))

namespace Parser

/-! ## The current token -/

/-- The current token. -/
def token : Parser Token := do return (← get).token

/-- The kind of the current token. -/
def kind : Parser TokenKind := do return (← get).token.kind

/-- Where the current token begins. -/
def here : Parser Position := do return (← get).token.span.start

/-- The stretch from `start` to the end of the last token read. -/
def spanFrom (start : Position) : Parser Span := do return ⟨start, (← get).lastEnd⟩

/-- Ends the reading with a fault. -/
def fail {α : Type} (at_ : Position) (cause : SyntaxCause) : Parser α := throw ⟨cause, at_⟩

/-- Ends the reading because the current token cannot stand here. -/
def unexpected {α : Type} : Parser α := do
  let t ← token
  if t.kind = .eof then fail t.span.start .unexpectedEnd
  else fail t.span.start (.unexpectedToken t.spelling)

/-- Moves on by one token and gives the one that was current. -/
def bump : Parser Token := do
  let s ← get
  match s.lexer.next with
  | (.error e, _) => throw e
  | (.ok t, lexer) =>
    set (⟨lexer, t, s.token.span.stop⟩ : ParserState)
    return s.token

/-- The token after the current one. -/
def peek : Parser Token := do
  match (← get).lexer.next.1 with
  | .error e => throw e
  | .ok t => return t

/-- Reads the current token again, as a regular expression. -/
def rescan : Parser Unit := do
  let s ← get
  match s.lexer.rescanRegExp s.token with
  | (.error e, _) => throw e
  | (.ok t, lexer) => set (⟨lexer, t, s.lastEnd⟩ : ParserState)

/-- Whether the current token is of the given kind. -/
def atKind (k : TokenKind) : Parser Bool := do return (← kind) = k

/-- Whether the current token is the given punctuator. -/
def atMark (mark : Punctuator) : Parser Bool := atKind (.punctuator mark)

/-- Whether the current token is the given reserved word. -/
def atWord (word : Keyword) : Parser Bool := atKind (.keyword word)

/-- Whether the current token is the identifier `name`. -/
def atName (name : String) : Parser Bool := do return (← token).isIdentifier name

/-- Whether a line ends before the current token. -/
def afterNewline : Parser Bool := do return (← token).newlineBefore

/-- Moves past a token of the given kind, if it is the current one. -/
def eatKind (k : TokenKind) : Parser Bool := do
  if ← atKind k then
    discard bump
    return true
  else return false

/-- Moves past the given punctuator, if it is the current token. -/
def eatMark (mark : Punctuator) : Parser Bool := eatKind (.punctuator mark)

/-- Moves past the given reserved word, if it is the current token. -/
def eatWord (word : Keyword) : Parser Bool := eatKind (.keyword word)

/-- Moves past a token of the given kind, which has to be there. -/
def expectKind (k : TokenKind) : Parser Token := do
  if ← atKind k then bump else unexpected

/-- Moves past the given punctuator, which has to be there. -/
def expectMark (mark : Punctuator) : Parser Unit := discard (expectKind (.punctuator mark))

/-- Moves past the given reserved word, which has to be there. -/
def expectWord (word : Keyword) : Parser Unit := discard (expectKind (.keyword word))

/-- Moves past the identifier `name`, which has to be there. -/
def expectName (name : String) : Parser Unit := do
  if ← atName name then discard bump else unexpected

/-! ## The surrounding -/

/-- The context. -/
def context : Parser Context := do return (← read).context

/-- Runs a parser in a changed context. -/
def withContext {α : Type} (change : Context → Context) (p : Parser α) : Parser α := fun env =>
  p { env with context := change env.context }

/-- Runs a parser where `in` is an operator, as it is inside of brackets. -/
def allowIn {α : Type} : Parser α → Parser α :=
  withContext fun context => { context with noIn := false }

/-- Runs a parser inside of a function or class element: in a context of its own, and out of reach
of the labels around it. -/
def inBody {α : Type} (context : Context) (p : Parser α) : Parser α := fun env =>
  p { env with context := context, labels := [] }

/-- Runs a parser inside of a statement with the given label. -/
def withLabel {α : Type} (name : String) (p : Parser α) : Parser α := fun env =>
  p { env with labels := name :: env.labels }

/-! ## Repetition -/

/-- Goes round until a step gives a result, at most once for each element of the budget. -/
def iterate {α β : Type} (step : α → Parser (α ⊕ β)) : List Char → α → Parser β
  | [], _ => do fail (← here) .budgetSpent
  | _ :: budget, a => do
    match ← step a with
    | .inl a => iterate step budget a
    | .inr b => return b

/-- Goes round until a step gives a result. Every round but the last moves past a token; those left
are the current one and no more than there are characters, so the budget is never spent. -/
def repeatFrom {α β : Type} (a : α) (step : α → Parser (α ⊕ β)) : Parser β := do
  iterate step ('\x00' :: '\x00' :: (← get).lexer.rest) a

/-- Items up to where `stop` holds. -/
def collectUntil {α : Type} (stop : Parser Bool) (item : Parser α) : Parser (List α) :=
  repeatFrom [] fun items => do
    if ← stop then return .inr items.reverse
    else return .inl ((← item) :: items)

/-- Further items, each after a comma. -/
def afterCommas {α : Type} (item : Parser α) : Parser (List α) :=
  collectUntil (do return !(← eatMark .comma)) item

/-- An item, and the comma that separates it from another unless `close` follows. -/
def itemAndComma {α : Type} (close : Punctuator) (item : Parser α) : Parser α := do
  let x ← item
  if ← atMark close then return x
  else
    expectMark .comma
    return x

/-- Items separated by commas, and past the punctuator that closes them. -/
def commaSeparated {α : Type} (close : Punctuator) (item : Parser α) : Parser (List α) :=
  collectUntil (eatMark close) (itemAndComma close item)

/-- Items, with the commas that they need, and past the punctuator that closes them. An item that
begins with `...` is read by `rest` and must be the last. -/
def itemsWithRest {α : Type} (close : Punctuator) (item rest : Parser α) : Parser (List α) :=
  repeatFrom [] fun items => do
    if ← eatMark close then return .inr items.reverse
    else if ← atMark .dotDotDot then
      let last ← rest
      expectMark close
      return .inr (last :: items).reverse
    else return .inl ((← item) :: items)

/-! ## Names and the ends of statements -/

/-- An identifier. -/
def ident : Parser Ident := do
  let t ← expectKind .identifier
  return ⟨t.span, t.text⟩

/-- An identifier or a reserved word, as after a point. -/
def identName : Parser Ident := do
  match ← kind with
  | .keyword _ =>
    let t ← bump
    return ⟨t.span, t.spelling⟩
  | _ => ident

/-- Whether a statement may end before the current token without a semicolon. -/
def atStatementBreak : Parser Bool := do
  let t ← token
  return t.kind = .punctuator .rightBrace || t.kind = .eof || t.newlineBefore

/-- The semicolon that ends a statement, which may be left out before a brace, a line end or the
end of the text. -/
def semicolon : Parser Unit := do
  if ← eatMark .semicolon then return ()
  else if ← atStatementBreak then return ()
  else unexpected

/-- Whether a statement ends here, with a semicolon or without. -/
def atStatementEnd : Parser Bool := do
  if ← atMark .semicolon then return true else atStatementBreak

end Parser

end WithScope
