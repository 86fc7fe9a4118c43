import WithScope.Text.Slice
import WithScope.Token.Reading
import WithScope.Token.Trivia

/-!
# The lexer

A `Lexer` stands at a place in a text and gives the tokens from there on, one by one. Besides the
place it knows how many braces are open, and how many were open where each open substitution of a
template began: a closing brace at that depth ends the substitution and resumes the template.

A lexer goes on after a fault, from where the fault left it.
-/

namespace WithScope

/-- A reader of tokens within a text. -/
structure Lexer where
  /-- the whole text -/
  source : List Char
  /-- the text not yet read -/
  rest : List Char
  /-- where the unread text begins -/
  position : Position
  /-- how many braces are open -/
  depth : Nat
  /-- the depths at which the open substitutions began, the innermost first -/
  substitutions : List Nat

namespace Lexer

/-- The lexer at the beginning of a text. -/
def ofSource (source : List Char) : Lexer := ⟨source, source, .origin, 0, []⟩

/-- The lexer after a token of the given kind, as far as open delimiters go. -/
def track (l : Lexer) : TokenKind → Lexer
  | .punctuator .leftBrace => { l with depth := l.depth + 1 }
  | .punctuator .rightBrace => { l with depth := l.depth - 1 }
  | .templateHead | .templateMiddle => { l with substitutions := l.depth :: l.substitutions }
  | _ => l

/-- Moves a lexer past a reading that began at `start`, and gives the token read. -/
def advance (l : Lexer) (start : Position) (newlineBefore : Bool) (r : Reading) :
    Except SyntaxError Token × Lexer :=
  let stop := start.after r.text
  let moved := { l with rest := r.rest, position := stop }
  match r.outcome with
  | .ok (kind, value) =>
    (.ok ⟨kind, value, ⟨start, stop⟩, String.ofList r.text, newlineBefore⟩, moved.track kind)
  | .error fault => (.error ⟨.lexical fault.cause, fault.place.position start⟩, moved)

/-- The next token, or the fault in its place, and the lexer after it. At the end of the text there
is always one more token, of kind `eof`. -/
def next (l : Lexer) : Except SyntaxError Token × Lexer :=
  let gap := skipTrivia (l.position.offset == 0) l.rest
  let start := l.position.after gap.text
  match gap.rest, l.substitutions with
  | '}' :: cs, depth :: outer =>
    if depth = l.depth then
      advance { l with substitutions := outer } start gap.newline (readTemplate true '}' cs)
    else advance l start gap.newline (readToken gap.rest)
  | _, _ => advance l start gap.newline (readToken gap.rest)

/-- Goes back to a token and reads it as a regular expression, as is due where an operand may
begin. -/
def rescanRegExp (l : Lexer) (slash : Token) : Except SyntaxError Token × Lexer :=
  advance l slash.span.start slash.newlineBefore
    (readRegExp (dropBytes slash.span.start.offset l.source))

/-- The tokens from a lexer's place to the end of the text, without the last one of kind `eof`; at
most one for each element of the budget. -/
def tokensWithin : List Char → Lexer → Except SyntaxError (List Token)
  | [], l => .error ⟨.budgetSpent, l.position⟩
  | _ :: budget, l =>
    match l.next with
    | (.error e, _) => .error e
    | (.ok token, l) =>
      if token.kind = .eof then .ok [] else (token :: ·) <$> tokensWithin budget l

end Lexer

/-- All tokens of a text, or its first fault. A text has no more tokens than characters, and the
end. -/
def tokens (source : List Char) : Except SyntaxError (List Token) :=
  Lexer.tokensWithin ('\x00' :: source) (.ofSource source)

end WithScope
