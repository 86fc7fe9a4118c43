import WithScope.Grammar.Statement

/-!
# Programs

The grammar `Grammar.nest n` reads what is nested at most `n` levels deep. It is made of the
productions over `Grammar.nest (n - 1)`, and a program is read with `Grammar.maxNesting` levels.
-/

namespace WithScope

namespace Grammar

/-- The grammar with one more level of nesting around another. -/
def deeper (g : Grammar) : Grammar where
  statement := g.statementBody
  assignment := g.assignmentBody
  operation := g.operationBody
  unary := g.unaryBody
  leftHandSide := g.leftHandSideBody
  newExpr := g.newBody
  arrayPattern := g.arrayPatternBody
  objectPattern := g.objectPatternBody

/-- The grammar of what is nested at most the given number of levels. -/
def nest : Nat → Grammar
  | 0 => limit
  | n + 1 => (nest n).deeper

/-- How many levels of nesting are followed. -/
def maxNesting : Nat := 100

open WithScope.Parser

/-- Statements up to the end of the text. -/
def program (g : Grammar) : Parser Program := do
  let start ← here
  let body ← collectUntil (atKind .eof) (g.statement true)
  return ⟨⟨start, (← token).span.stop⟩, (← read).options.sourceType, body⟩

end Grammar

/-- The surrounding of a whole text. Directly in a module `await` is an operator. -/
def Options.surrounding (options : Options) : Surrounding :=
  ⟨options, { Context.empty with awaitAllowed := options.sourceType = .module }, []⟩

/-- The program that a text spells, or its first fault. -/
def parse (options : Options) (source : List Char) : Except SyntaxError Program :=
  match (Lexer.ofSource source).next with
  | (.error e, _) => .error e
  | (.ok first, lexer) =>
    Prod.fst <$> (Grammar.nest Grammar.maxNesting).program options.surrounding
      ⟨lexer, first, Position.origin⟩

end WithScope
