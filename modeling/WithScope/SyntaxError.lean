import WithScope.Text.Escape
import WithScope.Text.Quoted

/-!
# Syntax errors

The first fault of a text ends its reading. `LexicalCause` and `SyntaxCause` name what can be
wrong; `message` puts it in words.
-/

namespace WithScope

/-- What can be wrong with the spelling of a single token. -/
inductive LexicalCause
  /-- a block comment without its end -/
  | unterminatedComment
  /-- a string literal without its closing quote on the line -/
  | unterminatedString
  /-- a template without its closing quote -/
  | unterminatedTemplate
  /-- a regular expression without its closing slash on the line -/
  | unterminatedRegExp
  /-- an illegal escape in a string literal or, by its code point, in a name -/
  | escape (cause : EscapeCause)
  /-- a backslash in a name that does not begin `\u` -/
  | escapeInName
  /-- an escape for a character that cannot stand there in a name -/
  | escapedCharInName
  /-- a name or digit right after a numeral -/
  | nameAfterNumeral
  /-- a `#` without a name -/
  | strayHash
  /-- a character that begins no token -/
  | unexpectedChar (c : Char)
deriving DecidableEq, Repr

/-- The cause in words. -/
def LexicalCause.message : LexicalCause → String
  | .unterminatedComment => "unterminated block comment"
  | .unterminatedString => "unterminated string literal"
  | .unterminatedTemplate => "unterminated template literal"
  | .unterminatedRegExp => "unterminated regular expression literal"
  | .escape cause => cause.message
  | .escapeInName => "invalid escape in identifier"
  | .escapedCharInName => "invalid identifier escape"
  | .nameAfterNumeral => "identifier starts immediately after numeric literal"
  | .strayHash => "invalid or unexpected token '#'"
  | .unexpectedChar c => "unexpected character " ++ String.ofList (quotedChar c)

/-- What can be wrong with a program. -/
inductive SyntaxCause
  /-- a token is misspelled -/
  | lexical (cause : LexicalCause)
  /-- the text ends where more is due -/
  | unexpectedEnd
  /-- a token, given by its spelling, that cannot stand where it does -/
  | unexpectedToken (text : String)
  /-- a reserved word where a name has to be bound or read -/
  | unexpectedKeyword (name : String)
  /-- more statements, expressions and patterns inside each other than are followed -/
  | nestingTooDeep
  /-- a repetition that goes on longer than the text has tokens; no text has this fault -/
  | budgetSpent
  /-- a `return` that would leave no function -/
  | returnOutsideFunction
  /-- a line break between `throw` and its argument -/
  | newlineAfterThrow
  /-- a `break` or `continue` with a label that is not in scope -/
  | undefinedLabel (name : String)
  /-- a label inside a statement with the same label -/
  | duplicateLabel (name : String)
  /-- a `continue` outside of a loop -/
  | continueOutsideLoop
  /-- a `break` without label outside of a loop or `switch` -/
  | breakOutsideLoop
  /-- a module declaration in a script -/
  | moduleDeclarationInScript
  /-- a module declaration inside another statement -/
  | nestedModuleDeclaration
  /-- the name `let` bound by `let` or `const` -/
  | letAsLexicalName
  /-- a loop over values that declares not exactly one pattern -/
  | forHeadDeclarators
  /-- a `try` on its own -/
  | tryAlone
  /-- an import by string name without a local name -/
  | stringImportWithoutLocal
  /-- parentheses around something that is no simple assignment target -/
  | parenthesizedPattern
  /-- an expression in a pattern that declares names -/
  | invalidDestructuringTarget
  /-- an expression that cannot be assigned to -/
  | invalidAssignmentTarget
  /-- a rest element with another element after it -/
  | restNotLast
  /-- a rest parameter with another parameter after it -/
  | restParameterNotLast
  /-- a unary expression to the left of `**` -/
  | unaryBeforePower
  /-- an update of something that cannot be assigned to -/
  | invalidUpdateTarget
  /-- a `new.` followed by anything but `target` -/
  | unknownNewProperty
  /-- a `new.target` outside of functions and class elements -/
  | newTargetOutsideFunction
  /-- a `?.` in the callee of `new` -/
  | optionalChainInNew
  /-- a `super` that is neither called nor accessed -/
  | strayUseOfSuper
  /-- a regular expression without a closing slash; no token has this fault -/
  | invalidRegExp
  /-- a parenthesized list that only arrow parameters can be, without an arrow -/
  | arrowExpected
  /-- an `import.` followed by anything but `meta` -/
  | unknownImportProperty
  /-- an `import()` without a specifier -/
  | importWithoutSpecifier
  /-- an `import()` with more than two arguments -/
  | importWithExtraArguments
  /-- an illegal escape in a template that no tag receives -/
  | escapeInTemplate
deriving DecidableEq, Repr

/-- The cause in words. -/
def SyntaxCause.message : SyntaxCause → String
  | .lexical cause => cause.message
  | .unexpectedEnd => "unexpected end of input"
  | .unexpectedToken text => "unexpected token `" ++ text ++ "`"
  | .unexpectedKeyword name => "unexpected keyword '" ++ name ++ "'"
  | .nestingTooDeep => "nesting too deep"
  | .budgetSpent => "too many tokens"
  | .returnOutsideFunction => "'return' outside of function"
  | .newlineAfterThrow => "illegal newline after throw"
  | .undefinedLabel name => "undefined label '" ++ name ++ "'"
  | .duplicateLabel name => "label '" ++ name ++ "' has already been declared"
  | .continueOutsideLoop => "'continue' outside of loop"
  | .breakOutsideLoop => "'break' outside of loop or switch"
  | .moduleDeclarationInScript =>
    "'import' and 'export' may appear only with 'sourceType: module'"
  | .nestedModuleDeclaration => "'import' and 'export' may only appear at the top level"
  | .letAsLexicalName => "'let' cannot be a name in 'let' or 'const' declarations"
  | .forHeadDeclarators => "invalid left-hand side in for loop"
  | .tryAlone => "missing catch or finally after try"
  | .stringImportWithoutLocal => "string import name requires 'as'"
  | .parenthesizedPattern => "invalid parenthesized assignment pattern"
  | .invalidDestructuringTarget => "invalid destructuring target"
  | .invalidAssignmentTarget => "invalid assignment target"
  | .restNotLast => "rest element must be last element"
  | .restParameterNotLast => "rest parameter must be last formal parameter"
  | .unaryBeforePower => "unparenthesized unary expression cannot be the left operand of '**'"
  | .invalidUpdateTarget => "invalid left-hand side in update expression"
  | .unknownNewProperty => "the only valid meta property for new is new.target"
  | .newTargetOutsideFunction => "new.target can only be used in functions or class properties"
  | .optionalChainInNew => "invalid optional chain from new expression"
  | .strayUseOfSuper => "'super' keyword unexpected here"
  | .invalidRegExp => "invalid regular expression literal"
  | .arrowExpected => "expected '=>' after arrow parameters"
  | .unknownImportProperty => "the only valid meta property for import is import.meta"
  | .importWithoutSpecifier => "import() requires a specifier"
  | .importWithExtraArguments => "import() accepts at most two arguments"
  | .escapeInTemplate => "invalid escape sequence in template"

/-- A fault in a text. -/
structure SyntaxError where
  /-- what is wrong -/
  cause : SyntaxCause
  /-- where it shows -/
  position : Position
deriving DecidableEq, Repr

/-- The cause of an error in words. -/
def SyntaxError.message (e : SyntaxError) : String := e.cause.message

/-- An error in words, with the line and column where it shows. -/
def SyntaxError.display (e : SyntaxError) : String :=
  e.message ++ " (" ++ toString e.position.line ++ ":" ++ toString e.position.column ++ ")"

end WithScope
