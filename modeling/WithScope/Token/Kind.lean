/-!
# Kinds of tokens

Reserved words and punctuators are enumerated with their spellings. Words that are special only in
some places (`async`, `of`, `get`, `let`, `yield` and the like) are not reserved: as tokens they
are identifiers.
-/

namespace WithScope

/-- The reserved words. -/
inductive Keyword
  | break | case | catch | «class» | const | continue | debugger | default | delete | do | else
  | enum | export | extends | false | finally | for | function | if | import | in | instanceof
  | new | null | return | super | switch | this | throw | true | try | typeof | var | void
  | while | with
deriving DecidableEq, Repr

namespace Keyword

/-- The reserved words with their spellings. -/
def spellings : List (String × Keyword) :=
  [("break", .break), ("case", .case), ("catch", .catch), ("class", .class), ("const", .const),
   ("continue", .continue), ("debugger", .debugger), ("default", .default), ("delete", .delete),
   ("do", .do), ("else", .else), ("enum", .enum), ("export", .export), ("extends", .extends),
   ("false", .false), ("finally", .finally), ("for", .for), ("function", .function), ("if", .if),
   ("import", .import), ("in", .in), ("instanceof", .instanceof), ("new", .new), ("null", .null),
   ("return", .return), ("super", .super), ("switch", .switch), ("this", .this),
   ("throw", .throw), ("true", .true), ("try", .try), ("typeof", .typeof), ("var", .var),
   ("void", .void), ("while", .while), ("with", .with)]

/-- The reserved word that a name spells, if it is one. -/
def ofSpelling? (name : String) : Option Keyword := spellings.lookup name

end Keyword

/-- The punctuators. -/
inductive Punctuator
  | leftBrace | rightBrace | leftParen | rightParen | leftBracket | rightBracket
  | dot | dotDotDot | semicolon | comma
  | less | greater | lessEqual | greaterEqual
  | equalEqual | bangEqual | equalEqualEqual | bangEqualEqual
  | plus | minus | star | starStar | slash | percent | plusPlus | minusMinus
  | lessLess | greaterGreater | greaterGreaterGreater
  | ampersand | pipe | caret | bang | tilde
  | ampersandAmpersand | pipePipe | questionQuestion | question | colon
  | equal | plusEqual | minusEqual | starEqual | starStarEqual | slashEqual | percentEqual
  | lessLessEqual | greaterGreaterEqual | greaterGreaterGreaterEqual
  | ampersandEqual | pipeEqual | caretEqual
  | ampersandAmpersandEqual | pipePipeEqual | questionQuestionEqual
  | arrow | questionDot
deriving DecidableEq, Repr

namespace Punctuator

/-- The punctuators that their spelling alone decides, the longer before the shorter, so that the
first one a text begins with is the longest. Braces and `?.` depend on more than their spelling. -/
def spellings : List (List Char × Punctuator) :=
  [(['>', '>', '>', '='], .greaterGreaterGreaterEqual),
   (['.', '.', '.'], .dotDotDot), (['=', '=', '='], .equalEqualEqual),
   (['!', '=', '='], .bangEqualEqual), (['*', '*', '='], .starStarEqual),
   (['<', '<', '='], .lessLessEqual), (['>', '>', '='], .greaterGreaterEqual),
   (['>', '>', '>'], .greaterGreaterGreater), (['&', '&', '='], .ampersandAmpersandEqual),
   (['|', '|', '='], .pipePipeEqual), (['?', '?', '='], .questionQuestionEqual),
   (['<', '='], .lessEqual), (['>', '='], .greaterEqual), (['=', '='], .equalEqual),
   (['!', '='], .bangEqual), (['*', '*'], .starStar), (['+', '+'], .plusPlus),
   (['-', '-'], .minusMinus), (['<', '<'], .lessLess), (['>', '>'], .greaterGreater),
   (['&', '&'], .ampersandAmpersand), (['|', '|'], .pipePipe), (['?', '?'], .questionQuestion),
   (['+', '='], .plusEqual), (['-', '='], .minusEqual), (['*', '='], .starEqual),
   (['/', '='], .slashEqual), (['%', '='], .percentEqual), (['&', '='], .ampersandEqual),
   (['|', '='], .pipeEqual), (['^', '='], .caretEqual), (['=', '>'], .arrow),
   (['('], .leftParen), ([')'], .rightParen), (['['], .leftBracket), ([']'], .rightBracket),
   (['.'], .dot), ([';'], .semicolon), ([','], .comma), (['<'], .less), (['>'], .greater),
   (['+'], .plus), (['-'], .minus), (['*'], .star), (['/'], .slash), (['%'], .percent),
   (['&'], .ampersand), (['|'], .pipe), (['^'], .caret), (['!'], .bang), (['~'], .tilde),
   (['?'], .question), ([':'], .colon), (['='], .equal)]

/-- The longest punctuator that `cs` begins with, and its spelling. -/
def longest? (cs : List Char) : Option (List Char × Punctuator) :=
  spellings.find? fun entry => entry.1.isPrefixOf cs

end Punctuator

/-- The kinds of tokens. -/
inductive TokenKind
  /-- a numeral -/
  | numericLiteral
  /-- a numeral followed by `n` -/
  | bigIntLiteral
  /-- text in single or double quotes -/
  | stringLiteral
  /-- a template without substitutions -/
  | noSubstitutionTemplate
  /-- a template up to its first substitution -/
  | templateHead
  /-- the text between two substitutions of a template -/
  | templateMiddle
  /-- a template from its last substitution on -/
  | templateTail
  /-- a regular expression; a lexer gives one only where it is asked for -/
  | regExpLiteral
  /-- a name that is not reserved, or one spelled with an escape -/
  | identifier
  /-- a name after `#` -/
  | privateIdentifier
  /-- a reserved word -/
  | keyword (word : Keyword)
  /-- a punctuator -/
  | punctuator (mark : Punctuator)
  /-- the end of the text -/
  | eof
deriving DecidableEq, Repr

/-- Whether the kind is that of a reserved word. -/
def TokenKind.isKeyword : TokenKind → Bool
  | .keyword _ => true
  | _ => false

end WithScope
