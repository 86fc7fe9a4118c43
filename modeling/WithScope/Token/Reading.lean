import WithScope.Number.Numeral
import WithScope.SyntaxError
import WithScope.Text.Split
import WithScope.Token.Basic
import WithScope.Token.Identifier

/-!
# Reading one token

Each reader here looks at a text that begins with a token and says how much of it belongs to the
token, what the token is, or what is wrong with it. A reader knows nothing of the place where the
text stands: a fault is placed relative to the first character.

`readToken` chooses the reader by the first character. It never gives a regular expression, which
only the grammar can tell from a division, and never resumes a template: `readRegExp` and
`readTemplate` are there for a lexer that knows better.
-/

namespace WithScope

/-- A place seen from the beginning of a token. -/
inductive FaultPlace
  /-- the place reached by moving past a text -/
  | after (text : List Char)
  /-- the line and column of the token, at an offset some bytes further on -/
  | inLiteral (bytes : Nat)
deriving DecidableEq, Repr

/-- The place itself, for a token that begins at `start`. -/
def FaultPlace.position (start : Position) : FaultPlace → Position
  | .after text => start.after text
  | .inLiteral bytes => ⟨start.offset + bytes, start.line, start.column⟩

/-- What is wrong with a token, and where. -/
structure Fault where
  /-- what is wrong -/
  cause : LexicalCause
  /-- where it shows -/
  place : FaultPlace
deriving DecidableEq, Repr

/-- What a reader found at the beginning of a text. -/
structure Reading where
  /-- the characters read -/
  text : List Char
  /-- the characters after them -/
  rest : List Char
  /-- the token they make, or the fault that stopped the reader -/
  outcome : Except Fault (TokenKind × TokenValue)

namespace Reading

/-- A reading that succeeds. -/
def token (parts : List Char × List Char) (kind : TokenKind) (value : TokenValue) : Reading :=
  ⟨parts.1, parts.2, .ok (kind, value)⟩

/-- A reading that stops at a fault. -/
def fault (parts : List Char × List Char) (cause : LexicalCause) (place : FaultPlace) : Reading :=
  ⟨parts.1, parts.2, .error ⟨cause, place⟩⟩

end Reading

/-! ### String literals -/

/-- Cuts off the body of a string literal: what stands before the first closing quote or line break
that no backslash precedes. -/
def splitStringBody (quote : Char) : List Char → List Char × List Char
  | [] => ([], [])
  | '\\' :: '\r' :: '\n' :: cs => prepend ['\\', '\r', '\n'] (splitStringBody quote cs)
  | '\\' :: c :: cs => prepend ['\\', c] (splitStringBody quote cs)
  | c :: cs =>
    if c = quote ∨ c = '\n' ∨ c = '\r' then ([], c :: cs)
    else prepend [c] (splitStringBody quote cs)

/-- Reads a string literal, given what follows its opening quote. -/
def readString (quote : Char) (cs : List Char) : Reading :=
  let (body, rest) := splitStringBody quote cs
  if rest.head? = some quote then
    let parts := (quote :: body ++ [quote], rest.tail)
    match unescape body with
    | .ok text => .token parts .stringLiteral (.text (String.ofList text))
    | .error e => .fault parts (.escape e.cause) (.inLiteral (quote.utf8Size + e.offset))
  else .fault (quote :: body, rest) .unterminatedString (.after [])

/-! ### Templates -/

/-- Cuts off a part of a template: what stands before the first closing quote or beginning of a
substitution that no backslash precedes. -/
def splitTemplatePart : List Char → List Char × List Char
  | [] => ([], [])
  | '\\' :: c :: cs => prepend ['\\', c] (splitTemplatePart cs)
  | '$' :: '{' :: cs => ([], '$' :: '{' :: cs)
  | c :: cs => if c = '\x60' then ([], c :: cs) else prepend [c] (splitTemplatePart cs)

/-- Reads a part of a template, given what follows the character that opens it: the quote that
begins the template or the brace that ends a substitution, in which case `resumes` holds. -/
def readTemplate (resumes : Bool) (opening : Char) (cs : List Char) : Reading :=
  let (body, rest) := splitTemplatePart cs
  match rest with
  | '$' :: '{' :: rest =>
    .token (opening :: body ++ ['$', '{'], rest)
      (if resumes then .templateMiddle else .templateHead) (.text (String.ofList body))
  | c :: rest =>
    .token (opening :: body ++ [c], rest)
      (if resumes then .templateTail else .noSubstitutionTemplate) (.text (String.ofList body))
  | [] => .fault (opening :: body, []) .unterminatedTemplate (.after [])

/-! ### Numerals -/

/-- Whether `c` is a digit in a base up to 16. -/
def isDigitIn (base : Nat) (c : Char) : Bool :=
  match hexDigit? c with
  | some value => value < base
  | none => false

/-- Cuts off a run of digits and digit separators. -/
def splitDigits (base : Nat) (cs : List Char) : List Char × List Char :=
  splitWhile (fun c => isDigitIn base c || c == '_') cs

/-- Cuts off the sign and digits of an exponent. -/
def splitExponentDigits : List Char → List Char × List Char
  | '+' :: cs => prepend ['+'] (splitDigits 10 cs)
  | '-' :: cs => prepend ['-'] (splitDigits 10 cs)
  | cs => splitDigits 10 cs

/-- Cuts off an exponent, if there is one. -/
def splitExponent : List Char → List Char × List Char
  | 'e' :: cs => prepend ['e'] (splitExponentDigits cs)
  | 'E' :: cs => prepend ['E'] (splitExponentDigits cs)
  | cs => ([], cs)

/-- Cuts off a fraction with its point, if there is one, and an exponent, if there is one. -/
def splitFraction : List Char → List Char × List Char
  | '.' :: cs =>
    prepend ('.' :: (splitDigits 10 cs).1) (splitExponent (splitDigits 10 cs).2)
  | cs => splitExponent cs

/-- Cuts off a decimal numeral. -/
def splitDecimal (cs : List Char) : List Char × List Char :=
  prepend (splitDigits 10 cs).1 (splitFraction (splitDigits 10 cs).2)

/-- Cuts off a numeral in any base. -/
def splitNumeral : List Char → List Char × List Char
  | '0' :: c :: cs =>
    match baseOfLetter? c with
    | some base => prepend ['0', c] (splitDigits base cs)
    | none => splitDecimal ('0' :: c :: cs)
  | cs => splitDecimal cs

/-- Reads a numeral with its suffix. What directly follows must not be a name or a digit. -/
def readNumeral (cs : List Char) : Reading :=
  let (numeral, rest) := splitNumeral cs
  let digits := numeral.filter (· != '_')
  let isBig := rest.head? = some 'n'
  let parts := if isBig then (numeral ++ ['n'], rest.tail) else (numeral, rest)
  if parts.2.head?.any fun c => isIdStart c || c.isDigit then
    .fault parts .nameAfterNumeral (.after parts.1)
  else if isBig then .token parts .bigIntLiteral (.text (String.ofList digits))
  else .token parts .numericLiteral (.number (numeralValue digits))

/-! ### Names -/

/-- What reading a single escape in a name gives: the character it stands for, or a fault, with the
text read. -/
structure NameEscape where
  /-- the escape and the text after it -/
  parts : List Char × List Char
  /-- the character, or what is wrong -/
  outcome : Except LexicalCause Char

/-- Reads an escape in a name, given what follows its backslash. The character it stands for must
satisfy `allowed`. -/
def readNameEscape (allowed : Char → Bool) : List Char → NameEscape
  | [] => ⟨(['\\'], []), .error .escapeInName⟩
  | 'u' :: cs =>
    match readCodePoint? cs with
    | none => ⟨(['\\', 'u'], cs), .error (.escape .unicode)⟩
    | some (value, rest) =>
      let parts := ('\\' :: 'u' :: cs.take (cs.length - rest.length), rest)
      if value.isValidChar ∧ allowed (Char.ofNat value) then ⟨parts, .ok (Char.ofNat value)⟩
      else ⟨parts, .error .escapedCharInName⟩
  | '\r' :: '\n' :: cs => ⟨(['\\', '\r', '\n'], cs), .error .escapeInName⟩
  | c :: cs => ⟨(['\\', c], cs), .error .escapeInName⟩

theorem length_of_readNameEscape {allowed : Char → Bool} {cs : List Char} {c : Char}
    (h : (readNameEscape allowed cs).outcome = .ok c) :
    (readNameEscape allowed cs).parts.2.length < cs.length := by
  unfold readNameEscape at h ⊢
  split at h
  · cases h
  · next cs =>
    split at h
    · cases h
    · next value rest heq =>
      have := length_of_readCodePoint? heq
      simp only [List.length_cons]
      split <;> simp only <;> omega
  · cases h
  · cases h

/-- What reading a name gives. -/
structure NameReading where
  /-- the characters of the name, escapes decoded -/
  name : List Char
  /-- whether any of them was escaped -/
  escaped : Bool
  /-- the text of the name and the text after it -/
  parts : List Char × List Char
  /-- what stopped the reader, if not the end of the name, with the text it read beyond `parts.1` -/
  fault : Option (LexicalCause × List Char)

namespace NameReading

/-- The reading that ends where the text begins. -/
def stop (cs : List Char) : NameReading := ⟨[], false, ([], cs), none⟩

/-- Puts a character of the name, written as `text`, in front of a reading. -/
def cons (c : Char) (isEscape : Bool) (text : List Char) (r : NameReading) : NameReading :=
  ⟨c :: r.name, isEscape || r.escaped, prepend text r.parts, r.fault⟩

end NameReading

/-- Reads as much of a name as there is. `allowed` says which characters the name may go on with;
after the first, it may go on with any that continue a name. -/
def readName (allowed : Char → Bool) : List Char → NameReading
  | [] => .stop []
  | '\\' :: cs =>
    match h : (readNameEscape allowed cs).outcome with
    | .ok c =>
      have := length_of_readNameEscape h
      .cons c true (readNameEscape allowed cs).parts.1
        (readName isIdContinue (readNameEscape allowed cs).parts.2)
    | .error cause =>
      ⟨[], false, ([], (readNameEscape allowed cs).parts.2),
        some (cause, (readNameEscape allowed cs).parts.1)⟩
  | c :: cs => if allowed c then .cons c false [c] (readName isIdContinue cs) else .stop (c :: cs)
termination_by cs => cs.length

/-- Reads an identifier or a reserved word. A reserved word spelled with an escape is an
identifier. -/
def readIdentifier (cs : List Char) : Reading :=
  let r := readName isIdStart cs
  match r.fault with
  | some (cause, extra) => .fault (r.parts.1 ++ extra, r.parts.2) cause (.after r.parts.1)
  | none =>
    let name := String.ofList r.name
    match Keyword.ofSpelling? name, r.escaped with
    | some word, false => .token r.parts (.keyword word) .none
    | _, _ => .token r.parts .identifier (.text name)

/-- Reads a private name, given what follows its `#`. -/
def readPrivateName (cs : List Char) : Reading :=
  let r := readName isIdStart cs
  match r.fault with
  | some (cause, extra) =>
    .fault ('#' :: r.parts.1 ++ extra, r.parts.2) cause (.after ('#' :: r.parts.1))
  | none =>
    if r.name = [] then .fault (['#'], cs) .strayHash (.after [])
    else .token (prepend ['#'] r.parts) .privateIdentifier (.text (String.ofList r.name))

/-! ### Regular expressions -/

/-- Cuts off the body of a regular expression: what stands before the first slash outside of a
bracketed class, or before a line end. A backslash takes the next character with it. -/
def splitRegExpBody (inClass : Bool) : List Char → List Char × List Char
  | [] => ([], [])
  | '\\' :: c :: cs =>
    if isLineTerminator c then (['\\'], c :: cs)
    else prepend ['\\', c] (splitRegExpBody inClass cs)
  | c :: cs =>
    if isLineTerminator c || (c == '/' && !inClass) then ([], c :: cs)
    else prepend [c] (splitRegExpBody (c == '[' || (inClass && c != ']')) cs)

/-- Reads a regular expression with its flags; its first character opens it, whatever it is. -/
def readRegExp : List Char → Reading
  | [] => .fault ([], []) .unterminatedRegExp (.after [])
  | opening :: cs =>
    let (body, rest) := splitRegExpBody false cs
    if rest.head? = some '/' then
      let flags := splitWhile isIdContinue rest.tail
      let parts := prepend (opening :: body ++ ['/']) flags
      .token parts .regExpLiteral (.text (String.ofList parts.1))
    else .fault (opening :: body, rest) .unterminatedRegExp (.after [])

/-! ### Punctuators -/

/-- Reads a punctuator. `?.` is one unless a digit follows, as in `a ?.5 : b`. -/
def readPunctuator : List Char → Reading
  | '{' :: cs => .token (['{'], cs) (.punctuator .leftBrace) .none
  | '}' :: cs => .token (['}'], cs) (.punctuator .rightBrace) .none
  | cs =>
    if ['?', '.'].isPrefixOf cs && !(cs.drop 2).head?.any Char.isDigit then
      .token (['?', '.'], cs.drop 2) (.punctuator .questionDot) .none
    else
      match Punctuator.longest? cs with
      | some (spelling, mark) =>
        .token (spelling, cs.drop spelling.length) (.punctuator mark) .none
      | none => .fault ([], cs) (.unexpectedChar (cs.headD '\x00')) (.after [])

/-! ### All tokens -/

/-- Reads the token that a text begins with. A block comment at its beginning is one that never
ends, for all others are skipped as gaps. -/
def readToken : List Char → Reading
  | [] => .token ([], []) .eof .none
  | c :: cs =>
    if c = '"' ∨ c = '\'' then readString c cs
    else if c = '\x60' then readTemplate false c cs
    else if c.isDigit || (c == '.' && cs.head?.any Char.isDigit) then readNumeral (c :: cs)
    else if c = '#' then readPrivateName cs
    else if isIdStart c || c == '\\' then readIdentifier (c :: cs)
    else if c = '/' ∧ cs.head? = some '*' then
      .fault (c :: cs, []) .unterminatedComment (.after [])
    else readPunctuator (c :: cs)

end WithScope
