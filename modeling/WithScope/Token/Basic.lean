import WithScope.Number.Double
import WithScope.Text.Position
import WithScope.Token.Kind

/-!
# Tokens
-/

namespace WithScope

/-- What a token stands for besides its kind. -/
inductive TokenValue
  /-- nothing more -/
  | none
  /-- the name of an identifier, the text of a string literal, the raw text of a template part or
  a regular expression, the digits of a big integer -/
  | text (value : String)
  /-- the value of a numeral -/
  | number (value : Double)
deriving DecidableEq, Repr

/-- A token of a text. -/
structure Token where
  /-- what kind of token it is -/
  kind : TokenKind
  /-- what it stands for -/
  value : TokenValue
  /-- where it stands -/
  span : Span
  /-- the characters it is written with -/
  spelling : String
  /-- whether a line ends between the token before and this one, inside of comments included -/
  newlineBefore : Bool
deriving DecidableEq, Repr

namespace Token

/-- The text of the token's value; numbers and tokens without a value have none. -/
def text (t : Token) : String :=
  match t.value with
  | .text value => value
  | _ => ""

/-- Whether the token is the identifier `name`, escapes in its spelling or not. -/
def isIdentifier (t : Token) (name : String) : Bool :=
  t.kind == .identifier && t.text == name

end Token

end WithScope
