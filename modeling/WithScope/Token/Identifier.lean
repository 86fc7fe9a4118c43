import WithScope.Token.Kind
import WithScope.Unicode.Alphabetic
import WithScope.Unicode.Numeric

/-!
# Identifiers

Which characters begin and continue a name, and which names can be bound anywhere, strict code
included.
-/

namespace WithScope

/-- Whether `c` may begin a name. -/
def isIdStart (c : Char) : Bool :=
  c == '$' || c == '_' || Unicode.isAlphabetic c

/-- Whether `c` may stand in a name after its first character. -/
def isIdContinue (c : Char) : Bool :=
  c == '$' || c == '_' || c == '\u200C' || c == '\u200D' || Unicode.isAlphabetic c
    || Unicode.isNumeric c

/-- Whether a text is a name: a character that begins one, and then only such as continue it. -/
def isName : List Char → Bool
  | [] => false
  | c :: cs => isIdStart c && cs.all isIdContinue

/-- The names that strict code reserves besides the reserved words, and `await`. -/
def strictReserved : List String :=
  ["implements", "interface", "package", "private", "protected", "public", "static", "let",
   "yield", "await"]

/-- Whether `name`, spelled as it is, can be bound by any code: a name without escapes that neither
the language nor its strict mode reserves. -/
def isValidIdentifier (name : String) : Bool :=
  isName name.toList && (Keyword.ofSpelling? name).isNone && !strictReserved.contains name

end WithScope
