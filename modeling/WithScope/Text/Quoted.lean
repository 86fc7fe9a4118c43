import WithScope.Unicode.Printable

/-!
# Quoted text

Two ways to write text inside quotes. `jsonQuoted` writes a string literal in double quotes:
a quote, a backslash and the control characters below U+0020 are escaped, all else stands as it is.
`quotedChar` shows one character in single quotes in a message: what cannot be seen, or would
attach to the quote, is written as `\u` and its code point.
-/

namespace WithScope

/-- The hexadecimal digits of a number, in lower case and without leading zeros. -/
def hexDigits (n : Nat) : List Char := Nat.toDigits 16 n

/-- How a character is written inside a double-quoted string literal. -/
def jsonEscaped (c : Char) : List Char :=
  if c = '"' then ['\\', '"']
  else if c = '\\' then ['\\', '\\']
  else if c = '\x08' then ['\\', 'b']
  else if c = '\x0c' then ['\\', 'f']
  else if c = '\n' then ['\\', 'n']
  else if c = '\r' then ['\\', 'r']
  else if c = '\t' then ['\\', 't']
  else if c.toNat < 0x20 then
    ['\\', 'u', '0', '0', Nat.digitChar (c.toNat / 16), Nat.digitChar (c.toNat % 16)]
  else [c]

/-- The string literal in double quotes for a text. -/
def jsonQuoted (text : List Char) : List Char :=
  '"' :: text.flatMap jsonEscaped ++ ['"']

/-- How a character is written inside single quotes in a message. -/
def charEscaped (c : Char) : List Char :=
  if c = '\x00' then ['\\', '0']
  else if c = '\t' then ['\\', 't']
  else if c = '\r' then ['\\', 'r']
  else if c = '\n' then ['\\', 'n']
  else if c = '\\' ∨ c = '\'' then ['\\', c]
  else if Unicode.isGraphemeExtend c || !Unicode.isPrintable c then
    ['\\', 'u', '{'] ++ hexDigits c.toNat ++ ['}']
  else [c]

/-- A character in single quotes, as messages show it. -/
def quotedChar (c : Char) : List Char :=
  '\'' :: charEscaped c ++ ['\'']

end WithScope
