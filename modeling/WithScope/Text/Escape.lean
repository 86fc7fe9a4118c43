import WithScope.Text.Position

/-!
# Escape sequences

`unescape` gives the text that the body of a string literal or a template stands for. A backslash
begins an escape: a letter for a control character, one to three octal digits, `\x` and two
hexadecimal digits, `\u` and a code point, or a line break that is to be left out. A backslash
before any other character stands for that character. CR and CR LF stand for LF.

Code points may be written as UTF-16 units: a high surrogate escape directly followed by a low one
is one character, and a surrogate on its own becomes U+FFFD.
-/

namespace WithScope

/-- Why a backslash does not begin a legal escape. -/
inductive EscapeCause
  /-- nothing follows the backslash -/
  | unterminated
  /-- an `\x` without two hexadecimal digits -/
  | hexadecimal
  /-- a `\u` without a code point -/
  | unicode
deriving DecidableEq, Repr

/-- The cause in words. -/
def EscapeCause.message : EscapeCause → String
  | .unterminated => "unterminated escape sequence"
  | .hexadecimal => "invalid hexadecimal escape sequence"
  | .unicode => "invalid Unicode escape sequence"

/-- An illegal escape in a text. -/
structure EscapeError where
  /-- UTF-8 bytes before the backslash -/
  offset : Nat
  /-- what is wrong with it -/
  cause : EscapeCause
deriving DecidableEq, Repr

/-- The value of a hexadecimal digit in either case. -/
def hexDigit? (c : Char) : Option Nat :=
  if '0' ≤ c ∧ c ≤ '9' then some (c.toNat - '0'.toNat)
  else if 'a' ≤ c ∧ c ≤ 'f' then some (c.toNat - 'a'.toNat + 10)
  else if 'A' ≤ c ∧ c ≤ 'F' then some (c.toNat - 'A'.toNat + 10)
  else none

/-- Whether `c` is a hexadecimal digit. -/
def isHexDigit (c : Char) : Bool := (hexDigit? c).isSome

/-- Whether `c` is an octal digit. -/
def isOctalDigit (c : Char) : Bool := '0' ≤ c && c ≤ '7'

/-- The number that digits of the given base write, most significant first; a character that is no
hexadecimal digit counts as zero. -/
def digitsValue (base : Nat) (digits : List Char) : Nat :=
  digits.foldl (fun value c => base * value + (hexDigit? c).getD 0) 0

/-- The character with the given code point; U+FFFD where there is none. -/
def charOrReplacement (n : Nat) : Char :=
  if n.isValidChar then Char.ofNat n else '\uFFFD'

/-- Reads the digits of a code point up to the brace that closes it: `value` is the number that they
write so far and `count` how many they are. The number has to fit 32 bits all along, and the digits are
counted in 32 bits: the count says only whether there are any. -/
def readBraced? (value : Nat) (count : Int32) : List Char → Option (Nat × List Char)
  | [] => none
  | c :: cs =>
    if c = '}' then if 0 < count ∧ value ≤ 0x10FFFF then some (value, cs) else none
    else
      match hexDigit? c with
      | none => none
      | some digit =>
        if 16 * value + digit < 0x100000000 then readBraced? (16 * value + digit) (count + 1) cs else none

/-- The code point written after `\u`, either as four hexadecimal digits or as at least one between
braces, and the text that follows it. -/
def readCodePoint? : List Char → Option (Nat × List Char)
  | '{' :: cs => readBraced? 0 0 cs
  | a :: b :: c :: d :: rest =>
    if [a, b, c, d].all isHexDigit then some (digitsValue 16 [a, b, c, d], rest) else none
  | _ => none

/-- The character that a high surrogate makes with a low surrogate escape at the start of `cs`. -/
def pairedWith? (high : Nat) (cs : List Char) : Option (Char × List Char) :=
  if 0xD800 ≤ high ∧ high < 0xDC00 then
    match cs with
    | '\\' :: 'u' :: cs =>
      match readCodePoint? cs with
      | some (low, rest) =>
        if 0xDC00 ≤ low ∧ low < 0xE000 then
          some (Char.ofNat (0x10000 + (high - 0xD800) * 0x400 + (low - 0xDC00)), rest)
        else none
      | none => none
    | _ => none
  else none

/-- The character named by a letter after the backslash. -/
def letterEscape? : Char → Option Char
  | 'n' => some '\n'
  | 't' => some '\t'
  | 'r' => some '\r'
  | 'b' => some '\x08'
  | 'f' => some '\x0c'
  | 'v' => some '\x0b'
  | _ => none

/-- Reads an octal escape whose first digit is `first`: three digits at most, and two if three
could pass 255. -/
def readOctal (first : Char) (cs : List Char) : List Char × List Char :=
  let more := (cs.takeWhile isOctalDigit).take (if first ≤ '3' then 2 else 1)
  ([charOrReplacement (digitsValue 8 (first :: more))], cs.drop more.length)

/-- Reads two hexadecimal digits after `\x`. -/
def readHexadecimal : List Char → Except EscapeCause (List Char × List Char)
  | a :: b :: rest =>
    if isHexDigit a && isHexDigit b then .ok ([charOrReplacement (digitsValue 16 [a, b])], rest)
    else .error .hexadecimal
  | _ => .error .hexadecimal

/-- Reads a code point after `\u`, with the low surrogate it may need. -/
def readUnicode (cs : List Char) : Except EscapeCause (List Char × List Char) :=
  match readCodePoint? cs with
  | none => .error .unicode
  | some (value, rest) =>
    match pairedWith? value rest with
    | some (c, rest) => .ok ([c], rest)
    | none => .ok ([charOrReplacement value], rest)

/-- Reads what follows a backslash: the text it stands for and the text after it. -/
def readEscape : List Char → Except EscapeCause (List Char × List Char)
  | [] => .error .unterminated
  | c :: cs =>
    if c = 'x' then readHexadecimal cs
    else if c = 'u' then readUnicode cs
    else if isOctalDigit c then .ok (readOctal c cs)
    else if c = '\r' then .ok ([], if cs.head? = some '\n' then cs.tail else cs)
    else if isLineTerminator c then .ok ([], cs)
    else .ok ([(letterEscape? c).getD c], cs)

theorem length_of_readBraced? {value n : Nat} {count : Int32} {cs rest : List Char}
    (h : readBraced? value count cs = some (n, rest)) : rest.length < cs.length := by
  fun_induction readBraced? value count cs with
  | case2 => cases h; exact Nat.lt_succ_self _
  | case5 value count c cs _ digit _ _ ih => exact Nat.lt_succ_of_lt (ih h)
  | _ => cases h

theorem length_of_readCodePoint? {cs rest : List Char} {value : Nat}
    (h : readCodePoint? cs = some (value, rest)) : rest.length < cs.length := by
  unfold readCodePoint? at h
  split at h
  · exact Nat.lt_succ_of_lt (length_of_readBraced? h)
  · split at h
    · obtain ⟨-, rfl⟩ := Prod.mk.inj (Option.some.inj h)
      simp only [List.length_cons]
      omega
    · cases h
  · cases h

theorem length_of_pairedWith? {high : Nat} {cs rest : List Char} {c : Char}
    (h : pairedWith? high cs = some (c, rest)) : rest.length < cs.length := by
  unfold pairedWith? at h
  split at h
  · split at h
    · split at h
      · next low rest' heq =>
        split at h
        · obtain ⟨-, rfl⟩ := Prod.mk.inj (Option.some.inj h)
          have := length_of_readCodePoint? heq
          simp only [List.length_cons]
          omega
        · cases h
      · cases h
    · cases h
  · cases h

/-- An escape takes at least the character after its backslash. -/
theorem length_of_readEscape {cs text rest : List Char} (h : readEscape cs = .ok (text, rest)) :
    rest.length < cs.length := by
  cases cs with
  | nil => cases h
  | cons c cs =>
    simp only [readEscape, List.length_cons] at h ⊢
    split at h
    · unfold readHexadecimal at h
      split at h
      · split at h
        · cases h; simp only [List.length_cons]; omega
        · cases h
      · cases h
    split at h
    · unfold readUnicode at h
      split at h
      · cases h
      · next value rest' heq =>
        have := length_of_readCodePoint? heq
        split at h
        · next d rest'' heq' =>
          have := length_of_pairedWith? heq'
          cases h; omega
        · cases h; omega
    split at h
    · simp only [readOctal] at h
      cases h; simp only [List.length_drop]; omega
    split at h
    · cases h
      split
      · simp only [List.length_tail]; omega
      · omega
    split at h <;> · cases h; omega

/-- Reads a text from left to right. A failure gives the text from the offending backslash on. -/
def decode : List Char → Except (EscapeCause × List Char) (List Char)
  | [] => .ok []
  | '\\' :: cs =>
    match h : readEscape cs with
    | .error cause => .error (cause, '\\' :: cs)
    | .ok (text, rest) =>
      have : rest.length < cs.length := length_of_readEscape h
      (text ++ ·) <$> decode rest
  | '\r' :: '\n' :: cs => ('\n' :: ·) <$> decode cs
  | '\r' :: cs => ('\n' :: ·) <$> decode cs
  | c :: cs => (c :: ·) <$> decode cs
termination_by cs => cs.length
decreasing_by all_goals (simp only [List.length_cons]; omega)

/-- The text that `raw` stands for, or its first illegal escape. -/
def unescape (raw : List Char) : Except EscapeError (List Char) :=
  match decode raw with
  | .ok text => .ok text
  | .error (cause, rest) => .error ⟨byteLength raw - byteLength rest, cause⟩

end WithScope
