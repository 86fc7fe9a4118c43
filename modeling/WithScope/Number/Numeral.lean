import WithScope.Number.Double
import WithScope.Text.Escape

/-!
# Values of numerals

The value of a numeric literal, given its text without digit separators. `0x`, `0o` and `0b` begin
a numeral in base 16, 8 or 2; a numeral of octal digits that begins with `0` is octal as well; all
others are decimal, with an optional fraction and exponent.

A numeral without digits where they are due has the value NaN, and so has one in base 16, 8 or 2
that does not fit 128 bits.
-/

namespace WithScope

/-- The value of a numeral in base 2, 8 or 16, given by its digits alone. -/
def integerNumeral (base : Nat) (digits : List Char) : Double :=
  let value := digitsValue base digits
  if digits = [] ∨ Nat.pow 2 128 ≤ value then .nan else .ofRatio value 1

/-- One more digit of an exponent. Once it has reached 65536, further digits are passed over. -/
def exponentDigit (value : Nat) (c : Char) : Nat :=
  if value < 0x10000 then 10 * value + (hexDigit? c).getD 0 else value

/-- The number that the digits of an exponent stand for. -/
def exponentDigits (digits : List Char) : Nat := digits.foldl exponentDigit 0

/-- The exponent that ends a decimal numeral: none at all is zero, and an exponent mark needs at
least one digit. -/
def exponent? : List Char → Option Int
  | [] => some 0
  | mark :: cs =>
    let (negative, digits) : Bool × List Char :=
      match cs with
      | '-' :: digits => (true, digits)
      | '+' :: digits => (false, digits)
      | digits => (false, digits)
    if (mark = 'e' ∨ mark = 'E') ∧ digits ≠ [] ∧ digits.all Char.isDigit then
      some (if negative then -(exponentDigits digits : Int) else exponentDigits digits)
    else none

/-- The value of a decimal numeral, if the text is one. -/
def decimalNumeral? (text : List Char) : Option Double :=
  let whole := text.takeWhile Char.isDigit
  let (fraction, rest) : List Char × List Char :=
    match text.dropWhile Char.isDigit with
    | '.' :: cs => (cs.takeWhile Char.isDigit, cs.dropWhile Char.isDigit)
    | cs => ([], cs)
  let digits := (whole ++ fraction).dropWhile (· == '0')
  if whole ++ fraction = [] then none
  else (exponent? rest).map fun exponent =>
    .ofDecimal (digitsValue 10 digits) digits.length (exponent - fraction.length)

/-- The base that the letter after a leading `0` announces. -/
def baseOfLetter? (c : Char) : Option Nat :=
  if c = 'x' ∨ c = 'X' then some 16
  else if c = 'o' ∨ c = 'O' then some 8
  else if c = 'b' ∨ c = 'B' then some 2
  else none

/-- The value of a decimal numeral or of one in the old octal form, `0` and octal digits. -/
def plainNumeral (text : List Char) : Double :=
  match text with
  | '0' :: c :: cs =>
    if (c :: cs).all isOctalDigit then integerNumeral 8 (c :: cs)
    else (decimalNumeral? text).getD .nan
  | _ => (decimalNumeral? text).getD .nan

/-- The value of a numeral. -/
def numeralValue (text : List Char) : Double :=
  match text with
  | '0' :: c :: cs =>
    match baseOfLetter? c with
    | some base => integerNumeral base cs
    | none => plainNumeral text
  | _ => plainNumeral text

end WithScope
