/-!
# Binary floating point without a sign

The values that numeric literals denote: a binary64 number that is not negative, infinity, or NaN
for a literal without a value. A finite value is `significand * 2 ^ exponent`, and
`Double.ofRatio` is the one rounding rule: an exact quotient goes to the nearest value, and a tie
to the even significand.
-/

namespace WithScope

/-- A binary64 value without a sign. -/
inductive Double
  /-- no number -/
  | nan
  /-- past the largest finite value -/
  | infinity
  /-- the value `significand * 2 ^ exponent`, with a significand below `2 ^ 53` and an exponent of
  at least `-1074`, which it is when the significand is below `2 ^ 52` -/
  | finite (significand : Nat) (exponent : Int)
deriving DecidableEq, Repr

namespace Double

/-- The value zero. -/
def zero : Double := .finite 0 (-1074)

/-- The natural number nearest to `num / den`, the even one of two equally near. -/
def roundQuotient (num den : Nat) : Nat :=
  let quotient := num / den
  let twice := 2 * (num % den)
  if twice < den then quotient
  else if den < twice then quotient + 1
  else quotient + quotient % 2

/-- The value of `num / den / 2 ^ exponent` as a quotient of natural numbers. -/
def scaled (num den : Nat) (exponent : Int) : Nat × Nat :=
  (num * Nat.pow 2 (-exponent).toNat, den * Nat.pow 2 exponent.toNat)

/-- The greatest `e` with `2 ^ e ≤ num / den`, for positive `num` and `den`. -/
def floorLog2 (num den : Nat) : Int :=
  let guess : Int := (num.log2 : Int) - (den.log2 : Int)
  let (n, d) := scaled num den guess
  if d ≤ n then guess else guess - 1

/-- The value nearest to `num / den`, for a positive `den`. -/
def ofRatio (num den : Nat) : Double :=
  if num = 0 then zero
  else
    let exponent := max (floorLog2 num den - 52) (-1074)
    let (n, d) := scaled num den exponent
    let significand := roundQuotient n d
    let (significand, exponent) :=
      if significand = Nat.pow 2 53 then (Nat.pow 2 52, exponent + 1) else (significand, exponent)
    if 971 < exponent then .infinity else .finite significand exponent

/-- The value nearest to `digits * 10 ^ exponent`, where `count` is the number of decimal digits
of `digits`. A power of ten far outside the range of the format is not computed. -/
def ofDecimal (digits count : Nat) (exponent : Int) : Double :=
  if digits = 0 then zero
  else if count + exponent ≤ -324 then zero
  else if 310 < count + exponent then .infinity
  else ofRatio (digits * Nat.pow 10 exponent.toNat) (Nat.pow 10 (-exponent).toNat)

/-- The 64 bits of the interchange format. -/
def toBits : Double → Nat
  | .nan => 0x7FF8000000000000
  | .infinity => 0x7FF0000000000000
  | .finite significand exponent =>
    if significand < Nat.pow 2 52 then significand
    else (exponent + 1075).toNat * Nat.pow 2 52 + (significand - Nat.pow 2 52)

end Double

end WithScope
