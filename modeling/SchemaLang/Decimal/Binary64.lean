/-!
# Binary floating-point numbers of 64 bits

A number is kept as its bit pattern: a sign bit, eleven bits of exponent and fifty-two bits of
fraction. A finite number is `significand · 2 ^ scale` with its sign.

`Binary64.nearest` reads a decimal `digits · 10 ^ exponent` as the nearest number, a tie going to
the even significand. Values from half a unit above the greatest finite number on read as infinity.
-/

namespace SchemaLang

/-- A floating-point number, by its bit pattern. -/
structure Binary64 where
  bits : UInt64
  deriving DecidableEq, Repr

namespace Binary64

/-- The place value of the sign bit. -/
def signBit : Nat := 0x8000000000000000

/-- The place value of the lowest bit of the exponent, which is one more than the greatest
fraction. -/
def exponentBit : Nat := 0x10000000000000

/-- Whether the sign bit is set. -/
def isNegative (x : Binary64) : Bool :=
  decide (signBit ≤ x.bits.toNat)

/-- The bits without the sign bit. -/
def magnitude (x : Binary64) : Nat :=
  x.bits.toNat % signBit

/-- The eleven bits of exponent. -/
def exponentField (x : Binary64) : Nat :=
  x.magnitude / exponentBit

/-- The fifty-two bits of fraction. -/
def fractionField (x : Binary64) : Nat :=
  x.magnitude % exponentBit

/-- The bit pattern of positive infinity, which is also the least magnitude that is not finite. -/
def infinityBits : Nat := 2047 * exponentBit

def isInfinite (x : Binary64) : Bool :=
  x.magnitude == infinityBits

def isNaN (x : Binary64) : Bool :=
  decide (infinityBits < x.magnitude)

def isZero (x : Binary64) : Bool :=
  x.magnitude == 0

/-- The number with the other sign. -/
def negate (x : Binary64) : Binary64 :=
  ⟨x.bits ^^^ 0x8000000000000000⟩

/-- The integer factor of a finite number. -/
def significand (x : Binary64) : Nat :=
  if x.exponentField = 0 then x.fractionField else exponentBit + x.fractionField

/-- The power of two of a finite number. -/
def scale (x : Binary64) : Int :=
  if x.exponentField = 0 then -1074 else (x.exponentField : Int) - 1075

/-! ## Reading a decimal -/

/-- The quotient rounded to the nearest integer, a tie to the even one. -/
def roundDiv (num den : Nat) : Nat :=
  let floor := num / den
  let twice := 2 * (num % den)
  if twice < den then floor
  else if den < twice then floor + 1
  else floor + floor % 2

/-- The nearest positive number to `num / den`, both positive. The significand has 53 bits unless
the scale is at its least; the pattern of `significand · 2 ^ scale` is
`(scale + 1074) · 2 ^ 52 + significand`, also where rounding has carried into the next power. -/
def ofRatio (num den : Nat) : Binary64 :=
  let quotient (scale : Int) : Nat × Nat := 
    (num * Nat.pow 2 (-scale).toNat, den * Nat.pow 2 scale.toNat)
  let first : Int := max (-1074) ((num.log2 : Int) - den.log2 - 52)
  let (n, d) := quotient first
  let scale : Int := if n / d < exponentBit then max (-1074) (first - 1) else first
  let (n, d) := quotient scale
  ⟨UInt64.ofNat (min infinityBits ((scale + 1074).toNat * exponentBit + roundDiv n d))⟩

/-- The number of decimal digits of a natural number. -/
def digitCount (n : Nat) : Nat :=
  (Nat.toDigits 10 n).length

/-- The nearest number to `digits · 10 ^ exponent`. Exponents far outside the range of finite
numbers are decided without computing the power, by `10 ^ (b / 4) ≤ digits < 10 ^ (b / 3 + 1)` for
the binary logarithm `b` of `digits`. -/
def nearest (digits : Nat) (exponent : Int) : Binary64 :=
  if digits = 0 then ⟨0⟩
  else if 400 < exponent + digits.log2 / 4 then ⟨UInt64.ofNat infinityBits⟩
  else if exponent + digits.log2 / 3 + 1 < -400 then ⟨0⟩
  else ofRatio (digits * Nat.pow 10 exponent.toNat) (Nat.pow 10 (-exponent).toNat)

end Binary64

end SchemaLang
