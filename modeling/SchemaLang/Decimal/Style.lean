import SchemaLang.Decimal.Shortest

/-!
# Writing numbers

A style says which decimals are written positionally, as in `0.05` or `1200`, and which with an
exponent, as in `1.5e20`, and what follows a number without a fraction.
-/

namespace SchemaLang

/-- How a decimal is laid out. -/
structure DecimalStyle where
  /-- What follows a positional number without a fraction. -/
  wholeMark : String
  /-- Whether a decimal with this place of its point is written positionally. -/
  isPositional : Int → Bool

namespace DecimalStyle

/-- In messages a number is always written positionally and an integer has no point. -/
def message : DecimalStyle := ⟨"", fun _ => true⟩

/-- In outlines an integer keeps a point, and numbers below `10 ^ (-4)` or from `10 ^ 16` on have an
exponent. -/
def outline : DecimalStyle :=
  ⟨".0", fun point => decide (-3 ≤ point) && decide (point ≤ 16)⟩

def zeros (count : Nat) : String :=
  String.ofList (List.replicate count '0')

/-- The digits with the decimal point at its place. -/
def positional (style : DecimalStyle) (x : Decimal) : String :=
  let digits := Nat.toDigits 10 x.digits
  if x.point ≤ 0 then "0." ++ zeros (-x.point).toNat ++ String.ofList digits
  else
    let whole := x.point.toNat
    if digits.length ≤ whole then
      String.ofList digits ++ zeros (whole - digits.length) ++ style.wholeMark
    else
      String.ofList (digits.take whole) ++ "." ++ String.ofList (digits.drop whole)

/-- One digit before the point and the power of ten after the mark. -/
def exponential (x : Decimal) : String :=
  let digits := Nat.toDigits 10 x.digits
  let fraction := digits.drop 1
  String.ofList (digits.take 1)
    ++ (if fraction.isEmpty then "" else "." ++ String.ofList fraction)
    ++ "e" ++ toString (x.point - 1)

/-- The text of a positive finite number. -/
def positive (style : DecimalStyle) (x : Decimal) : String :=
  if style.isPositional x.point then style.positional x else exponential x

/-- The text of a number. -/
def render (style : DecimalStyle) (x : Binary64) : String :=
  if x.isNaN then "NaN"
  else
    let text :=
      if x.isInfinite then "inf"
      else if x.isZero then "0" ++ style.wholeMark
      else style.positive (Decimal.shortest x)
    if x.isNegative then "-" ++ text else text

end DecimalStyle

end SchemaLang
