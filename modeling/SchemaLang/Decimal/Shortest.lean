import SchemaLang.Decimal.Binary64

/-!
# The shortest decimal that reads back

Every finite positive number stands for an interval of reals: those that are nearer to it than to
its neighbours. The ends belong to the interval when the significand is even. The shortest decimal
of the number is the one with the fewest digits in the interval; of two with equally many the nearer
one, and of two equally near the greater one.
-/

namespace SchemaLang

/-- The decimal `0.d₁d₂d₃… · 10 ^ point` with the digits `d₁d₂d₃…` of `digits`. -/
structure Decimal where
  digits : Nat
  point : Int
  deriving DecidableEq, Repr

namespace Decimal

/-- The interval of reals that read as one number, with the number itself, over one common
denominator. -/
structure Interval where
  low : Nat
  value : Nat
  high : Nat
  den : Nat
  /-- Whether the ends belong to the interval. -/
  closed : Bool
  deriving Repr

/-- The interval of a finite positive number. Below a power of two the neighbour is nearer. -/
def Interval.of (x : Binary64) : Interval :=
  let m := x.significand
  let scale := x.scale - 2
  let unit := Nat.pow 2 scale.toNat
  let gap := if x.fractionField = 0 ∧ 1 < x.exponentField then 1 else 2
  { low := (4 * m - gap) * unit
    value := 4 * m * unit
    high := (4 * m + 2) * unit
    den := Nat.pow 2 (-scale).toNat
    closed := m % 2 == 0 }

/-- Whether `candidate · 10 ^ exponent` lies in the interval. -/
def Interval.holds (i : Interval) (candidate : Nat) (exponent : Int) : Bool :=
  let scaled := candidate * Nat.pow 10 exponent.toNat * i.den
  let power := Nat.pow 10 (-exponent).toNat
  if i.closed then decide (i.low * power ≤ scaled) && decide (scaled ≤ i.high * power)
  else decide (i.low * power < scaled) && decide (scaled < i.high * power)

/-- The integer `k` with `10 ^ (k - 1) ≤ value < 10 ^ k`. -/
def Interval.order (i : Interval) : Int :=
  if i.den ≤ i.value then Binary64.digitCount (i.value / i.den)
  else
    let d := Binary64.digitCount (i.den / i.value)
    let zeros : Nat := if i.den ≤ i.value * Nat.pow 10 (d - 1) then d - 1 else d
    1 - zeros

/-- The decimal of `count` digits in the interval that is nearest to the value, if there is one. It
is one of the two neighbours of the value on the grid of such decimals. -/
def Interval.onGrid? (i : Interval) (order : Int) (count : Nat) : Option Nat :=
  let exponent := order - count
  let num := i.value * Nat.pow 10 (-exponent).toNat
  let den := i.den * Nat.pow 10 exponent.toNat
  let floor := num / den
  let below := i.holds floor exponent
  let above := i.holds (floor + 1) exponent
  if below && (!above || decide (2 * (num % den) < den)) then some floor
  else if above then some (floor + 1)
  else none

/-- Drops trailing zeros, at most `fuel` of them. -/
def stripZeros : Nat → Nat → Nat
  | 0, n => n
  | fuel + 1, n => if n ≠ 0 ∧ n % 10 = 0 then stripZeros fuel (n / 10) else n

/-- The shortest decimal among those of at least `count` digits, trying `tries` lengths. -/
def Interval.search (i : Interval) (order : Int) : Nat → Nat → Decimal
  | 0, count => ⟨i.value * Nat.pow 10 count / i.den, order⟩
  | tries + 1, count =>
    match i.onGrid? order count with
    | some digits =>
      ⟨stripZeros 20 digits, order + Binary64.digitCount digits - count⟩
    | none => i.search order tries (count + 1)

/-- The shortest decimal of a finite positive number; seventeen digits always suffice. -/
def shortest (x : Binary64) : Decimal :=
  let i := Interval.of x
  i.search i.order 17 1

end Decimal

end SchemaLang
