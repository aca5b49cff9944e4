import WhatIf.Decimal.Binary64
/-!
# Decimal — the fewest digits that read back

A reader takes a decimal to the nearest double, so the decimals read as one
double fill an interval around it, whose ends belong to it iff its mantissa
is even. Among the decimals inside, those of fewest digits are preferred,
and of those the nearest to the double. A grid of `n` digits meets the
interval only if one of the double's two neighbours on that grid does, so
testing the two neighbours at `1, 2, …, 17` digits finds the first grid with
a hit. Which of two hits at equal distance wins is the caller's choice.
-/

namespace WhatIf

namespace Decimal

/-- Where a value lies exactly halfway between two candidates: take the
greater, or take the one whose last digit is even. -/
inductive Tie where
  | greater
  | even
  deriving DecidableEq

/-- Whether the upper of two neighbours wins, `lower` being the lower one,
when the value lies `below` above the lower and `above` below the upper. -/
def Tie.picksUpper (tie : Tie) (lower below above : Nat) : Bool :=
  if below = above then
    match tie with
    | .greater => true
    | .even => lower % 2 = 1
  else above < below

/-- The quotient rounded to the nearest natural number. -/
def roundDiv (tie : Tie) (num den : Nat) : Nat :=
  let q := num / den
  let r := num % den
  if tie.picksUpper q r (den - r) then q + 1 else q

/-- A positive decimal `0.d₁d₂… * 10^point`, its first digit not zero. -/
structure Digits where
  /-- The digits, most significant first. -/
  digits : List Char
  /-- How many of them stand before the decimal point. -/
  point : Int

/-- The number without the zeros at its end, in at most `fuel` steps. -/
def dropZeros : Nat → Nat → Nat
  | 0, n => n
  | fuel + 1, n => if n ≠ 0 ∧ n % 10 = 0 then dropZeros fuel (n / 10) else n

/-- A value and the ends of its interval over one denominator. -/
structure Interval where
  /-- The lower end. -/
  low : Nat
  /-- The value. -/
  mid : Nat
  /-- The upper end. -/
  high : Nat
  /-- What the three are divided by. -/
  den : Nat
  /-- Whether the ends belong to the interval. -/
  closed : Bool

/-- The reals read as `m * 2^e`. The lower neighbour of a power of two is
half as far as the upper one, except at the least exponent. -/
def Interval.of (m : Nat) (e : Int) : Interval :=
  let below := if m = twoTo 52 ∧ -1074 < e then 1 else 2
  let scale := twoTo (e - 2).toNat
  { low := (4 * m - below) * scale
    mid := 4 * m * scale
    high := (4 * m + 2) * scale
    den := twoTo (2 - e).toNat
    closed := m % 2 = 0 }

/-- Whether `n * num / den` lies in the interval. -/
def Interval.holds (i : Interval) (n num den : Nat) : Bool :=
  let x := n * num * i.den
  let low := i.low * den
  let high := i.high * den
  if i.closed then low ≤ x && x ≤ high else low < x && x < high

/-- The multiple of `num / den` in the interval that is nearest to its
value, if one of the value's neighbours among the multiples is inside. -/
def Interval.onGrid? (i : Interval) (tie : Tie) (num den : Nat) : Option Nat :=
  let value := i.mid * den
  let unit := num * i.den
  let q := value / unit
  let r := value % unit
  match i.holds q num den, i.holds (q + 1) num den with
  | true, true => some (if tie.picksUpper q r (unit - r) then q + 1 else q)
  | true, false => some q
  | false, true => some (q + 1)
  | false, false => none

/-- The power of ten just above `mid / den`: the least `p ≥ start` with
`mid < 10^p * den`, looked for in `fuel` steps. -/
def magnitude (mid den : Nat) : Nat → Int → Int
  | 0, p => p
  | fuel + 1, p =>
    if mid * tenTo (-p).toNat < den * tenTo p.toNat then p else magnitude mid den fuel (p + 1)

/-- A first guess for `magnitude`, never above it: `0.30102 < log₁₀ 2`. -/
def magnitudeGuess (mid den : Nat) : Int :=
  (Int.ofNat mid.log2 - Int.ofNat den.log2 - 1) * 30103 / 100000 - 1

/-- Try the grids of `n, n + 1, …` digits below `10^point`. -/
def searchGrids (i : Interval) (tie : Tie) (point : Int) : Nat → Nat → Option (Nat × Nat)
  | 0, _ => none
  | fuel + 1, n =>
    let unit := point - Int.ofNat n
    match i.onGrid? tie (tenTo unit.toNat) (tenTo (-unit).toNat) with
    | some d => some (d, n)
    | none => searchGrids i tie point fuel (n + 1)

/-- The digits of the shortest decimal read as `m * 2^e`, where `m` is not
zero. Seventeen digits always suffice. -/
def shortest (tie : Tie) (m : Nat) (e : Int) : Digits :=
  let i := Interval.of m e
  let point := magnitude i.mid i.den 8 (magnitudeGuess i.mid i.den)
  match searchGrids i tie point 17 1 with
  | some (d, n) =>
    -- rounding up may have carried into a new leading digit
    { digits := Nat.toDigits 10 (dropZeros n d)
      point := if d = tenTo n then point + 1 else point }
  | none => { digits := [], point := 0 }

end Decimal

end WhatIf
