/-!
# Decimal — the exact value of a double

A finite double is a sign, a natural number below `2^53` and a power of
two. Every exact question about a double (is it an integer, which decimal
lies nearest) is asked of these three.
-/

namespace WhatIf

namespace Decimal

/-- A power of two. -/
def twoTo (e : Nat) : Nat := Nat.pow 2 e

/-- A power of ten. -/
def tenTo (e : Nat) : Nat := Nat.pow 10 e

/-- What a double denotes. A finite one is `mantissa * 2^exponent`, negated
if `negative`; zero keeps its sign. -/
inductive Binary64 where
  | nan
  | infinite (negative : Bool)
  | finite (negative : Bool) (mantissa : Nat) (exponent : Int)
  deriving DecidableEq

/-- Whether the sign bit of a double is set. -/
def isNegative (x : Float) : Bool := decide (twoTo 63 ≤ x.toBits.toNat)

/-- Read the sign, exponent and fraction fields of a double. -/
def decode (x : Float) : Binary64 :=
  let bits := x.toBits.toNat
  let negative := isNegative x
  let field := bits / twoTo 52 % 2048
  let fraction := bits % twoTo 52
  if field = 2047 then
    if fraction = 0 then .infinite negative else .nan
  else if field = 0 then .finite negative fraction (-1074)
  else .finite negative (twoTo 52 + fraction) (Int.ofNat field - 1075)

/-- The integer `mantissa * 2^exponent`, if it is one. -/
def wholeMagnitude? (mantissa : Nat) (exponent : Int) : Option Nat :=
  match exponent with
  | .ofNat e => some (mantissa * twoTo e)
  | .negSucc e => if mantissa % twoTo (e + 1) = 0 then some (mantissa / twoTo (e + 1)) else none

/-- The integer a double equals, if there is one. Both zeros equal `0`. -/
def whole? (x : Float) : Option Int :=
  match decode x with
  | .finite negative m e =>
    (wholeMagnitude? m e).map fun n => if negative then -Int.ofNat n else Int.ofNat n
  | _ => none

/-- Whether an integer fits in 64 bits with a sign. -/
def isInt64 (n : Int) : Bool :=
  -Int.ofNat (twoTo 63) ≤ n && n < Int.ofNat (twoTo 63)

/-- The 64-bit integer a double equals, if there is one. -/
def int64? (x : Float) : Option Int64 :=
  match whole? x with
  | some n => if isInt64 n then some (Int64.ofInt n) else none
  | none => none

/-- The double nearest to a 64-bit integer, ties going to the even one. -/
def ofInt64 (i : Int64) : Float := Float.ofInt i.toInt

/-- The double nearest to a count. -/
def ofCount (n : Nat) : Float := Float.ofNat n

/-- The order of two doubles: `none` when either is not a number; the two
zeros are equal. -/
def compare (a b : Float) : Option Ordering :=
  if a < b then some .lt
  else if b < a then some .gt
  else if a == b then some .eq
  else none

/-- The greater of two doubles, and the other one if one is not a number.
Of the two zeros the positive one is the greater: doubles that are equal and
yet differ are told apart by their sign. -/
def greater (a b : Float) : Float :=
  if b.isNaN then a
  else if a.isNaN then b
  else if a < b then b
  else if b < a then a
  else if isNegative a then b
  else a

/-- The lesser of two doubles, and the other one if one is not a number.
Of the two zeros the negative one is the lesser. -/
def lesser (a b : Float) : Float :=
  if b.isNaN then a
  else if a.isNaN then b
  else if a < b then a
  else if b < a then b
  else if isNegative a then a
  else b

/-- A double moved into the closed interval from `low` to `high`; what is
not a number stays so. -/
def clamp (low high x : Float) : Float :=
  if x < low then low else if high < x then high else x

/-- The least integer that is not below `mantissa * 2^exponent`. -/
def ceilMagnitude (mantissa : Nat) (exponent : Int) : Nat :=
  match exponent with
  | .ofNat e => mantissa * twoTo e
  | .negSucc e => (mantissa + (twoTo (e + 1) - 1)) / twoTo (e + 1)

/-- A double rounded up to a count: nothing below zero, and at most the
greatest 64-bit word. -/
def ceilCount (x : Float) : Nat :=
  match decode x with
  | .finite false m e => min (ceilMagnitude m e) (twoTo 64 - 1)
  | .infinite false => twoTo 64 - 1
  | _ => 0

end Decimal

end WhatIf
