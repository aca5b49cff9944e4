import WhatIf.Decimal.Binary64
/-!
# Decimal — reading numbers

A decimal is read as its digits and a power of ten, without rounding, and
then taken to the nearest double in one step.
-/

namespace WhatIf

namespace Decimal

/-- An unsigned decimal `digits * 10^exponent`. -/
structure Written where
  /-- All digits read as one number. -/
  digits : Nat
  /-- The power of ten. -/
  exponent : Int
  deriving DecidableEq

/-- The value of a run of digits, after those already read as `acc`. -/
def digitsValue (acc : Nat) : List Char → Nat
  | [] => acc
  | c :: rest => digitsValue (acc * 10 + (c.toNat - 48)) rest

/-- Split off the digits at the front. -/
def spanDigits (cs : List Char) : List Char × List Char :=
  (cs.takeWhile Char.isDigit, cs.dropWhile Char.isDigit)

/-- Read a signed exponent, all of `cs`. -/
def readExponent? (cs : List Char) : Option Int :=
  let (negative, digits) := match cs with
    | '+' :: rest => (false, rest)
    | '-' :: rest => (true, rest)
    | rest => (false, rest)
  if digits.isEmpty || !digits.all Char.isDigit then none
  else
    let n := Int.ofNat (digitsValue 0 digits)
    some (if negative then -n else n)

/-- Read an unsigned number: digits with an optional point, at least one
digit on either side of it, and an optional exponent. -/
def readUnsigned? (cs : List Char) : Option Written :=
  let (whole, rest) := spanDigits cs
  let (fraction, rest) := match rest with
    | '.' :: rest => spanDigits rest
    | rest => ([], rest)
  if whole.isEmpty && fraction.isEmpty then none
  else
    let exponent? := match rest with
      | [] => some 0
      | c :: rest => if c = 'e' || c = 'E' then readExponent? rest else none
    exponent?.map fun e =>
      { digits := digitsValue 0 (whole ++ fraction), exponent := e - Int.ofNat fraction.length }

/-- The double nearest to a decimal; infinite where it is out of range. -/
def Written.nearest (w : Written) : Float :=
  let top := w.exponent + Int.ofNat (Nat.toDigits 10 w.digits).length
  if w.digits = 0 ∨ top < -330 then 0
  else if 310 < top then Float.ofScientific 1 false 400
  else if w.exponent < 0 then Float.ofScientific w.digits true w.exponent.natAbs
  else Float.ofScientific w.digits false w.exponent.natAbs

/-- Read a finite number in decimal notation, with an optional sign. -/
def read? (s : String) : Option Float :=
  let (negative, cs) := match s.toList with
    | '+' :: rest => (false, rest)
    | '-' :: rest => (true, rest)
    | rest => (false, rest)
  (readUnsigned? cs).map fun w => if negative then -w.nearest else w.nearest

end Decimal

end WhatIf
