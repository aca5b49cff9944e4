import WhatIf.Decimal.Shortest
/-!
# Decimal — how numbers are written

Three written forms of a double. The plain form never uses an exponent and
drops a fraction of zero. The document form keeps at least one fraction
digit and turns to an exponent outside `10^-5 … 10^16`. The fixed form has a
given number of places and rounds the exact value.
-/

namespace WhatIf

namespace Decimal

/-- So many zeros. -/
def zeros (n : Nat) : String := String.ofList (List.replicate n '0')

/-- Positional text of a decimal: what stands before the point, and what
stands after it, which may be empty. -/
def Digits.positional (d : Digits) : String × String :=
  if d.point ≤ 0 then
    ("0", zeros (-d.point).toNat ++ String.ofList d.digits)
  else
    let whole := d.point.toNat
    if d.digits.length ≤ whole then
      (String.ofList d.digits ++ zeros (whole - d.digits.length), "")
    else
      (String.ofList (d.digits.take whole), String.ofList (d.digits.drop whole))

/-- The decisions of a written form of shortest digits. -/
structure Layout where
  /-- Which of two equally near decimals is written. -/
  tie : Tie
  /-- The least and the greatest decimal exponent written positionally. -/
  positional : Int × Int
  /-- What is written after the last digit of a whole number. -/
  wholeTail : String
  /-- Text of what is not a number. -/
  nan : String
  /-- Text of the two infinities, the negative one first. -/
  infinite : String × String

/-- The plain form: `5`, `-0`, `0.0000001`, `NaN`, `inf`. -/
def Layout.plain : Layout where
  tie := .greater
  positional := (-400, 400)
  wholeTail := ""
  nan := "NaN"
  infinite := ("-inf", "inf")

/-- The document form: `5.0`, `0.00001`, `1e+16`, `1.5e-7`. What is no
finite number is written `null`. -/
def Layout.document : Layout where
  tie := .even
  positional := (-5, 15)
  wholeTail := ".0"
  nan := "null"
  infinite := ("null", "null")

/-- The digits with the point after the first one and a signed exponent. -/
def Digits.scientific (d : Digits) : String :=
  let power := d.point - 1
  let sign := if power < 0 then "-" else "+"
  let tail := d.digits.drop 1
  let fraction := if tail.isEmpty then "" else "." ++ String.ofList tail
  String.ofList (d.digits.take 1) ++ fraction ++ "e" ++ sign ++ toString power.natAbs

/-- Text of a positive decimal. -/
def Layout.writeDigits (l : Layout) (d : Digits) : String :=
  let power := d.point - 1
  if l.positional.1 ≤ power ∧ power ≤ l.positional.2 then
    let (whole, fraction) := d.positional
    if fraction.isEmpty then whole ++ l.wholeTail else whole ++ "." ++ fraction
  else d.scientific

/-- Text of a double. -/
def Layout.write (l : Layout) (x : Float) : String :=
  match decode x with
  | .nan => l.nan
  | .infinite negative => if negative then l.infinite.1 else l.infinite.2
  | .finite negative m e =>
    let magnitude := if m = 0 then "0" ++ l.wholeTail else l.writeDigits (shortest l.tie m e)
    if negative then "-" ++ magnitude else magnitude

/-- Text with exactly `places` fraction digits, the exact value rounded and
a tie going to the even digit. -/
def fixed (places : Nat) (x : Float) : String :=
  match decode x with
  | .nan => "NaN"
  | .infinite negative => if negative then "-inf" else "inf"
  | .finite negative m e =>
    let scaled := roundDiv .even (m * twoTo e.toNat * tenTo places) (twoTo (-e).toNat)
    let whole := toString (scaled / tenTo places)
    let fraction := toString (scaled % tenTo places)
    let padded := zeros (places - fraction.length) ++ fraction
    let magnitude := if places = 0 then whole else whole ++ "." ++ padded
    if negative then "-" ++ magnitude else magnitude

end Decimal

end WhatIf
