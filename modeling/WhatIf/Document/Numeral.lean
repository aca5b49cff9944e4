import WhatIf.Decimal.Read
/-!
# Document — numbers as they are written

A numeral keeps its digits until it is known what they are read as. Without
fraction and exponent it is an integer, if it fits in 64 bits. Every numeral
is read as the double nearest to all its digits, unless that is infinite.
-/

namespace WhatIf

/-- A number as it is written. -/
structure Numeral where
  /-- Whether it has a minus sign. -/
  negative : Bool
  /-- The digits before the point. -/
  whole : List Char
  /-- The digits after the point, none if there is no point. -/
  fraction : List Char
  /-- The exponent. -/
  exponent : Option Int

namespace Numeral

variable (n : Numeral)

/-- The integer it is, if it has neither fraction nor exponent and fits in
64 bits, with or without sign. A negative zero is none. -/
def int? : Option Int :=
  if !n.fraction.isEmpty || n.exponent.isSome then none
  else
    let m := Decimal.digitsValue 0 n.whole
    if n.negative then if 0 < m ∧ m ≤ Decimal.twoTo 63 then some (-Int.ofNat m) else none
    else if m < Decimal.twoTo 64 then some (Int.ofNat m)
    else none

/-- Its digits and power of ten, without the sign. -/
def magnitude : Decimal.Written :=
  ⟨Decimal.digitsValue 0 (n.whole ++ n.fraction),
    n.exponent.getD 0 - Int.ofNat n.fraction.length⟩

/-- The double nearest to it, if that is finite. A zero keeps its sign. -/
def float? : Option Float :=
  let x := n.magnitude.nearest
  if x.isFinite then some (if n.negative then -x else x) else none

end Numeral

end WhatIf
