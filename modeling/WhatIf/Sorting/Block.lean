import WhatIf.Sorting.Merging
/-!
# Sorting — blocks

A block is a list of at most `Block.limit` items. It is sorted in two halves
that meet: in each half the first few items are put in order by a fixed plan
of comparisons, the seed, and the others enter behind them.
-/

namespace WhatIf

namespace Sorting

/-- The most items a seed may hold. -/
inductive Seed where
  | four
  | eight
deriving DecidableEq, Repr

variable {α : Type} (less : α → α → Bool)

/-- Four items in order: two pairs, the least and the greatest of all, then
the two between. -/
def four (a b c d : α) : List α :=
  let (a, b) := if less b a then (b, a) else (a, b)
  let (c, d) := if less d c then (d, c) else (c, d)
  let (least, greatest, x, y) :=
    match less c a, less d b with
    | false, false => (a, d, b, c)
    | false, true => (a, b, c, d)
    | true, false => (c, d, a, b)
    | true, true => (c, b, a, d)
  let (x, y) := if less y x then (y, x) else (x, y)
  [least, x, y, greatest]

namespace Block

/-- The most items a block may hold. -/
def limit : Nat := 32

/-- One half of a block of `whole` items: a block of eight items or more has
seeds of four, one of sixteen or more has seeds of eight if these are allowed. -/
def half (seed : Seed) (whole : Nat) : List α → List α
  | a :: b :: c :: d :: rest =>
    if whole < 8 then insertion less (a :: b :: c :: d :: rest)
    else
      match seed, rest with
      | .eight, e :: f :: g :: h :: more =>
        if whole < 16 then extend less (four less a b c d) (e :: f :: g :: h :: more)
        else extend less (meet less (four less a b c d) (four less e f g h)) more
      | _, more => extend less (four less a b c d) more
  | few => insertion less few

end Block

/-- The items of a block in order. -/
def block (seed : Seed) (xs : List α) : List α :=
  let n := xs.length
  meet less (Block.half less seed n (xs.take (n / 2))) (Block.half less seed n (xs.drop (n / 2)))

end Sorting

end WhatIf
