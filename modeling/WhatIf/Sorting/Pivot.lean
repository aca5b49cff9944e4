import WhatIf.Sorting.Runs
/-!
# Sorting — parting by a pivot

A long list in no order is parted into the items below one of its own, the
pivot, and the others, and each part is treated in the same way until it is a
block. Where the pivot is not above the pivot to the left of the part, or
nothing is below it, the items not above the pivot are all alike and stay.
The number of partings in a row is bounded; past the bound, runs are joined.
-/

namespace WhatIf

namespace Sorting

variable {α : Type} (less : α → α → Bool)

/-- The middle one of three items. -/
def median (a b c : α) : α :=
  if less a b = less a c then if less b c = less a b then b else c else a

/-- The item that stands for the first `n` of a list: the first one of few,
else the median of those that stand for the first, the fifth and the last
eighth. -/
def middle (n : Nat) (default : α) (xs : List α) : α :=
  if n < 8 then xs.headD default
  else
    median less (middle (n / 8) default xs)
      (middle (n / 8) default (xs.drop (n / 8 * 4)))
      (middle (n / 8) default (xs.drop (n / 8 * 7)))
termination_by n

/-- A list around one of its items. -/
structure Pivot (α : Type) where
  before : List α
  item : α
  after : List α

namespace Pivot

/-- A list around the item that stands for it. -/
def of? (xs : List α) : Option (Pivot α) :=
  match xs.zipIdx with
  | [] => none
  | p :: ps =>
    let place := (middle (fun p q => less p.1 q.1) xs.length p (p :: ps)).2
    match xs.drop place with
    | [] => none
    | item :: after => some ⟨xs.take place, item, after⟩

variable (p : Pivot α)

/-- The items less than the pivot. -/
def below : List α :=
  p.before.filter (less · p.item) ++ p.after.filter (less · p.item)

/-- The pivot and the items not less than it. -/
def notBelow : List α :=
  p.before.filter (!less · p.item) ++ p.item :: p.after.filter (!less · p.item)

/-- The items the pivot is less than. -/
def above : List α :=
  p.before.filter (less p.item ·) ++ p.after.filter (less p.item ·)

/-- The pivot and the items it is not less than. -/
def notAbove : List α :=
  p.before.filter (!less p.item ·) ++ p.item :: p.after.filter (!less p.item ·)

end Pivot

/-- The items in order by at most so many partings in a row. `left?` is the
pivot to the left of the list. -/
def partingAtMost (seed : Seed) : Nat → Option α → List α → List α
  | 0, _, xs => if xs.length ≤ Block.limit then block less seed xs else blockwise less seed xs
  | n + 1, left?, xs =>
    if xs.length ≤ Block.limit then block less seed xs
    else
      match Pivot.of? less xs with
      | none => xs
      | some p =>
        if (left?.any fun left => !less left p.item) || (p.below less).isEmpty then
          p.notAbove less ++ partingAtMost seed n none (p.above less)
        else
          partingAtMost seed n left? (p.below less) ++
            partingAtMost seed n (some p.item) (p.notBelow less)

/-- The items in order by parting. -/
def parting (seed : Seed) (xs : List α) : List α :=
  partingAtMost less seed (2 * xs.length.log2) none xs

end Sorting

end WhatIf
