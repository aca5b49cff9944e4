import WhatIf.Sorting.Block
/-!
# Sorting — runs

A long list is cut into runs, and neighbouring runs are joined two by two. A
stretch that is in order already, or in strictly falling order, is a run of
its own where it is long enough. A run may be left unsorted for a while: two
unsorted runs join to one, and only where one of the two is sorted is the
other settled and merged with it.

Which neighbours join first follows the halving of the list: the boundary of
two runs belongs to the level at which halving the whole list again and again
first parts the middles of the two, and deeper levels join before higher ones.
-/

namespace WhatIf

namespace Sorting

/-- Neighbouring items of a list, with a mark if they are in order. -/
structure Run (α : Type) where
  items : List α
  sorted : Bool

variable {α : Type} (less : α → α → Bool)

/-- The longest start of a list in which each item is followed as `step`
asks, the item before the list included. -/
def stretch (step : α → α → Bool) : α → List α → List α
  | _, [] => []
  | x, y :: ys => if step x y then y :: stretch step y ys else []

/-- The stretch a list starts with: in order, or strictly falling and then
turned. -/
def natural : List α → List α
  | x :: y :: ys =>
    if less y x then (x :: stretch (fun a b => less b a) x (y :: ys)).reverse
    else x :: stretch (fun a b => !less b a) x (y :: ys)
  | few => few

namespace Run

/-- The fewest items a natural run of a list of `n` items must have: half of
them up to 64, and in a very long list about the root of `n`. -/
def least (n : Nat) : Nat :=
  if n ≤ 4096 then min (n - n / 2) 64
  else
    let root := 1 <<< ((1 + n.log2) / 2)
    (root + n / root) / 2

/-- The items of a run in order. -/
def settle (arrange : List α → List α) (r : Run α) : List α :=
  if r.sorted then r.items else arrange r.items

/-- Two neighbouring runs as one. -/
def join (arrange : List α → List α) (r s : Run α) : Run α :=
  if r.sorted || s.sorted then ⟨merge less (r.settle arrange) (s.settle arrange), true⟩
  else ⟨r.items ++ s.items, false⟩

/-- The runs of a list, each the natural one if it has `enough` items, else
what `short` makes of the start of the list. Every run holds an item, so at
most as many are cut as there are items. -/
def cut (enough : Nat) (short : List α → Run α) : Nat → List α → List (Run α)
  | 0, _ => []
  | _, [] => []
  | n + 1, xs =>
    let own := natural less xs
    let run := if enough ≤ own.length then ⟨own, true⟩ else short xs
    run :: cut enough short n (xs.drop run.items.length)

/-- The level of the boundary `mid` between a run from `left` and a run up to
`right`, in a list of `n` items: the number of leading binary places that the
middles of the two have in common. Positions are scaled so that the list has
the length `2 ^ 62`, and a sum of two of them has 64 places. -/
def level (n left mid right : Nat) : Nat :=
  let scale := (4611686018427387904 + n - 1) / n
  63 - ((scale * (left + mid)) ^^^ (scale * (mid + right))).log2

/-- Join a run with those before it whose boundaries are not above a level.
The nearest comes first, each with the level of the boundary behind it. -/
def joinDown (arrange : List α → List α) (bound : Nat) :
    List (Run α × Nat) → Run α → List (Run α × Nat) × Run α
  | [], r => ([], r)
  | (p, depth) :: before, r =>
    if bound ≤ depth then joinDown arrange bound before (join less arrange p r)
    else ((p, depth) :: before, r)

/-- All runs as one: `before` holds those that wait, `last` is the one just
read and starts at `start`, and the others follow. -/
def joinAll (arrange : List α → List α) (n : Nat) :
    Nat → List (Run α × Nat) → Run α → List (Run α) → Run α
  | _, before, last, [] => (joinDown less arrange 0 before last).2
  | start, before, last, next :: rest =>
    let mid := start + last.items.length
    let depth := level n start mid (mid + next.items.length)
    let (before, joined) := joinDown less arrange depth before last
    joinAll arrange n mid ((joined, depth) :: before) next rest

end Run

/-- The items in order by joining runs. -/
def runwise (arrange : List α → List α) (short : List α → Run α) (xs : List α) : List α :=
  match Run.cut less (Run.least xs.length) short xs.length xs with
  | [] => []
  | r :: rest => (Run.joinAll less arrange xs.length 0 [] r rest).settle arrange

/-- The items in order by joining runs, where a short run is a sorted block. -/
def blockwise (seed : Seed) (xs : List α) : List α :=
  runwise less (insertion less) (fun ys => ⟨block less seed (ys.take Block.limit), true⟩) xs

end Sorting

end WhatIf
