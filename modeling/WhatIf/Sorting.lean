import WhatIf.Sorting.Pivot
/-!
# Sorting — one order for lists of every length

On a strict weak order `sort` is the stable sort, whatever way it takes. Bounds
need not have one: a value that is no number compares with nothing, and two
whole numbers that differ may both equal one fraction. Then the way shows in
the result, and the length decides it: a short list is sorted by insertion,
one of up to two blocks by joining sorted blocks, and a longer one by joining
runs, where a run that is not in order already is parted by pivots.
-/

namespace WhatIf

namespace Sorting

variable {α : Type} (less : α → α → Bool)

/-- The items in order. -/
def sort (seed : Seed) (xs : List α) : List α :=
  if xs.length ≤ 20 then insertion less xs
  else if xs.length ≤ 2 * Block.limit then blockwise less seed xs
  else runwise less (parting less seed) (fun ys => ⟨ys.take (Run.least xs.length), false⟩) xs

end Sorting

end WhatIf
