import WhatIf.Sorting.Insertion
/-!
# Sorting — merging two sorted lists

Two sorted lists become one in two ways. `merge` walks from the end at which
the shorter list begins to fill the result; `meet` walks from both ends at
once and stops in the middle. Of items that do not compare, those of the first
list come first. On a strict weak order the two ways agree; a caller chooses
one because the results differ where the order contradicts itself.
-/

namespace WhatIf

namespace Sorting

variable {α : Type} (less : α → α → Bool)

/-- Both lists in one. The walk starts at the front when the first list is
not the longer one, else at the back. -/
def merge (xs ys : List α) : List α :=
  if xs.length ≤ ys.length then List.merge xs ys fun x y => !less y x
  else (List.merge xs.reverse ys.reverse fun x y => less y x).reverse

/-- What a walk over two lists has taken, and what it has left in each. -/
structure Drawn (α : Type) where
  taken : List α
  first : List α
  second : List α

/-- Take `n` items from the fronts of two lists, from the first where `first`
says so. -/
def draw (first : α → α → Bool) : Nat → List α → List α → Drawn α
  | n + 1, x :: xs, y :: ys =>
    if first x y then
      let d := draw first n xs (y :: ys)
      { d with taken := x :: d.taken }
    else
      let d := draw first n (x :: xs) ys
      { d with taken := y :: d.taken }
  | _, xs, ys => ⟨[], xs, ys⟩

/-- Both lists in one, of which the second is as long as the first or longer
by one: half of the items are taken from the front and half from the back, and
an odd item is what remains between. An order that contradicts itself may take
an item from both ends; then the lists are merged. -/
def meet (xs ys : List α) : List α :=
  let low := draw (fun x y => !less y x) xs.length xs ys
  let high := draw (fun x y => less y x) xs.length xs.reverse ys.reverse
  if xs.length ≤ low.first.length + high.first.length ∧
      ys.length ≤ low.second.length + high.second.length then
    low.taken ++
      (low.first.take (low.first.length + high.first.length - xs.length) ++
        low.second.take (low.second.length + high.second.length - ys.length)) ++
      high.taken.reverse
  else merge less xs ys

/-- Merging keeps every item of both lists. -/
theorem merge_perm (xs ys : List α) : (merge less xs ys).Perm (xs ++ ys) := by
  unfold merge
  split
  · exact List.merge_perm_append _
  · refine (List.reverse_perm _).trans ((List.merge_perm_append _).trans ?_)
    exact (List.reverse_perm xs).append (List.reverse_perm ys)

end Sorting

end WhatIf
