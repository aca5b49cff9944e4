/-!
# Sorting — insertion

Items enter a sorted list one by one at its end and move forward past every
item they are less than, up to the first they are not less than. Where `less`
is a strict weak order this is the stable sort. Where it is not, the result is
still determined by the order of the items.
-/

namespace WhatIf

namespace Sorting

variable {α : Type} (less : α → α → Bool)

/-- Enter an item into a list that is sorted from its end to its front. -/
def enter (x : α) : List α → List α
  | [] => [x]
  | y :: ys => if less x y then y :: enter x ys else x :: y :: ys

/-- A sorted list with more items entered, in the order they are given. -/
def extend (sorted more : List α) : List α :=
  (more.foldl (fun acc x => enter less x acc) sorted.reverse).reverse

/-- The items in order, each entered in turn. -/
def insertion (xs : List α) : List α := extend less [] xs

/-! ## Nothing is lost -/

/-- Entering an item adds that item. -/
theorem enter_perm (x : α) (ys : List α) : (enter less x ys).Perm (x :: ys) := by
  induction ys with
  | nil => exact .refl _
  | cons y ys ih =>
    unfold enter
    split
    · exact (ih.cons y).trans (.swap x y ys)
    · exact .refl _

/-- Entering many items adds just these. -/
theorem foldl_enter_perm (more acc : List α) :
    (more.foldl (fun acc x => enter less x acc) acc).Perm (more ++ acc) := by
  induction more generalizing acc with
  | nil => exact .refl _
  | cons x more ih =>
    refine (ih _).trans ?_
    exact ((enter_perm less x acc).append_left more).trans List.perm_middle

/-- Extending a list adds just the items that enter. -/
theorem extend_perm (sorted more : List α) : (extend less sorted more).Perm (sorted ++ more) := by
  refine (List.reverse_perm _).trans ((foldl_enter_perm less more _).trans ?_)
  exact ((List.reverse_perm sorted).append_left more).trans List.perm_append_comm

/-- Insertion keeps every item. -/
theorem insertion_perm (xs : List α) : (insertion less xs).Perm xs := extend_perm less [] xs

end Sorting

end WhatIf
