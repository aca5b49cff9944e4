import WhatIf.Sorting
import Mathlib.Algebra.Order.Group.Multiset
import Mathlib.Tactic.Abel
/-!
# Sorting — nothing is lost

Whatever way a list takes, what comes out is a permutation of what went in,
even where the order contradicts itself. Each way is made of steps that take
lists apart and put them together; a step that keeps every item is shown to,
and `sort_perm` follows the list through all of them.
-/

namespace WhatIf

namespace Sorting

variable {α : Type} (less : α → α → Bool)

/-! ## Two lists in one -/

/-- What a walk takes are the fronts of the two lists it leaves the rest of. -/
theorem draw_perm (first : α → α → Bool) (n : Nat) (xs ys : List α) :
    ∃ ps qs, xs = ps ++ (draw first n xs ys).first ∧ ys = qs ++ (draw first n xs ys).second ∧
      (draw first n xs ys).taken.Perm (ps ++ qs) := by
  induction n generalizing xs ys with
  | zero => exact ⟨[], [], by simp [draw], by simp [draw], by simp [draw]⟩
  | succ n ih =>
    rcases xs with _ | ⟨x, xs⟩
    · exact ⟨[], [], by simp [draw], by simp [draw], by simp [draw]⟩
    rcases ys with _ | ⟨y, ys⟩
    · exact ⟨[], [], by simp [draw], by simp [draw], by simp [draw]⟩
    rw [draw]
    split
    · obtain ⟨ps, qs, hxs, hys, htaken⟩ := ih xs (y :: ys)
      exact ⟨x :: ps, qs, congrArg (x :: ·) hxs, hys, htaken.cons x⟩
    · obtain ⟨ps, qs, hxs, hys, htaken⟩ := ih (x :: xs) ys
      exact ⟨ps, y :: qs, hxs, congrArg (y :: ·) hys, (htaken.cons y).trans List.perm_middle.symm⟩

/-- A list between the fronts taken from its two ends, which do not overlap. -/
theorem eq_of_fronts {xs ps rest ps' rest' : List α} (h : xs = ps ++ rest)
    (h' : xs.reverse = ps' ++ rest') (hlen : xs.length ≤ rest.length + rest'.length) :
    xs = ps ++ (rest.take (rest.length + rest'.length - xs.length) ++ ps'.reverse) := by
  have hback : xs = rest'.reverse ++ ps'.reverse := by
    rw [← List.reverse_append, ← h', List.reverse_reverse]
  have hdrop : rest.drop (rest.length + rest'.length - xs.length) = ps'.reverse := by
    have hxs : xs.length = ps.length + rest.length := by rw [h, List.length_append]
    have hplace : rest'.length = ps.length + (rest.length + rest'.length - xs.length) := by omega
    calc rest.drop (rest.length + rest'.length - xs.length)
        = (ps ++ rest).drop (ps.length + (rest.length + rest'.length - xs.length)) :=
          (List.drop_length_add_append _).symm
      _ = xs.drop rest'.length := by rw [← h, ← hplace]
      _ = ps'.reverse := by
          conv_lhs => rw [hback]
          rw [List.drop_left' (List.length_reverse)]
  rw [← hdrop, List.take_append_drop]
  exact h

/-- **Meeting keeps every item** of both lists. -/
theorem meet_perm (xs ys : List α) : (meet less xs ys).Perm (xs ++ ys) := by
  unfold meet
  dsimp only
  obtain ⟨ps, qs, hxs, hys, htaken⟩ := draw_perm (fun x y => !less y x) xs.length xs ys
  obtain ⟨ps', qs', hxs', hys', htaken'⟩ :=
    draw_perm (fun x y => less y x) xs.length xs.reverse ys.reverse
  generalize draw (fun x y => !less y x) xs.length xs ys = low at hxs hys htaken ⊢
  generalize draw (fun x y => less y x) xs.length xs.reverse ys.reverse = high
    at hxs' hys' htaken' ⊢
  split
  · rename_i hapart
    -- both lists in three parts: from the front, between, and from the back
    have hx := eq_of_fronts hxs hxs' hapart.1
    have hy := eq_of_fronts hys hys' hapart.2
    generalize low.first.take _ = mx at hx ⊢
    generalize low.second.take _ = my at hy ⊢
    have hfront := Multiset.coe_eq_coe.2 htaken
    have hback := Multiset.coe_eq_coe.2 ((List.reverse_perm _).trans htaken')
    have hps : (ps'.reverse : Multiset α) = ps' := Multiset.coe_reverse ps'
    have hqs : (qs'.reverse : Multiset α) = qs' := Multiset.coe_reverse qs'
    rw [hx, hy, ← Multiset.coe_eq_coe]
    simp only [← Multiset.coe_add] at hfront hback ⊢
    rw [hfront, hback, hps, hqs]
    abel
  · exact merge_perm less xs ys

/-! ## Blocks -/

/-- Two items, either way round. -/
theorem pair_eq (p : Prop) [Decidable p] (x y : α) :
    ({(if p then (y, x) else (x, y)).1} + {(if p then (y, x) else (x, y)).2} : Multiset α) =
      {x} + {y} := by
  split
  · exact add_comm _ _
  · rfl

theorem four_perm (a b c d : α) : (four less a b c d).Perm [a, b, c, d] := by
  unfold four
  have hab := pair_eq (less b a = true) a b
  have hcd := pair_eq (less d c = true) c d
  generalize (if less b a = true then (b, a) else (a, b)) = ab at hab ⊢
  generalize (if less d c = true then (d, c) else (c, d)) = cd at hcd ⊢
  rcases ab with ⟨a', b'⟩
  rcases cd with ⟨c', d'⟩
  dsimp only at hab hcd ⊢
  have hall : ({a'} + {b'} + ({c'} + {d'}) : Multiset α) = {a} + {b} + ({c} + {d}) := by
    rw [hab, hcd]
  -- whichever is the least and the greatest, the other two stay between them
  have hbetween : ∀ least greatest x y : α,
      ({least} + {greatest} + ({x} + {y}) : Multiset α) = {a'} + {b'} + ({c'} + {d'}) →
        [least, (if less y x = true then (y, x) else (x, y)).1,
          (if less y x = true then (y, x) else (x, y)).2, greatest].Perm [a, b, c, d] := by
    intro least greatest x y h
    have hxy := pair_eq (less y x = true) x y
    generalize (if less y x = true then (y, x) else (x, y)) = xy at hxy ⊢
    rw [← Multiset.coe_eq_coe]
    simp only [← Multiset.cons_coe, ← Multiset.singleton_add, Multiset.coe_nil, add_zero]
    calc ({least} + ({xy.1} + ({xy.2} + {greatest})) : Multiset α)
        = {least} + {greatest} + ({xy.1} + {xy.2}) := by abel
      _ = {a} + {b} + ({c} + {d}) := by rw [hxy, h, hall]
      _ = {a} + ({b} + ({c} + {d})) := by abel
  cases less c' a' with
  | false =>
    cases less d' b' with
    | false => exact hbetween a' d' b' c' (by abel)
    | true => exact hbetween a' b' c' d' rfl
  | true =>
    cases less d' b' with
    | false => exact hbetween c' d' a' b' (by abel)
    | true => exact hbetween c' b' a' d' (by abel)

theorem half_perm (seed : Seed) (whole : Nat) (xs : List α) :
    (Block.half less seed whole xs).Perm xs := by
  unfold Block.half
  split
  · rename_i a b c d rest
    have hfour : ∀ more, (extend less (four less a b c d) more).Perm (a :: b :: c :: d :: more) :=
      fun more => (extend_perm less _ _).trans ((four_perm less a b c d).append_right more)
    split
    · exact insertion_perm less _
    · split
      · rename_i e f g h more
        split
        · exact hfour _
        · refine (extend_perm less _ _).trans ?_
          have hmeet := (meet_perm less (four less a b c d) (four less e f g h)).trans
            ((four_perm less a b c d).append (four_perm less e f g h))
          exact hmeet.append_right more
      · exact hfour _
  · exact insertion_perm less _

theorem block_perm (seed : Seed) (xs : List α) : (block less seed xs).Perm xs := by
  unfold block
  refine (meet_perm less _ _).trans (((half_perm less ..).append (half_perm less ..)).trans ?_)
  rw [List.take_append_drop]

/-! ## Runs -/

theorem stretch_isPrefix (step : α → α → Bool) (x : α) (ys : List α) :
    stretch step x ys <+: ys := by
  induction ys generalizing x with
  | nil => exact List.prefix_rfl
  | cons y ys ih =>
    unfold stretch
    split
    · exact (List.prefix_cons_inj y).2 (ih y)
    · exact List.nil_prefix

/-- A natural run is the start of the list, perhaps turned. -/
theorem natural_perm (xs : List α) : (natural less xs).Perm (xs.take (natural less xs).length) := by
  have hstart : ∀ {zs : List α}, zs <+: xs → zs = xs.take zs.length := List.prefix_iff_eq_take.1
  unfold natural
  split
  · rename_i x y ys
    split
    · rw [List.length_reverse]
      refine (List.reverse_perm _).trans (.of_eq (hstart ?_))
      exact (List.prefix_cons_inj x).2 (stretch_isPrefix _ x _)
    · exact .of_eq (hstart ((List.prefix_cons_inj x).2 (stretch_isPrefix _ x _)))
  · exact .of_eq (List.take_length).symm

theorem natural_ne_nil {xs : List α} (h : xs ≠ []) : natural less xs ≠ [] := by
  unfold natural
  split
  · split
    · simp
    · simp
  · exact h

namespace Run

variable {arrange : List α → List α} {short : List α → Run α}

/-- **A run cut from the start of a list**: it holds the items it takes away,
and at least one. -/
def IsStart (r : Run α) (xs : List α) : Prop :=
  r.items.Perm (xs.take r.items.length) ∧ r.items ≠ []

/-- The runs that are cut make up the list. -/
theorem cut_perm {enough : Nat} (hshort : ∀ xs, xs ≠ [] → (short xs).IsStart xs) (n : Nat)
    {xs : List α} (hn : xs.length ≤ n) :
    ((cut less enough short n xs).flatMap items).Perm xs := by
  induction n generalizing xs with
  | zero =>
    rw [List.length_eq_zero_iff.1 (Nat.le_zero.1 hn)]
    exact .nil
  | succ n ih =>
    rcases xs with _ | ⟨x, xs⟩
    · exact .nil
    have hstart : IsStart (if enough ≤ (natural less (x :: xs)).length then
        ⟨natural less (x :: xs), true⟩ else short (x :: xs)) (x :: xs) := by
      split
      · exact ⟨natural_perm less _, natural_ne_nil less (List.cons_ne_nil _ _)⟩
      · exact hshort _ (List.cons_ne_nil _ _)
    rw [cut]
    generalize (if enough ≤ (natural less (x :: xs)).length then
      (⟨natural less (x :: xs), true⟩ : Run α) else short (x :: xs)) = run at hstart ⊢
    obtain ⟨hitems, hne⟩ := hstart
    have hpos : 0 < run.items.length := List.length_pos_iff.2 hne
    have hlen : ((x :: xs).drop run.items.length).length ≤ n := by
      rw [List.length_drop]
      omega
    rw [List.flatMap_cons]
    refine (hitems.append (ih hlen)).trans ?_
    rw [List.take_append_drop]
    · intro h
      cases h

variable (harrange : ∀ xs, (arrange xs).Perm xs)

include harrange

theorem settle_perm (r : Run α) : (r.settle arrange).Perm r.items := by
  unfold settle
  split
  · exact .refl _
  · exact harrange _

theorem join_perm (r s : Run α) : (join less arrange r s).items.Perm (r.items ++ s.items) := by
  unfold join
  split
  · exact (merge_perm less _ _).trans
      ((settle_perm harrange r).append (settle_perm harrange s))
  · exact .refl _

/-- The items of runs that wait, the nearest last. -/
def waiting (before : List (Run α × Nat)) : List α := before.reverse.flatMap fun p => p.1.items

theorem joinDown_perm (bound : Nat) (before : List (Run α × Nat)) (r : Run α) :
    (waiting (joinDown less arrange bound before r).1 ++
      (joinDown less arrange bound before r).2.items).Perm (waiting before ++ r.items) := by
  induction before generalizing r with
  | nil => exact .refl _
  | cons p before ih =>
    unfold joinDown
    split
    · refine (ih _).trans (((join_perm less harrange p.1 r).append_left _).trans (.of_eq ?_))
      simp [waiting]
    · exact .refl _

omit harrange in
theorem waiting_cons (p : Run α × Nat) (before : List (Run α × Nat)) :
    waiting (p :: before) = waiting before ++ p.1.items := by
  simp [waiting]

omit harrange in
/-- No boundary is above the lowest level. -/
theorem joinDown_zero (before : List (Run α × Nat)) (r : Run α) :
    (joinDown less arrange 0 before r).1 = [] := by
  induction before generalizing r with
  | nil => rfl
  | cons p before ih =>
    rw [joinDown, if_pos (Nat.zero_le _)]
    exact ih _

theorem joinAll_perm (n start : Nat) (before : List (Run α × Nat)) (last : Run α)
    (rest : List (Run α)) :
    (joinAll less arrange n start before last rest).items.Perm
      (waiting before ++ last.items ++ rest.flatMap items) := by
  induction rest generalizing start before last with
  | nil =>
    have hdown := joinDown_perm less harrange 0 before last
    rw [joinDown_zero] at hdown
    rw [joinAll, List.flatMap_nil, List.append_nil]
    exact hdown
  | cons next rest ih =>
    rw [joinAll]
    dsimp only
    generalize level n start _ _ = depth
    have hdown := joinDown_perm less harrange depth before last
    generalize joinDown less arrange depth before last = down at hdown ⊢
    rcases down with ⟨before', joined⟩
    refine (ih _ _ _).trans ?_
    rw [waiting_cons, List.append_assoc, List.flatMap_cons]
    exact hdown.append_right _

end Run

theorem runwise_perm {arrange : List α → List α} {short : List α → Run α}
    (harrange : ∀ xs, (arrange xs).Perm xs) {xs : List α}
    (hshort : ∀ xs, xs ≠ [] → (short xs).IsStart xs) : (runwise less arrange short xs).Perm xs := by
  unfold runwise
  have hcut : ((Run.cut less (Run.least xs.length) short xs.length xs).flatMap Run.items).Perm xs :=
    Run.cut_perm less hshort xs.length (le_refl _)
  split
  · rename_i hnil
    rw [hnil] at hcut
    exact hcut
  · rename_i r rest hruns
    rw [hruns] at hcut
    exact (Run.settle_perm harrange _).trans ((Run.joinAll_perm less harrange _ _ _ _ _).trans hcut)

theorem blockwise_perm (seed : Seed) (xs : List α) : (blockwise less seed xs).Perm xs := by
  refine runwise_perm less (insertion_perm less) fun ys hys => ?_
  have hblock := block_perm less seed (ys.take Block.limit)
  refine ⟨?_, fun hnil => hys ?_⟩
  · have hlen : (block less seed (ys.take Block.limit)).length = min Block.limit ys.length := by
      rw [hblock.length_eq, List.length_take]
    dsimp only
    rw [hlen, ← List.take_eq_take_min]
    exact hblock
  · have htake : ys.take Block.limit = [] := List.perm_nil.1 (hnil ▸ hblock.symm)
    rcases List.take_eq_nil_iff.1 htake with hzero | hnil
    · cases hzero
    · exact hnil

/-! ## Pivots -/

namespace Pivot

variable (p : Pivot α)

theorem of?_items {xs : List α} {p : Pivot α} (h : of? less xs = some p) :
    xs = p.before ++ p.item :: p.after := by
  unfold of? at h
  split at h
  · cases h
  · dsimp only at h
    split at h
    · cases h
    · rename_i item after hdrop
      rw [← Option.some.inj h, ← hdrop, List.take_append_drop]

/-- The items that satisfy a test and those that do not, around the pivot. -/
theorem parts_perm (test : α → Bool) :
    ((p.before.filter test ++ p.after.filter test) ++
      (p.before.filter (!test ·) ++ p.item :: p.after.filter (!test ·))).Perm
        (p.before ++ p.item :: p.after) := by
  have hbefore := Multiset.coe_eq_coe.2 (List.filter_append_perm test p.before)
  have hafter := Multiset.coe_eq_coe.2 (List.filter_append_perm test p.after)
  rw [← Multiset.coe_eq_coe]
  simp only [← Multiset.coe_add, ← Multiset.cons_coe, ← Multiset.singleton_add] at hbefore hafter ⊢
  rw [← hbefore, ← hafter]
  abel

end Pivot

theorem partingAtMost_perm (seed : Seed) (n : Nat) (left? : Option α) (xs : List α) :
    (partingAtMost less seed n left? xs).Perm xs := by
  induction n generalizing left? xs with
  | zero =>
    unfold partingAtMost
    split
    · exact block_perm less seed xs
    · exact blockwise_perm less seed xs
  | succ n ih =>
    unfold partingAtMost
    split
    · exact block_perm less seed xs
    split
    · exact .refl _
    rename_i p hp
    rw [Pivot.of?_items less hp]
    split
    · exact (((ih _ _).append_left _).trans List.perm_append_comm).trans
        (p.parts_perm fun x => less p.item x)
    · exact ((ih _ _).append (ih _ _)).trans (p.parts_perm fun x => less x p.item)

/-- Every run has room for an item. -/
theorem Run.least_pos {n : Nat} (h : 2 ≤ n) : 0 < Run.least n := by
  unfold Run.least
  split
  · omega
  · dsimp only
    have hroot : 2 ^ 1 ≤ 1 <<< ((1 + n.log2) / 2) := by
      rw [Nat.one_shiftLeft]
      refine Nat.pow_le_pow_right (by decide) ?_
      have hlog : 1 ≤ n.log2 := (Nat.le_log2 (by omega)).2 h
      omega
    generalize 1 <<< ((1 + n.log2) / 2) = root at hroot ⊢
    exact Nat.div_pos (hroot.trans (Nat.le_add_right _ _)) (by decide)

/-- **Sorting keeps every item.** -/
theorem sort_perm (seed : Seed) (xs : List α) : (sort less seed xs).Perm xs := by
  unfold sort
  split
  · exact insertion_perm less xs
  rename_i hlong
  split
  · exact blockwise_perm less seed xs
  refine runwise_perm less (fun ys => partingAtMost_perm less seed _ none ys) fun ys hys => ?_
  have hpos : 0 < Run.least xs.length := Run.least_pos (by omega)
  refine ⟨?_, fun hnil => hys ?_⟩
  · dsimp only
    rw [List.length_take, ← List.take_eq_take_min]
  · rcases List.take_eq_nil_iff.1 hnil with hzero | hnil
    · exact absurd hzero (by omega)
    · exact hnil

end Sorting

end WhatIf
