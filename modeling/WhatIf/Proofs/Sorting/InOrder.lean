import WhatIf.Proofs.Sorting
/-!
# Sorting — what comes out is in order

A test `less` need not be an order, and of `sort` only a permutation can be
expected then. Where it decides an order on the items of the list, the list
comes out in that order, whichever way it takes (`sort_inOrder`). The order may
be coarser than the test: items that it holds alike come out either way round.
-/

namespace WhatIf

namespace Sorting

variable {α : Type} {less first : α → α → Bool} {P : α → Prop} {le : α → α → Prop}
variable {x y : α} {xs ys : List α}

/-- **A test that decides an order** on the items of `P`: where it holds, its
first argument may come first, and where it does not, its second. -/
structure Decides (less : α → α → Bool) (P : α → Prop) (le : α → α → Prop) : Prop where
  of_true : ∀ {a b}, P a → P b → less a b = true → le a b
  of_false : ∀ {a b}, P a → P b → less a b = false → le b a
  trans : ∀ {a b c}, P a → P b → P c → le a b → le b c → le a c

/-- **A list in order**, with items of `P` only. -/
structure InOrder (P : α → Prop) (le : α → α → Prop) (xs : List α) : Prop where
  all : ∀ x ∈ xs, P x
  pairwise : xs.Pairwise le

namespace Decides

theorem refl (h : Decides less P le) (hx : P x) : le x x := by
  cases hless : less x x with
  | true => exact h.of_true hx hx hless
  | false => exact h.of_false hx hx hless

/-- The test of a walk from the front: what does not compare comes first. -/
theorem forward (h : Decides less P le) : Decides (fun x y => !less y x) P le where
  of_true ha hb hab := h.of_false hb ha (by simpa using hab)
  of_false ha hb hab := h.of_true hb ha (by simpa using hab)
  trans := h.trans

/-- The test of a walk from the back. -/
theorem backward (h : Decides less P le) : Decides (fun x y => less y x) P fun a b => le b a where
  of_true ha hb hab := h.of_true hb ha hab
  of_false ha hb hab := h.of_false hb ha hab
  trans ha hb hc hab hbc := h.trans hc hb ha hbc hab

end Decides

namespace InOrder

theorem nil : InOrder P le [] := ⟨by simp, .nil⟩

theorem cons_iff : InOrder P le (x :: xs) ↔ P x ∧ (∀ y ∈ xs, le x y) ∧ InOrder P le xs := by
  constructor
  · intro h
    obtain ⟨hhead, htail⟩ := List.pairwise_cons.1 h.pairwise
    obtain ⟨hx, hall⟩ := List.forall_mem_cons.1 h.all
    exact ⟨hx, hhead, hall, htail⟩
  · rintro ⟨hx, hhead, htail⟩
    exact ⟨List.forall_mem_cons.2 ⟨hx, htail.all⟩, List.pairwise_cons.2 ⟨hhead, htail.pairwise⟩⟩

theorem append (hxs : InOrder P le xs) (hys : InOrder P le ys) (h : ∀ x ∈ xs, ∀ y ∈ ys, le x y) :
    InOrder P le (xs ++ ys) := by
  refine ⟨fun x hx => ?_, List.pairwise_append.2 ⟨hxs.pairwise, hys.pairwise, h⟩⟩
  rcases List.mem_append.1 hx with hx | hx
  · exact hxs.all x hx
  · exact hys.all x hx

theorem reverse (h : InOrder P le xs) : InOrder P (fun a b => le b a) xs.reverse :=
  ⟨fun x hx => h.all x (List.mem_reverse.1 hx), List.pairwise_reverse.2 h.pairwise⟩

theorem of_reverse (h : InOrder P (fun a b => le b a) xs) : InOrder P le xs.reverse :=
  ⟨fun x hx => h.all x (List.mem_reverse.1 hx), List.pairwise_reverse.2 h.pairwise⟩

/-- A single item is in order. -/
theorem of_length_le_one (hxs : ∀ x ∈ xs, P x) (hlen : xs.length ≤ 1) : InOrder P le xs := by
  rcases xs with _ | ⟨x, _ | ⟨y, xs⟩⟩
  · exact .nil
  · exact cons_iff.2 ⟨hxs x List.mem_cons_self, by simp, .nil⟩
  · simp at hlen

/-- What comes before the head of a list comes before all of it. -/
theorem le_of_le_head (h : Decides less P le) (hx : P x) (hys : InOrder P le (y :: ys))
    (hxy : le x y) : ∀ z ∈ y :: ys, le x z := by
  obtain ⟨hy, hhead, -⟩ := cons_iff.1 hys
  refine List.forall_mem_cons.2 ⟨hxy, fun z hz => ?_⟩
  exact h.trans hx hy (hys.all z (List.mem_cons_of_mem _ hz)) hxy (hhead z hz)

end InOrder

/-! ## Insertion -/

theorem enter_inOrder (h : Decides less P le) (hx : P x)
    (hys : InOrder P (fun a b => le b a) ys) : InOrder P (fun a b => le b a) (enter less x ys) := by
  induction ys with
  | nil => exact InOrder.cons_iff.2 ⟨hx, by simp, .nil⟩
  | cons y ys ih =>
    obtain ⟨hy, hhead, htail⟩ := InOrder.cons_iff.1 hys
    unfold enter
    split
    · rename_i hless
      refine InOrder.cons_iff.2 ⟨hy, fun z hz => ?_, ih htail⟩
      rcases List.mem_cons.1 ((enter_perm less x ys).mem_iff.1 hz) with rfl | hz
      · exact h.of_true hx hy hless
      · exact hhead z hz
    · rename_i hless
      have hyx : le y x := h.of_false hx hy (by simpa using hless)
      exact InOrder.cons_iff.2 ⟨hx, hys.le_of_le_head h.backward hx hyx, hys⟩

theorem extend_inOrder (h : Decides less P le) (hxs : InOrder P le xs) (hys : ∀ y ∈ ys, P y) :
    InOrder P le (extend less xs ys) := by
  have henter : ∀ acc, InOrder P (fun a b => le b a) acc →
      InOrder P (fun a b => le b a) (ys.foldl (fun acc x => enter less x acc) acc) := by
    induction ys with
    | nil => exact fun acc hacc => hacc
    | cons y ys ih =>
      obtain ⟨hy, hys⟩ := List.forall_mem_cons.1 hys
      exact fun acc hacc => ih hys _ (enter_inOrder h hy hacc)
  exact (henter _ hxs.reverse).of_reverse

theorem insertion_inOrder (h : Decides less P le) (hxs : ∀ x ∈ xs, P x) :
    InOrder P le (insertion less xs) :=
  extend_inOrder h .nil hxs

/-! ## Two lists in one -/

/-- Either head comes before the whole of both lists. -/
theorem le_of_head (h : Decides first P le) (hxs : InOrder P le (x :: xs))
    (hys : InOrder P le (y :: ys)) :
    if first x y then ∀ z, z ∈ xs ∨ z ∈ y :: ys → le x z
    else ∀ z, z ∈ x :: xs ∨ z ∈ ys → le y z := by
  obtain ⟨hx, hxhead, -⟩ := InOrder.cons_iff.1 hxs
  obtain ⟨hy, hyhead, -⟩ := InOrder.cons_iff.1 hys
  split
  · rename_i hfirst
    rintro z (hz | hz)
    · exact hxhead z hz
    · exact hys.le_of_le_head h hx (h.of_true hx hy hfirst) z hz
  · rename_i hfirst
    rintro z (hz | hz)
    · exact hxs.le_of_le_head h hy (h.of_false hx hy (by simpa using hfirst)) z hz
    · exact hyhead z hz

theorem listMerge_inOrder (h : Decides first P le) (hxs : InOrder P le xs)
    (hys : InOrder P le ys) : InOrder P le (List.merge xs ys first) := by
  induction xs generalizing ys with
  | nil => rwa [List.nil_merge]
  | cons x xs ihx =>
    induction ys with
    | nil => rwa [List.merge_right]
    | cons y ys ihy =>
      have hhead := le_of_head h hxs hys
      rw [List.cons_merge_cons]
      split at hhead
      · rename_i hfirst
        rw [if_pos hfirst]
        obtain ⟨hx, -, htail⟩ := InOrder.cons_iff.1 hxs
        exact InOrder.cons_iff.2 ⟨hx, fun z hz => hhead z (List.mem_merge.1 hz), ihx htail hys⟩
      · rename_i hfirst
        rw [if_neg hfirst]
        obtain ⟨hy, -, htail⟩ := InOrder.cons_iff.1 hys
        exact InOrder.cons_iff.2 ⟨hy, fun z hz => hhead z (List.mem_merge.1 hz), ihy htail⟩

theorem merge_inOrder (h : Decides less P le) (hxs : InOrder P le xs) (hys : InOrder P le ys) :
    InOrder P le (merge less xs ys) := by
  unfold merge
  split
  · exact listMerge_inOrder h.forward hxs hys
  · exact (listMerge_inOrder h.backward hxs.reverse hys.reverse).of_reverse

/-- An item before all others stays before what a walk takes and leaves of them. -/
theorem cons_draw_inOrder {n : Nat} (hx : P x) (hle : ∀ z, z ∈ xs ∨ z ∈ ys → le x z)
    (htaken : InOrder P le (draw first n xs ys).taken)
    (hleft : ∀ t ∈ (draw first n xs ys).taken,
      ∀ z, z ∈ (draw first n xs ys).first ∨ z ∈ (draw first n xs ys).second → le t z) :
    InOrder P le (x :: (draw first n xs ys).taken) ∧ ∀ t ∈ x :: (draw first n xs ys).taken,
      ∀ z, z ∈ (draw first n xs ys).first ∨ z ∈ (draw first n xs ys).second → le t z := by
  obtain ⟨ps, qs, hps, hqs, hperm⟩ := draw_perm first n xs ys
  refine ⟨InOrder.cons_iff.2 ⟨hx, fun z hz => hle z ?_, htaken⟩,
    List.forall_mem_cons.2 ⟨fun z hz => hle z ?_, hleft⟩⟩
  · refine (List.mem_append.1 (hperm.mem_iff.1 hz)).imp (fun hz => ?_) fun hz => ?_
    · exact hps ▸ List.mem_append_left _ hz
    · exact hqs ▸ List.mem_append_left _ hz
  · refine hz.imp (fun hz => ?_) fun hz => ?_
    · exact hps ▸ List.mem_append_right _ hz
    · exact hqs ▸ List.mem_append_right _ hz

/-- **A walk takes items in order**, and what it takes comes before what it
leaves. -/
theorem draw_inOrder (h : Decides first P le) (n : Nat) (hxs : InOrder P le xs)
    (hys : InOrder P le ys) :
    InOrder P le (draw first n xs ys).taken ∧ ∀ t ∈ (draw first n xs ys).taken,
      ∀ z, z ∈ (draw first n xs ys).first ∨ z ∈ (draw first n xs ys).second → le t z := by
  induction n generalizing xs ys with
  | zero => exact ⟨by simpa [draw] using InOrder.nil, by simp [draw]⟩
  | succ n ih =>
    rcases xs with _ | ⟨x, xs⟩
    · exact ⟨by simpa [draw] using InOrder.nil, by simp [draw]⟩
    rcases ys with _ | ⟨y, ys⟩
    · exact ⟨by simpa [draw] using InOrder.nil, by simp [draw]⟩
    obtain ⟨hx, -, hxtail⟩ := InOrder.cons_iff.1 hxs
    obtain ⟨hy, -, hytail⟩ := InOrder.cons_iff.1 hys
    have hhead := le_of_head h hxs hys
    rw [draw]
    split at hhead
    · rename_i hfirst
      rw [if_pos hfirst]
      obtain ⟨htaken, hleft⟩ := ih hxtail hys
      exact cons_draw_inOrder hx hhead htaken hleft
    · rename_i hfirst
      rw [if_neg hfirst]
      obtain ⟨htaken, hleft⟩ := ih hxs hytail
      exact cons_draw_inOrder hy hhead htaken hleft

/-- A walk takes as many items as it may, if neither list is too short. -/
theorem length_taken {n : Nat} (hxs : n ≤ xs.length) (hys : n ≤ ys.length) :
    (draw first n xs ys).taken.length = n := by
  induction n generalizing xs ys with
  | zero => simp [draw]
  | succ n ih =>
    rcases xs with _ | ⟨x, xs⟩
    · simp at hxs
    rcases ys with _ | ⟨y, ys⟩
    · simp at hys
    rw [List.length_cons] at hxs hys
    rw [draw]
    split
    · exact congrArg (· + 1) (ih (by omega) (by rw [List.length_cons]; omega))
    · exact congrArg (· + 1) (ih (by rw [List.length_cons]; omega) (by omega))

/-- **What is left at the ends of a list** from which some was taken at each: what
lies between, and what was taken at the other end. -/
theorem left_eq {ps rest ps' rest' mid : List α} (h : xs = ps ++ rest)
    (h' : xs.reverse = ps' ++ rest') (hlen : xs.length ≤ rest.length + rest'.length)
    (hmid : rest.take (rest.length + rest'.length - xs.length) = mid) :
    rest = mid ++ ps'.reverse ∧ rest' = mid.reverse ++ ps.reverse := by
  have hall := eq_of_fronts h h' hlen
  rw [hmid] at hall
  have hback : xs.reverse = ps' ++ (mid.reverse ++ ps.reverse) := by
    rw [hall]
    simp
  exact ⟨List.append_cancel_left (h.symm.trans hall), List.append_cancel_left (h'.symm.trans hback)⟩

/-- **Lists of nearly one length meet in order.** -/
theorem meet_inOrder (h : Decides less P le) (hxs : InOrder P le xs) (hys : InOrder P le ys)
    (hlong : xs.length ≤ ys.length) (hshort : ys.length ≤ xs.length + 1) :
    InOrder P le (meet less xs ys) := by
  have hlow := draw_inOrder h.forward xs.length hxs hys
  have hhigh := draw_inOrder h.backward xs.length hxs.reverse hys.reverse
  have hlowlen : (draw (fun x y => !less y x) xs.length xs ys).taken.length = xs.length :=
    length_taken (le_refl _) hlong
  have hhighlen :
      (draw (fun x y => less y x) xs.length xs.reverse ys.reverse).taken.length = xs.length :=
    length_taken (by rw [List.length_reverse]) (by rwa [List.length_reverse])
  obtain ⟨ps, qs, hps, hqs, hlowperm⟩ := draw_perm (fun x y => !less y x) xs.length xs ys
  obtain ⟨ps', qs', hps', hqs', hhighperm⟩ :=
    draw_perm (fun x y => less y x) xs.length xs.reverse ys.reverse
  unfold meet
  dsimp only
  generalize draw (fun x y => !less y x) xs.length xs ys = low at *
  generalize draw (fun x y => less y x) xs.length xs.reverse ys.reverse = high at *
  split
  · rename_i hapart
    generalize hmx : low.first.take _ = mx
    generalize hmy : low.second.take _ = my
    obtain ⟨hlowx, hhighx⟩ := left_eq hps hps' hapart.1 hmx
    obtain ⟨hlowy, hhighy⟩ := left_eq hqs hqs' hapart.2 hmy
    have hlen : (mx ++ my).length ≤ 1 := by
      have hx := congrArg List.length hps
      have hy := congrArg List.length hqs
      have hlow := hlowperm.length_eq
      have hhigh := hhighperm.length_eq
      simp only [hlowx, hlowy, List.length_append, List.length_reverse] at hx hy hlow hhigh ⊢
      omega
    have hbetween : InOrder P le (mx ++ my) := by
      refine .of_length_le_one (fun z hz => ?_) hlen
      rcases List.mem_append.1 hz with hz | hz
      · exact hxs.all z (by rw [hps, hlowx]; simp [hz])
      · exact hys.all z (by rw [hqs, hlowy]; simp [hz])
    refine (hlow.1.append hbetween fun t ht z hz => hlow.2 t ht z ?_).append hhigh.1.of_reverse ?_
    · rw [hlowx, hlowy]
      exact (List.mem_append.1 hz).imp (List.mem_append_left _) (List.mem_append_left _)
    · intro t ht z hz
      have hz := List.mem_reverse.1 hz
      rcases List.mem_append.1 ht with ht | ht
      · -- what was taken at the back was left at the front
        refine hlow.2 t ht z ?_
        rw [hlowx, hlowy]
        exact (List.mem_append.1 (hhighperm.mem_iff.1 hz)).imp
          (fun hz => List.mem_append_right _ (List.mem_reverse.2 hz))
          fun hz => List.mem_append_right _ (List.mem_reverse.2 hz)
      · -- what lies between was left at the back
        refine hhigh.2 z hz t ?_
        rw [hhighx, hhighy]
        exact (List.mem_append.1 ht).imp
          (fun ht => List.mem_append_left _ (List.mem_reverse.2 ht))
          fun ht => List.mem_append_left _ (List.mem_reverse.2 ht)
  · exact merge_inOrder h hxs hys

/-! ## Blocks -/

/-- Two items, the right way round. -/
theorem pair_inOrder (h : Decides less P le) (hx : P x) (hy : P y) :
    P (if less y x then (y, x) else (x, y)).1 ∧ P (if less y x then (y, x) else (x, y)).2 ∧
      le (if less y x then (y, x) else (x, y)).1 (if less y x then (y, x) else (x, y)).2 := by
  split
  · rename_i hless
    exact ⟨hy, hx, h.of_true hy hx hless⟩
  · rename_i hless
    exact ⟨hx, hy, h.of_false hy hx (by simpa using hless)⟩

/-- Either of two items is one of the two, whichever way round they are. -/
theorem pair_mem (p : Prop) [Decidable p] (x y : α) :
    ((if p then (y, x) else (x, y)).1 = x ∨ (if p then (y, x) else (x, y)).1 = y) ∧
      ((if p then (y, x) else (x, y)).2 = x ∨ (if p then (y, x) else (x, y)).2 = y) := by
  split
  · exact ⟨.inr rfl, .inl rfl⟩
  · exact ⟨.inl rfl, .inr rfl⟩

/-- **Four items of which the least and the greatest are known**: the other two
stand between them, the right way round. -/
theorem between_inOrder (h : Decides less P le) {least greatest : α} (hl : P least)
    (hg : P greatest) (hx : P x) (hy : P y) (hlx : le least x) (hly : le least y)
    (hxg : le x greatest) (hyg : le y greatest) :
    InOrder P le [least, (if less y x = true then (y, x) else (x, y)).1,
      (if less y x = true then (y, x) else (x, y)).2, greatest] := by
  have hlg : le least greatest := h.trans hl hx hg hlx hxg
  have hends : ∀ z, z = x ∨ z = y → le least z ∧ le z greatest := by
    rintro z (rfl | rfl)
    · exact ⟨hlx, hxg⟩
    · exact ⟨hly, hyg⟩
  obtain ⟨h₁, h₂, h₁₂⟩ := pair_inOrder h hx hy
  obtain ⟨hfst, hsnd⟩ := pair_mem (less y x = true) x y
  generalize (if less y x = true then (y, x) else (x, y)) = xy at h₁ h₂ h₁₂ hfst hsnd ⊢
  refine InOrder.cons_iff.2 ⟨hl, ?_, InOrder.cons_iff.2 ⟨h₁, ?_, InOrder.cons_iff.2 ⟨h₂, ?_,
    InOrder.cons_iff.2 ⟨hg, by simp, .nil⟩⟩⟩⟩
  · simp [(hends _ hfst).1, (hends _ hsnd).1, hlg]
  · simp [h₁₂, (hends _ hfst).2]
  · simp [(hends _ hsnd).2]

theorem four_inOrder (h : Decides less P le) {a b c d : α} (ha : P a) (hb : P b) (hc : P c)
    (hd : P d) : InOrder P le (four less a b c d) := by
  unfold four
  obtain ⟨hleft, hright, hab⟩ := pair_inOrder h ha hb
  obtain ⟨hleft', hright', hcd⟩ := pair_inOrder h hc hd
  generalize (if less b a = true then (b, a) else (a, b)) = ab at hleft hright hab ⊢
  generalize (if less d c = true then (d, c) else (c, d)) = cd at hleft' hright' hcd ⊢
  rcases ab with ⟨a', b'⟩
  rcases cd with ⟨c', d'⟩
  dsimp only at *
  -- the least is one of the lower two, the greatest one of the upper two
  cases hca : less c' a' with
  | false =>
    have hac := h.of_false hleft' hleft hca
    cases hdb : less d' b' with
    | false =>
      have hbd := h.of_false hright' hright hdb
      exact between_inOrder h hleft hright' hright hleft' hab hac hbd hcd
    | true =>
      have hdb := h.of_true hright' hright hdb
      exact between_inOrder h hleft hright hleft' hright' hac (h.trans hleft hleft' hright' hac hcd)
        (h.trans hleft' hright' hright hcd hdb) hdb
  | true =>
    have hca := h.of_true hleft' hleft hca
    cases hdb : less d' b' with
    | false =>
      have hbd := h.of_false hright' hright hdb
      exact between_inOrder h hleft' hright' hleft hright hca (h.trans hleft' hleft hright hca hab)
        (h.trans hleft hright hright' hab hbd) hbd
    | true =>
      have hdb := h.of_true hright' hright hdb
      exact between_inOrder h hleft' hright hleft hright' hca hcd hab hdb

theorem half_inOrder (h : Decides less P le) (seed : Seed) (whole : Nat) (hxs : ∀ x ∈ xs, P x) :
    InOrder P le (Block.half less seed whole xs) := by
  unfold Block.half
  split
  · rename_i a b c d rest
    simp only [List.forall_mem_cons] at hxs
    obtain ⟨ha, hb, hc, hd, hrest⟩ := hxs
    have hfour := four_inOrder h ha hb hc hd
    split
    · refine insertion_inOrder h ?_
      simp only [List.forall_mem_cons]
      exact ⟨ha, hb, hc, hd, hrest⟩
    split
    · rename_i e f g k more
      split
      · exact extend_inOrder h hfour hrest
      · simp only [List.forall_mem_cons] at hrest
        obtain ⟨he, hf, hg, hk, hmore⟩ := hrest
        have hlen := (four_perm less a b c d).length_eq
        have hlen' := (four_perm less e f g k).length_eq
        refine extend_inOrder h (meet_inOrder h hfour (four_inOrder h he hf hg hk) ?_ ?_) hmore
        · rw [hlen, hlen']
          rfl
        · rw [hlen, hlen']
          exact Nat.le_succ _
    · exact extend_inOrder h hfour hrest
  · exact insertion_inOrder h hxs

theorem block_inOrder (h : Decides less P le) (seed : Seed) (hxs : ∀ x ∈ xs, P x) :
    InOrder P le (block less seed xs) := by
  unfold block
  have hlen := (half_perm less seed xs.length (xs.take (xs.length / 2))).length_eq
  have hlen' := (half_perm less seed xs.length (xs.drop (xs.length / 2))).length_eq
  rw [List.length_take] at hlen
  rw [List.length_drop] at hlen'
  refine meet_inOrder h (half_inOrder h seed _ fun x hx => hxs x (List.mem_of_mem_take hx))
    (half_inOrder h seed _ fun x hx => hxs x (List.mem_of_mem_drop hx)) ?_ ?_
  · omega
  · omega

/-! ## Runs -/

theorem stretch_inOrder (h : Decides first P le) (hx : P x) (hys : ∀ y ∈ ys, P y) :
    InOrder P le (x :: stretch first x ys) := by
  induction ys generalizing x with
  | nil => exact InOrder.cons_iff.2 ⟨hx, by simp [stretch], by simpa [stretch] using .nil⟩
  | cons y ys ih =>
    obtain ⟨hy, hys⟩ := List.forall_mem_cons.1 hys
    unfold stretch
    split
    · rename_i hfirst
      have htail := ih hy hys
      exact InOrder.cons_iff.2
        ⟨hx, htail.le_of_le_head h hx (h.of_true hx hy hfirst), htail⟩
    · exact InOrder.cons_iff.2 ⟨hx, by simp, .nil⟩

theorem natural_inOrder (h : Decides less P le) (hxs : ∀ x ∈ xs, P x) :
    InOrder P le (natural less xs) := by
  unfold natural
  split
  · rename_i x y ys
    obtain ⟨hx, hys⟩ := List.forall_mem_cons.1 hxs
    split
    · exact (stretch_inOrder h.backward hx hys).of_reverse
    · exact stretch_inOrder h.forward hx hys
  · rename_i hfew
    rcases xs with _ | ⟨x, _ | ⟨y, ys⟩⟩
    · exact .nil
    · exact .of_length_le_one hxs (le_refl 1)
    · exact absurd rfl (hfew x y ys)

namespace Run

variable {arrange : List α → List α} {short : List α → Run α}

/-- A run whose mark can be relied on. -/
def Reliable (P : α → Prop) (le : α → α → Prop) (r : Run α) : Prop :=
  (∀ x ∈ r.items, P x) ∧ (r.sorted = true → InOrder P le r.items)

theorem reliable_of_inOrder (h : InOrder P le xs) : Reliable P le ⟨xs, true⟩ :=
  ⟨h.all, fun _ => h⟩

theorem cut_reliable (h : Decides less P le) (enough : Nat)
    (hshort : ∀ xs, (∀ x ∈ xs, P x) → (short xs).Reliable P le) (n : Nat)
    (hxs : ∀ x ∈ xs, P x) : ∀ r ∈ cut less enough short n xs, r.Reliable P le := by
  induction n generalizing xs with
  | zero => simp [cut]
  | succ n ih =>
    rcases xs with _ | ⟨x, xs⟩
    · simp [cut]
    rw [cut]
    refine List.forall_mem_cons.2 ⟨?_, ih fun y hy => hxs y (List.mem_of_mem_drop hy)⟩
    split
    · exact reliable_of_inOrder (natural_inOrder h hxs)
    · exact hshort _ hxs
    · intro hnil
      cases hnil

variable (harrange : ∀ xs, (∀ x ∈ xs, P x) → InOrder P le (arrange xs)) {r s : Run α}

include harrange

theorem settle_inOrder (hr : r.Reliable P le) : InOrder P le (r.settle arrange) := by
  unfold settle
  split
  · rename_i hsorted
    exact hr.2 hsorted
  · exact harrange _ hr.1

theorem join_reliable (h : Decides less P le) (hr : r.Reliable P le) (hs : s.Reliable P le) :
    (join less arrange r s).Reliable P le := by
  unfold join
  split
  · exact reliable_of_inOrder
      (merge_inOrder h (settle_inOrder harrange hr) (settle_inOrder harrange hs))
  · refine ⟨fun x hx => ?_, by simp⟩
    rcases List.mem_append.1 hx with hx | hx
    · exact hr.1 x hx
    · exact hs.1 x hx

theorem joinDown_reliable (h : Decides less P le) (bound : Nat) {before : List (Run α × Nat)}
    (hbefore : ∀ p ∈ before, p.1.Reliable P le) (hr : r.Reliable P le) :
    (∀ p ∈ (joinDown less arrange bound before r).1, p.1.Reliable P le) ∧
      (joinDown less arrange bound before r).2.Reliable P le := by
  induction before generalizing r with
  | nil => exact ⟨hbefore, hr⟩
  | cons p before ih =>
    obtain ⟨hp, hrest⟩ := List.forall_mem_cons.1 hbefore
    unfold joinDown
    split
    · exact ih hrest (join_reliable harrange h hp hr)
    · exact ⟨hbefore, hr⟩

theorem joinAll_reliable (h : Decides less P le) (n start : Nat) {before : List (Run α × Nat)}
    {last : Run α} {rest : List (Run α)} (hbefore : ∀ p ∈ before, p.1.Reliable P le)
    (hlast : last.Reliable P le) (hrest : ∀ r ∈ rest, r.Reliable P le) :
    (joinAll less arrange n start before last rest).Reliable P le := by
  induction rest generalizing start before last with
  | nil => exact (joinDown_reliable harrange h 0 hbefore hlast).2
  | cons next rest ih =>
    obtain ⟨hnext, hrest⟩ := List.forall_mem_cons.1 hrest
    rw [joinAll]
    dsimp only
    generalize level n start _ _ = depth
    obtain ⟨hbefore', hjoined⟩ := joinDown_reliable harrange h depth hbefore hlast
    exact ih _ (List.forall_mem_cons.2 ⟨hjoined, hbefore'⟩) hnext hrest

end Run

theorem runwise_inOrder (h : Decides less P le) {arrange : List α → List α}
    {short : List α → Run α} (harrange : ∀ xs, (∀ x ∈ xs, P x) → InOrder P le (arrange xs))
    (hshort : ∀ xs, (∀ x ∈ xs, P x) → (short xs).Reliable P le) (hxs : ∀ x ∈ xs, P x) :
    InOrder P le (runwise less arrange short xs) := by
  unfold runwise
  have hcut := Run.cut_reliable h (Run.least xs.length) hshort xs.length hxs
  split
  · exact .nil
  · rename_i r rest hruns
    rw [hruns] at hcut
    obtain ⟨hr, hrest⟩ := List.forall_mem_cons.1 hcut
    exact Run.settle_inOrder harrange
      (Run.joinAll_reliable harrange h _ _ (List.forall_mem_nil _) hr hrest)

theorem blockwise_inOrder (h : Decides less P le) (seed : Seed) (hxs : ∀ x ∈ xs, P x) :
    InOrder P le (blockwise less seed xs) := by
  refine runwise_inOrder h (fun ys hys => insertion_inOrder h hys) (fun ys hys => ?_) hxs
  exact Run.reliable_of_inOrder (block_inOrder h seed fun y hy => hys y (List.mem_of_mem_take hy))

/-! ## Pivots -/

theorem median_mem (less : α → α → Bool) (a b c : α) : median less a b c ∈ [a, b, c] := by
  unfold median
  split
  · split
    · simp
    · simp
  · simp

/-- The item that stands for a list is one of its items, or the default. -/
theorem middle_mem (less : α → α → Bool) (n : Nat) (default : α) (xs : List α) :
    middle less n default xs ∈ default :: xs := by
  induction n using Nat.strong_induction_on generalizing xs with
  | _ n ih =>
    unfold middle
    split
    · rcases xs with _ | ⟨x, xs⟩
      · simp
      · simp
    · rename_i hn
      have hdrop : ∀ k, middle less (n / 8) default (xs.drop k) ∈ default :: xs := by
        intro k
        refine List.mem_cons.2 ((List.mem_cons.1 (ih (n / 8) (by omega) (xs.drop k))).imp_right ?_)
        exact List.mem_of_mem_drop
      have hfirst := ih (n / 8) (by omega) xs
      have hmedian := median_mem less (middle less (n / 8) default xs)
        (middle less (n / 8) default (xs.drop (n / 8 * 4)))
        (middle less (n / 8) default (xs.drop (n / 8 * 7)))
      simp only [List.mem_cons, List.not_mem_nil, or_false] at hmedian
      rcases hmedian with heq | heq | heq
      · rwa [heq]
      · rw [heq]
        exact hdrop _
      · rw [heq]
        exact hdrop _

namespace Pivot

variable {p : Pivot α}

/-- A list with an item has a pivot. -/
theorem eq_nil_of_of? (h : of? less xs = none) : xs = [] := by
  unfold of? at h
  split at h
  · rename_i hnil
    exact List.zipIdx_eq_nil_iff.1 hnil
  · rename_i q qs hzip
    dsimp only at h
    split at h
    · rename_i hdrop
      have hmem := middle_mem (fun p q : α × Nat => less p.1 q.1) xs.length q (q :: qs)
      rw [← hzip] at hmem hdrop
      rw [List.mem_cons, hzip, List.mem_cons, or_self_left, ← List.mem_cons, ← hzip] at hmem
      have hlt := List.snd_lt_of_mem_zipIdx hmem
      have hge := List.drop_eq_nil_iff.1 hdrop
      rw [Nat.add_zero] at hlt
      exact absurd hge (by omega)
    · cases h

theorem mem_below : x ∈ p.below less ↔ (x ∈ p.before ∨ x ∈ p.after) ∧ less x p.item = true := by
  simp only [below, List.mem_append, List.mem_filter]
  tauto

theorem mem_notBelow :
    x ∈ p.notBelow less ↔ x = p.item ∨ (x ∈ p.before ∨ x ∈ p.after) ∧ less x p.item = false := by
  simp only [notBelow, List.mem_append, List.mem_cons, List.mem_filter, Bool.not_eq_true']
  tauto

/-- What is above the pivot is below it by the test turned round. -/
theorem mem_notAbove :
    x ∈ p.notAbove less ↔ x = p.item ∨ (x ∈ p.before ∨ x ∈ p.after) ∧ less p.item x = false :=
  @mem_notBelow α (fun x y => less y x) x p

/-- A list around a pivot has the pivot and the items on either side. -/
theorem mem_around :
    x ∈ p.before ++ p.item :: p.after ↔ x = p.item ∨ (x ∈ p.before ∨ x ∈ p.after) := by
  simp only [List.mem_append, List.mem_cons]
  tauto

variable (h : Decides less P le) (hall : ∀ x ∈ p.before ++ p.item :: p.after, P x)

include h hall

theorem of_mem_below (hx : x ∈ p.below less) : P x ∧ le x p.item := by
  obtain ⟨hside, hless⟩ := mem_below.1 hx
  have hPx := hall x (mem_around.2 (.inr hside))
  exact ⟨hPx, h.of_true hPx (hall _ (mem_around.2 (.inl rfl))) hless⟩

theorem of_mem_notBelow (hx : x ∈ p.notBelow less) : P x ∧ le p.item x := by
  have hitem := hall _ (mem_around.2 (.inl rfl))
  rcases mem_notBelow.1 hx with rfl | ⟨hside, hless⟩
  · exact ⟨hitem, h.refl hitem⟩
  · have hPx := hall x (mem_around.2 (.inr hside))
    exact ⟨hPx, h.of_false hPx hitem hless⟩

theorem of_mem_above (hx : x ∈ p.above less) : P x ∧ le p.item x :=
  of_mem_below h.backward hall hx

theorem of_mem_notAbove (hx : x ∈ p.notAbove less) : P x ∧ le x p.item :=
  of_mem_notBelow h.backward hall hx

/-- **A least pivot**: with nothing below it, or where it is not above a pivot
to the left, it comes before every item. -/
theorem item_le {left? : Option α}
    (hleft : ∀ left, left? = some left → P left ∧ ∀ x ∈ p.before ++ p.item :: p.after, le left x)
    (hleast : ((left?.any fun left => !less left p.item) || (p.below less).isEmpty) = true) :
    ∀ x ∈ p.before ++ p.item :: p.after, le p.item x := by
  intro x hx
  have hitem := hall _ (mem_around.2 (.inl rfl))
  rcases Bool.or_eq_true_iff.1 hleast with hany | hempty
  · rcases left? with _ | left
    · cases hany
    obtain ⟨hPleft, hle⟩ := hleft left rfl
    have hle' := h.of_false hPleft hitem (by simpa using hany)
    exact h.trans hitem hPleft (hall x hx) hle' (hle x hx)
  · rcases mem_around.1 hx with rfl | hside
    · exact h.refl hitem
    · refine h.of_false (hall x hx) hitem (Bool.eq_false_iff.2 fun hless => ?_)
      exact List.ne_nil_of_mem (mem_below.2 ⟨hside, hless⟩) (List.isEmpty_iff.1 hempty)

end Pivot

/-- Lists on either side of a pivot are in order together. -/
theorem append_around (h : Decides less P le) (hx : P x) (hxs : InOrder P le xs)
    (hys : InOrder P le ys) (hbefore : ∀ y ∈ xs, le y x) (hafter : ∀ y ∈ ys, le x y) :
    InOrder P le (xs ++ ys) :=
  hxs.append hys fun a ha b hb =>
    h.trans (hxs.all a ha) hx (hys.all b hb) (hbefore a ha) (hafter b hb)

/-- **Parting puts a list in order**, where no item comes before the pivot to
its left. -/
theorem partingAtMost_inOrder (h : Decides less P le) (seed : Seed) (n : Nat) {left? : Option α}
    (hleft : ∀ left, left? = some left → P left ∧ ∀ x ∈ xs, le left x) (hxs : ∀ x ∈ xs, P x) :
    InOrder P le (partingAtMost less seed n left? xs) := by
  induction n generalizing left? xs with
  | zero =>
    unfold partingAtMost
    split
    · exact block_inOrder h seed hxs
    · exact blockwise_inOrder h seed hxs
  | succ n ih =>
    unfold partingAtMost
    split
    · exact block_inOrder h seed hxs
    split
    · rename_i hnone
      rw [Pivot.eq_nil_of_of? hnone]
      exact .nil
    rename_i p hp
    rw [Pivot.of?_items less hp] at hxs hleft
    have hitem : P p.item := hxs _ (Pivot.mem_around.2 (.inl rfl))
    split
    · rename_i hleast
      have hleast := Pivot.item_le h hxs hleft hleast
      have hnot : ∀ x ∈ p.notAbove less, P x ∧ le x p.item := fun x hx =>
        Pivot.of_mem_notAbove h hxs hx
      have habove : ∀ x ∈ p.above less, P x ∧ le p.item x := fun x hx =>
        Pivot.of_mem_above h hxs hx
      refine append_around h hitem ⟨fun x hx => (hnot x hx).1, ?_⟩
        (ih (by simp) fun x hx => (habove x hx).1) (fun x hx => (hnot x hx).2) fun y hy => ?_
      · -- none of these is above the pivot or below it
        refine List.pairwise_of_forall_mem_list fun x hx y hy => ?_
        refine h.trans (hnot x hx).1 hitem (hnot y hy).1 (hnot x hx).2 (hleast y ?_)
        exact Pivot.mem_around.2 ((Pivot.mem_notAbove.1 hy).imp_right And.left)
      · exact (habove y ((partingAtMost_perm less seed n none _).mem_iff.1 hy)).2
    · have hbelow : ∀ x ∈ p.below less, P x ∧ le x p.item := fun x hx =>
        Pivot.of_mem_below h hxs hx
      have hnot : ∀ x ∈ p.notBelow less, P x ∧ le p.item x := fun x hx =>
        Pivot.of_mem_notBelow h hxs hx
      refine append_around h hitem (ih (fun left hl => ⟨(hleft left hl).1, fun x hx => ?_⟩)
        fun x hx => (hbelow x hx).1) (ih (fun left hl => ?_) fun x hx => (hnot x hx).1)
        (fun x hx => ?_) fun y hy => ?_
      · exact (hleft left hl).2 x (Pivot.mem_around.2 (.inr (Pivot.mem_below.1 hx).1))
      · obtain rfl := Option.some.inj hl
        exact ⟨hitem, fun x hx => (hnot x hx).2⟩
      · exact (hbelow x ((partingAtMost_perm less seed n left? _).mem_iff.1 hx)).2
      · exact (hnot y ((partingAtMost_perm less seed n (some p.item) _).mem_iff.1 hy)).2

/-- **Sorting puts a list in order.** -/
theorem sort_inOrder (h : Decides less P le) (seed : Seed) (hxs : ∀ x ∈ xs, P x) :
    InOrder P le (sort less seed xs) := by
  unfold sort
  split
  · exact insertion_inOrder h hxs
  split
  · exact blockwise_inOrder h seed hxs
  · refine runwise_inOrder h (fun ys hys => ?_) (fun ys hys => ⟨fun y hy => ?_, by simp⟩) hxs
    · exact partingAtMost_inOrder h seed _ (by simp) hys
    · exact hys y (List.mem_of_mem_take hy)

end Sorting

end WhatIf
