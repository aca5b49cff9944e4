import WhatIf.Index.Size
import Mathlib.Algebra.BigOperators.Group.Finset.Basic
import Mathlib.Algebra.Order.BigOperators.Group.Finset
import Mathlib.Algebra.Order.Floor.Div
import Mathlib.Algebra.Order.Ring.Nat
import Mathlib.Order.Bounds.Basic
/-!
# Index — the levels of a B-tree

The size of a B-tree is counted in a loop that goes up from its leaves, each
level holding a page for every `fanout` pages of the level below, rounded up.
What is rounded up level by level is what is rounded up once: the level `i`
above the leaves has `leaves ⌈/⌉ fanout ^ i` pages (`Ascent.Counts`). So the
loop ends at the first level for which `fanout ^ i` reaches the leaves, and
the pages are a plain sum (`btree_shape`).
-/

namespace WhatIf

namespace IndexSize

/-- How far the loop has come: the pages of the level it has reached, and the
pages and levels counted. -/
structure Ascent where
  /-- The pages of the level. -/
  level : Nat
  /-- The pages of this level and those below it. -/
  pages : Nat
  /-- The levels below this one. -/
  height : Nat

namespace Ascent

/-- The loop at the leaves. -/
def start (leaves : Nat) : Ascent := ⟨leaves, leaves, 0⟩

/-- The loop one level further up. -/
def up (fanout : Nat) (a : Ascent) : Ascent :=
  ⟨ceilDiv a.level fanout, a.pages + ceilDiv a.level fanout, a.height + 1⟩

end Ascent

/-- **A run of the loop that ends**: it goes up from every level with more than
one page, and stops at the first other one. -/
inductive Ascends (fanout : Nat) : Ascent → Ascent → Prop
  | stop {a : Ascent} (h : ¬ 1 < a.level) : Ascends fanout a a
  | up {a b : Ascent} (h : 1 < a.level) (hup : Ascends fanout (a.up fanout) b) :
    Ascends fanout a b

/-- The leaf pages of a B-tree over columns of the given types and so many
rows. -/
def leafPages (types : List DataType) (rows : Float) : Nat :=
  btreeLeaves types (Decimal.greater rows 0.0)

/-- **The exact shape of a B-tree**: the loop over its levels ends, and counts
no more pages on the way than in the end; its height is the least one at which
the root reaches all leaves, and it has a page about itself and those of every
level. -/
structure IsShaped (fanout leaves height : Nat) (s : IndexSize) : Prop where
  ascends : ∃ top, Ascends fanout (.start leaves) top ∧ top.level = 1 ∧ top.height = height ∧
    s.pages = top.pages + 1 ∧ ∀ a, Ascends fanout a top → a.pages < s.pages
  height_eq : s.height = height
  isLeast : IsLeast {h | leaves ≤ fanout ^ h} height
  pages_eq : s.pages = 1 + ∑ i ∈ Finset.range (height + 1), leaves ⌈/⌉ fanout ^ i

variable {fanout leaves n d e k : Nat} {a b : Ascent}

/-! ## Quotients rounded up -/

theorem ceilDiv_eq (n d : Nat) : ceilDiv n d = n ⌈/⌉ d := (Nat.ceilDiv_eq_add_pred_div n d).symm

/-- **Rounding up twice is rounding up once.** -/
theorem ceilDiv_ceilDiv (hd : 0 < d) (he : 0 < e) : (n ⌈/⌉ d) ⌈/⌉ e = n ⌈/⌉ (d * e) := by
  refine eq_of_forall_ge_iff fun c => ?_
  rw [ceilDiv_le_iff_le_mul he, ceilDiv_le_iff_le_mul hd, ceilDiv_le_iff_le_mul (Nat.mul_pos hd he),
    Nat.mul_assoc]

/-- A quotient is at most one when the divisor reaches what it divides. -/
theorem ceilDiv_le_one_iff (hd : 0 < d) : n ⌈/⌉ d ≤ 1 ↔ n ≤ d := by
  rw [ceilDiv_le_iff_le_mul hd, Nat.mul_one]

theorem ceilDiv_pos (hn : 0 < n) (hd : 0 < d) : 0 < n ⌈/⌉ d := by
  refine Nat.pos_of_ne_zero fun hzero => ?_
  have hle := (ceilDiv_le_iff_le_mul hd).1 (Nat.le_of_eq hzero)
  rw [Nat.mul_zero] at hle
  exact absurd hn (Nat.not_lt.2 hle)

/-! ## One step, and a run -/

/-- **What the loop has counted** so many levels above the leaves. -/
structure Ascent.Counts (fanout leaves k : Nat) (a : Ascent) : Prop where
  level : a.level = leaves ⌈/⌉ fanout ^ k
  pages : a.pages = ∑ i ∈ Finset.range (k + 1), leaves ⌈/⌉ fanout ^ i
  height : a.height = k

theorem Ascent.counts_start : Counts fanout leaves 0 (start leaves) where
  level := by rw [start, pow_zero, ceilDiv_one]
  pages := by rw [start, Finset.sum_range_one, pow_zero, ceilDiv_one]
  height := rfl

/-- One step up counts one level more. -/
theorem Ascent.Counts.up (hfanout : 0 < fanout) (h : a.Counts fanout leaves k) :
    (a.up fanout).Counts fanout leaves (k + 1) := by
  have hlevel : ceilDiv a.level fanout = leaves ⌈/⌉ fanout ^ (k + 1) := by
    rw [ceilDiv_eq, h.level, ceilDiv_ceilDiv (Nat.pow_pos hfanout) hfanout, pow_succ]
  refine ⟨hlevel, ?_, congrArg (· + 1) h.height⟩
  rw [Ascent.up, h.pages, hlevel, Finset.sum_range_succ _ (k + 1)]

/-- A run ends with one page at most, and has gone past every level with more. -/
theorem Ascends.counts (hfanout : 0 < fanout) (hrun : Ascends fanout a b)
    (h : a.Counts fanout leaves k) :
    ∃ j, k ≤ j ∧ b.Counts fanout leaves j ∧ leaves ≤ fanout ^ j ∧
      ∀ i, k ≤ i → i < j → ¬ leaves ≤ fanout ^ i := by
  induction hrun generalizing k with
  | stop hstop =>
    rw [h.level, Nat.not_lt, ceilDiv_le_one_iff (Nat.pow_pos hfanout)] at hstop
    exact ⟨k, le_rfl, h, hstop, fun i hki hik => absurd hik (Nat.not_lt.2 hki)⟩
  | up hmore _ ih =>
    rw [h.level, ← Nat.not_le, ceilDiv_le_one_iff (Nat.pow_pos hfanout)] at hmore
    obtain ⟨j, hj, hcounts, hreach, hbefore⟩ := ih (h.up hfanout)
    refine ⟨j, Nat.le_of_succ_le hj, hcounts, hreach, fun i hki hij => ?_⟩
    rcases Nat.eq_or_lt_of_le hki with rfl | hlt
    · exact hmore
    · exact hbefore i hlt hij

/-- Nothing that is counted is taken back. -/
theorem Ascends.pages_le (h : Ascends fanout a b) : a.pages ≤ b.pages := by
  induction h with
  | stop => exact le_rfl
  | up _ _ ih => exact (Nat.le_add_right _ _).trans ih

theorem climb_of_lt (hlevel : 1 < n) (hfanout : 1 < fanout) :
    climb fanout n =
      (ceilDiv n fanout + (climb fanout (ceilDiv n fanout)).1,
        (climb fanout (ceilDiv n fanout)).2 + 1) := by
  rw [climb, if_pos ⟨hlevel, hfanout⟩]

theorem climb_of_not_lt (hlevel : ¬ 1 < n) : climb fanout n = (0, 0) := by
  rw [climb, if_neg fun h => hlevel h.1]

/-- **The loop ends**, for a page that points to two pages at least, and counts
what `climb` does. -/
theorem exists_ascends (hfanout : 1 < fanout) (a : Ascent) :
    ∃ b, Ascends fanout a b ∧ b.pages = a.pages + (climb fanout a.level).1 ∧
      b.height = a.height + (climb fanout a.level).2 := by
  induction hlevel : a.level using climb.induct fanout generalizing a with
  | case1 level hmore above pages height heq ih =>
    subst hlevel
    obtain ⟨b, hrun, hpages, hheight⟩ := ih (a.up fanout) rfl
    refine ⟨b, .up hmore.1 hrun, ?_, ?_⟩
    · rw [hpages, climb_of_lt hmore.1 hfanout]
      exact Nat.add_assoc ..
    · rw [hheight, climb_of_lt hmore.1 hfanout]
      exact Nat.succ_add_eq_add_succ ..
  | case2 level hmore =>
    subst hlevel
    have hstop : ¬ 1 < a.level := fun h => hmore ⟨h, hfanout⟩
    refine ⟨a, .stop hstop, ?_, ?_⟩ <;> rw [climb_of_not_lt hstop, Nat.add_zero]

/-! ## The shape -/

/-- The size of a B-tree has the shape of its levels. -/
theorem isShaped_btree (hfanout : 1 < fanout) (hleaves : 0 < leaves) {rows : Float} :
    ∃ height, IsShaped fanout leaves height
      { pages := leaves + (climb fanout leaves).1 + 1, tuples := rows,
        height := Int.ofNat (climb fanout leaves).2 } := by
  have hpos : 0 < fanout := Nat.zero_lt_of_lt hfanout
  obtain ⟨top, hrun, hpages, hheight⟩ := exists_ascends hfanout (.start leaves)
  obtain ⟨height, -, hcounts, hreach, hbefore⟩ := hrun.counts hpos Ascent.counts_start
  have hroot : top.level = 1 := by
    rw [hcounts.level]
    exact le_antisymm ((ceilDiv_le_one_iff (Nat.pow_pos hpos)).2 hreach)
      (ceilDiv_pos hleaves (Nat.pow_pos hpos))
  refine ⟨height, ⟨top, hrun, hroot, hcounts.height, congrArg (· + 1) hpages.symm, fun a ha => ?_⟩,
    ?_, ⟨hreach, fun h hh => ?_⟩, ?_⟩
  · have hle := Nat.lt_succ_of_le ha.pages_le
    rwa [hpages] at hle
  · rw [← hcounts.height, hheight]
    exact congrArg Int.ofNat (Nat.zero_add _).symm
  · by_contra hlt
    exact hbefore h (Nat.zero_le h) (Nat.not_le.1 hlt) hh
  · rw [← hcounts.pages, hpages, Nat.add_comm 1]
    rfl

/-- More leaves take no fewer levels, -/
theorem IsShaped.height_mono {leaves' height height' : Nat} {s s' : IndexSize}
    (h : s.IsShaped fanout leaves height) (h' : s'.IsShaped fanout leaves' height')
    (hle : leaves ≤ leaves') : height ≤ height' :=
  h.isLeast.2 (hle.trans h'.isLeast.1)

/-- and no fewer pages. -/
theorem IsShaped.pages_mono {leaves' height height' : Nat} {s s' : IndexSize}
    (h : s.IsShaped fanout leaves height) (h' : s'.IsShaped fanout leaves' height')
    (hfanout : 0 < fanout) (hle : leaves ≤ leaves') : s.pages ≤ s'.pages := by
  have hlevels : Finset.range (height + 1) ⊆ Finset.range (height' + 1) :=
    Finset.range_mono (Nat.succ_le_succ (h.height_mono h' hle))
  have hlevel : ∀ i, leaves ⌈/⌉ fanout ^ i ≤ leaves' ⌈/⌉ fanout ^ i := fun i =>
    (gc_mul_ceilDiv (Nat.pow_pos hfanout)).monotone_l hle
  calc s.pages = 1 + ∑ i ∈ Finset.range (height + 1), leaves ⌈/⌉ fanout ^ i := h.pages_eq
    _ ≤ 1 + ∑ i ∈ Finset.range (height + 1), leaves' ⌈/⌉ fanout ^ i :=
        Nat.add_le_add_left (Finset.sum_le_sum fun i _ => hlevel i) 1
    _ ≤ 1 + ∑ i ∈ Finset.range (height' + 1), leaves' ⌈/⌉ fanout ^ i :=
        Nat.add_le_add_left (Finset.sum_le_sum_of_subset hlevels) 1
    _ = s'.pages := h'.pages_eq.symm

/-- **The loop over the levels of a B-tree computes its exact shape**, if two
entries fit on a page: it ends, the height is the least one that reaches all
leaves, and the pages are those of all levels and one more. Neither falls when
the leaves grow in number. -/
theorem btree_shape {types : List DataType} (hfanout : 2 ≤ btreeFanout types) (heapPages : Nat)
    (rows : Float) :
    1 ≤ leafPages types rows ∧
      (∃ height, (estimate .btree types heapPages rows).IsShaped (btreeFanout types)
        (leafPages types rows) height) ∧
      ∀ (heapPages' : Nat) (rows' : Float), leafPages types rows ≤ leafPages types rows' →
        (estimate .btree types heapPages rows).height ≤
            (estimate .btree types heapPages' rows').height ∧
          (estimate .btree types heapPages rows).pages ≤
            (estimate .btree types heapPages' rows').pages := by
  have hleaves : ∀ rows, 0 < leafPages types rows := fun rows => Nat.le_max_right _ 1
  have hshape : ∀ (heapPages : Nat) (rows : Float), ∃ height,
      (estimate .btree types heapPages rows).IsShaped (btreeFanout types) (leafPages types rows)
        height := fun _ rows => isShaped_btree hfanout (hleaves rows)
  refine ⟨hleaves rows, hshape heapPages rows, fun heapPages' rows' hle => ?_⟩
  obtain ⟨height, h⟩ := hshape heapPages rows
  obtain ⟨height', h'⟩ := hshape heapPages' rows'
  refine ⟨?_, h.pages_mono h' (Nat.zero_lt_of_lt hfanout) hle⟩
  rw [h.height_eq, h'.height_eq]
  exact Int.ofNat_le.2 (h.height_mono h' hle)

theorem btree_shape_int8 :
    btreeFanout [.int8] = 366 ∧ leafPages [.int8] 10000.0 = 28 ∧
      leafPages [.int8] 1000000.0 = 2733 ∧
      (∃ height, (estimate .btree [.int8] 10000 1000000.0).IsShaped 366 2733 height) ∧
      (estimate .btree [.int8] 10000 1000000.0).pages = 2743 ∧
      (estimate .btree [.int8] 100 10000.0).pages ≤ 2743 := by
  have hfanout : btreeFanout [.int8] = 366 := by decide
  have hsmall : leafPages [.int8] 10000.0 = 28 := by decide +kernel
  have hlarge : leafPages [.int8] 1000000.0 = 2733 := by decide +kernel
  have hpages : (estimate .btree [.int8] 10000 1000000.0).pages = 2743 := by decide +kernel
  have htwo : 2 ≤ btreeFanout [.int8] := by decide
  obtain ⟨-, hshape, -⟩ := btree_shape htwo 10000 1000000.0
  obtain ⟨-, -, hmono⟩ := btree_shape htwo 100 10000.0
  have hle := (hmono 10000 1000000.0 (by rw [hsmall, hlarge]; decide)).2
  rw [hfanout, hlarge] at hshape
  rw [hpages] at hle
  exact ⟨hfanout, hsmall, hlarge, hshape, hpages, hle⟩

end IndexSize

end WhatIf
