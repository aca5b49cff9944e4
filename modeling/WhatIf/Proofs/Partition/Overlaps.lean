import WhatIf.Proofs.Partition.Siblings
/-!
# Partition — ranges overlap where they share a point

The check for overlaps of ranges looks at neighbours only, in the order of their lower
ends. It finds every overlap and no other (`rangeOverlap?_isSome_iff`): it reports one
exactly if some point of the key lies within two of the ranges. Two ranges neither of
which ends before the other starts share the greater of their lower ends.
-/

namespace WhatIf

variable {types : List DataType} {key : PartitionKey} {ps : List Partition}
variable {point : List RangeDatum}

/-- **A point of a key**: an end for each key column. -/
def RangeDatum.IsPointOf (point : List RangeDatum) (types : List DataType) : Prop :=
  List.Forall₂ (fun e t => e.isEndOf t = true) point types

/-- A point of a key is equal to itself. -/
theorem RangeDatum.IsPointOf.compareEnds?_self (htypes : ∀ t ∈ types, t ≠ .float8)
    (h : IsPointOf point types) : compareEnds? point point = some .eq := by
  obtain ⟨o, ho⟩ := exists_compareEnds? htypes h h
  obtain rfl := eq_of_compareEnds?_self (Layout.NamedRange.isExact_of_forall₂ htypes h) ho
  exact ho

/-- **That a point lies within a range**: it is not before the lower end, and it is before
the upper end. -/
def Bound.Covers : Bound → List RangeDatum → Prop
  | range lower upper, point =>
    (∃ o, RangeDatum.compareEnds? lower point = some o ∧ o ≠ .gt) ∧
      RangeDatum.compareEnds? point upper = some .lt
  | _, _ => False

namespace Layout

section Shared

variable (htypes : ∀ t ∈ types, t ≠ .float8)

include htypes

/-! ## Two ranges -/

namespace NamedRange

variable {a b : NamedRange} (ha : a.Over types) (hb : b.Over types)

include ha hb

/-- No point lies within a range and within one that starts after it. -/
theorem Before.not_covers (h : a.Before b) (hpoint : ∀ e ∈ point, e.isExact = true)
    (hina : (Bound.range a.lower a.upper).Covers point) :
    ¬(Bound.range b.lower b.upper).Covers point := by
  rintro ⟨⟨o', ho', hle'⟩, -⟩
  obtain ⟨o, ho, hle⟩ := h
  have hau := isExact_of_forall₂ htypes ha.upper
  have hbl := isExact_of_forall₂ htypes hb.lower
  have hthen := RangeDatum.compareEnds?_then hau hbl hpoint ho hle ho' hle'
  have hswap := RangeDatum.compareEnds?_swap hpoint hau hina.2
  rw [hthen, Option.some.injEq, Ordering.swap, Ordering.then_eq_gt] at hswap
  rcases hswap with hgt | ⟨-, hgt⟩
  · exact hle hgt
  · exact hle' hgt

omit ha hb in
/-- The lower end of a range lies within it. -/
theorem covers_lower (ha : a.Over types) : (Bound.range a.lower a.upper).Covers a.lower :=
  ⟨⟨.eq, RangeDatum.IsPointOf.compareEnds?_self htypes ha.lower, by decide⟩, ha.rises⟩

/-- The lower end of a range lies within one that starts no later and does not end before
it. -/
theorem covers_lower_of_not_before {o : Ordering}
    (hab : RangeDatum.compareEnds? a.lower b.lower = some o) (ho : o ≠ .gt) (h : ¬a.Before b) :
    (Bound.range a.lower a.upper).Covers b.lower := by
  refine ⟨⟨o, hab, ho⟩, ?_⟩
  obtain ⟨p, hp⟩ := RangeDatum.exists_compareEnds? htypes ha.upper hb.lower
  have hgt : p = .gt := not_not.1 fun hne => h ⟨p, hp, hne⟩
  rw [hgt] at hp
  exact RangeDatum.compareEnds?_swap (isExact_of_forall₂ htypes ha.upper)
    (isExact_of_forall₂ htypes hb.lower) hp

/-- **Ranges that are not apart share a point.** -/
theorem exists_covers (h : ¬(a.Before b ∨ b.Before a)) :
    ∃ point, RangeDatum.IsPointOf point types ∧ (Bound.range a.lower a.upper).Covers point ∧
      (Bound.range b.lower b.upper).Covers point := by
  obtain ⟨hab, hba⟩ := not_or.1 h
  obtain ⟨o, ho, hswap⟩ := exists_compareEnds?_lower htypes ha hb
  by_cases hgt : o = .gt
  · rw [hgt] at hswap
    exact ⟨a.lower, ha.lower, covers_lower htypes ha,
      covers_lower_of_not_before htypes hb ha hswap (by decide) hba⟩
  · exact ⟨b.lower, hb.lower, covers_lower_of_not_before htypes ha hb ho hgt hab,
      covers_lower htypes hb⟩

end NamedRange

/-! ## A level -/

omit htypes in
/-- What lies within a bound lies within its range. -/
theorem exists_namedRange?_of_covers {p : Partition} (h : p.bound.Covers point) :
    ∃ a, namedRange? p = some a ∧ (Bound.range a.lower a.upper).Covers point := by
  unfold namedRange?
  cases hb : p.bound with
  | range lower upper =>
    rw [hb] at h
    exact ⟨_, rfl, h⟩
  | _ =>
    rw [hb] at h
    exact h.elim

omit htypes in
theorem covers_of_namedRange? {p : Partition} {a : NamedRange} (hp : namedRange? p = some a)
    (h : (Bound.range a.lower a.upper).Covers point) : p.bound.Covers point := by
  unfold namedRange? at hp
  split at hp
  · rename_i lower upper hb
    rw [hb]
    obtain rfl := Option.some.inj hp
    exact h
  · cases hp

variable (hbounds : ∀ p ∈ ps, p.bound.IsOf .range types)

include hbounds

/-- Where no overlap is found, no point without doubles lies within two ranges. -/
theorem pairwise_not_covers (h : rangeOverlap? ps = none) :
    ps.Pairwise fun p q => ∀ point, (∀ e ∈ point, e.isExact = true) →
      ¬(p.bound.Covers point ∧ q.bound.Covers point) := by
  have hover := over_of_namedRange? hbounds
  have hapart := (rangeOverlap?_eq_none_iff htypes hbounds).1 h
  rw [List.pairwise_filterMap] at hapart
  refine hapart.imp_of_mem fun {p q} hp hq hpq point hpoint hboth => ?_
  obtain ⟨a, hpa, hina⟩ := exists_namedRange?_of_covers hboth.1
  obtain ⟨b, hqb, hinb⟩ := exists_namedRange?_of_covers hboth.2
  have ha := hover a (List.mem_filterMap.2 ⟨p, hp, hpa⟩)
  have hb := hover b (List.mem_filterMap.2 ⟨q, hq, hqb⟩)
  rcases hpq a hpa b hqb with hbefore | hbefore
  · exact hbefore.not_covers htypes ha hb hpoint hina hinb
  · exact hbefore.not_covers htypes hb ha hpoint hinb hina

/-- Where no point of the key lies within two ranges, no overlap is found. -/
theorem rangeOverlap?_eq_none (h : ps.Pairwise fun p q => ∀ point,
    RangeDatum.IsPointOf point types → ¬(p.bound.Covers point ∧ q.bound.Covers point)) :
    rangeOverlap? ps = none := by
  have hover := over_of_namedRange? hbounds
  refine (rangeOverlap?_eq_none_iff htypes hbounds).2 (List.pairwise_filterMap.2 ?_)
  refine h.imp_of_mem fun {p q} hp hq hpq a hpa b hqb => ?_
  by_contra hnot
  obtain ⟨point, hpoint, hina, hinb⟩ := NamedRange.exists_covers htypes
    (hover a (List.mem_filterMap.2 ⟨p, hp, hpa⟩)) (hover b (List.mem_filterMap.2 ⟨q, hq, hqb⟩)) hnot
  exact hpq point hpoint ⟨covers_of_namedRange? hpa hina, covers_of_namedRange? hqb hinb⟩

end Shared

/-- **Every overlap is found, and no other.** For ranges without a fault over a key without
doubles, in any order and with any default partition, the check of neighbours reports an
overlap exactly if some point of the key lies within two of them. Where it reports none, two
of them share no other point either, of whatever length and kinds, unless it has doubles. -/
theorem rangeOverlap?_isSome_iff (hkey : key.arity = key.types.length)
    (htypes : ∀ t ∈ key.types, t ≠ .float8)
    (hranges : ∀ p ∈ ps, p.bound = .default ∨
      p.bound.strategy? = some .range ∧ boundFault? p.name p.bound key = none) :
    ((rangeOverlap? ps).isSome = true ↔ ∃ i j : Fin ps.length, i ≠ j ∧
      ∃ point, RangeDatum.IsPointOf point key.types ∧ ps[i].bound.Covers point ∧
        ps[j].bound.Covers point) ∧
    ∀ i j : Fin ps.length, i ≠ j → ∀ point, (∀ e ∈ point, e.isExact = true) →
      ps[i].bound.Covers point → ps[j].bound.Covers point → (rangeOverlap? ps).isSome = true := by
  have hbounds : ∀ p ∈ ps, p.bound.IsOf .range key.types := by
    intro p hp
    rcases hranges p hp with hdefault | ⟨hown, hfault⟩
    · rw [hdefault]
      trivial
    · cases hb : p.bound with
      | range lower upper =>
        rw [hb] at hfault
        have hover := over_of_rangeFault? hkey hfault
        exact ⟨rfl, hover.lower, hover.upper, hover.rises⟩
      | _ =>
        rw [hb] at hown
        cases hown
  have hshared : ∀ i j : Fin ps.length, i ≠ j → ∀ point, (∀ e ∈ point, e.isExact = true) →
      ps[i].bound.Covers point → ps[j].bound.Covers point → (rangeOverlap? ps).isSome = true := by
    intro i j hne point hpoint hi hj
    rw [Option.isSome_iff_ne_none]
    intro hnone
    have hpair := List.pairwise_iff_get.1 (pairwise_not_covers htypes hbounds hnone)
    rcases Nat.lt_or_gt_of_ne (Fin.val_ne_of_ne hne) with hlt | hgt
    · exact hpair i j hlt point hpoint ⟨hi, hj⟩
    · exact hpair j i hgt point hpoint ⟨hj, hi⟩
  refine ⟨⟨fun h => ?_, ?_⟩, hshared⟩
  · by_contra hnot
    refine Option.isSome_iff_ne_none.1 h (rangeOverlap?_eq_none htypes hbounds ?_)
    refine List.pairwise_iff_get.2 fun i j hlt point hpoint hboth => hnot ?_
    exact ⟨i, j, Fin.ne_of_lt hlt, point, hpoint, hboth.1, hboth.2⟩
  · rintro ⟨i, j, hne, point, hpoint, hi, hj⟩
    exact hshared i j hne point (NamedRange.isExact_of_forall₂ htypes hpoint) hi hj

/-- A key of two numbers. -/
def paired : PartitionKey := ⟨.range, [⟨1⟩, ⟨2⟩], [.int4, .int8], ["number", "part"]⟩

/-- Ranges one after another with a default partition, and one within the first of them. -/
def nested : List Partition :=
  [.leaf "late" (.range [.value (.int 9), .maxValue] [.maxValue, .maxValue]),
    .leaf "early" (.range [.minValue, .minValue] [.value (.int 9), .value (.int 5)]),
    .leaf "rest" .default,
    .leaf "middle" (.range [.value (.int 9), .value (.int 5)] [.value (.int 9), .maxValue]),
    .leaf "inner" (.range [.value (.int 4), .value (.int 1)] [.value (.int 4), .value (.int 2)])]

/-- The range within another is found from the point where it starts; without it no point
is shared. -/
theorem rangeOverlap?_isSome_nested :
    (rangeOverlap? nested).isSome = true ∧
      ¬∃ i j : Fin (nested.take 4).length, i ≠ j ∧ ∃ point,
        RangeDatum.IsPointOf point paired.types ∧ (nested.take 4)[i].bound.Covers point ∧
          (nested.take 4)[j].bound.Covers point := by
  have htypes : ∀ t ∈ paired.types, t ≠ .float8 := by decide
  have hranges : ∀ p ∈ nested, p.bound = .default ∨
      p.bound.strategy? = some .range ∧ boundFault? p.name p.bound paired = none := by
    intro p hp
    simp only [nested, List.mem_cons, List.not_mem_nil, or_false] at hp
    rcases hp with rfl | rfl | rfl | rfl | rfl
    · exact Or.inr ⟨rfl, rfl⟩
    · exact Or.inr ⟨rfl, rfl⟩
    · exact Or.inl rfl
    · exact Or.inr ⟨rfl, rfl⟩
    · exact Or.inr ⟨rfl, rfl⟩
  constructor
  · refine (rangeOverlap?_isSome_iff rfl htypes hranges).1.2 ⟨⟨1, by decide⟩, ⟨4, by decide⟩,
      by decide, [.value (.int 4), .value (.int 1)], ?_, ?_, ?_⟩
    · exact .cons rfl (.cons rfl .nil)
    · exact ⟨⟨.lt, rfl, by decide⟩, rfl⟩
    · exact ⟨⟨.eq, rfl, by decide⟩, rfl⟩
  · rw [← (rangeOverlap?_isSome_iff rfl htypes fun p hp => hranges p (List.mem_of_mem_take hp)).1]
    decide +kernel

end Layout

end WhatIf
