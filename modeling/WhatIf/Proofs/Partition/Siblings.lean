import WhatIf.Proofs.Partition.Order
/-!
# Partition — siblings that do not overlap

The check for overlaps looks at the bounds of a level in the order they are
listed, or in order of their lower ends. For exact bounds what it asks is that
every two of them are apart, whichever is listed first. Bounds that are apart
are not equal in the order of bounds, so sorting leaves no choice: siblings in
bound order rise strictly, the default one is last, and the order they were
listed in does not show.
-/

namespace WhatIf

variable {types : List DataType} {strategy : Strategy} {ps qs : List Partition}

/-- A relation between any two items of a list does not depend on the order of
the list, if it holds between the items either way round. -/
theorem pairwise_of_perm {α : Type} {R : α → α → Prop} {xs ys : List α} (h : xs.Perm ys)
    (hsymm : ∀ x ∈ xs, ∀ y ∈ xs, R x y → R y x) (hxs : xs.Pairwise R) : ys.Pairwise R := by
  have hboth : xs.Pairwise fun x y => R x y ∧ R y x :=
    hxs.imp_of_mem fun hx hy hxy => ⟨hxy, hsymm _ hx _ hy hxy⟩
  exact ((h.pairwise_iff fun hxy => ⟨hxy.2, hxy.1⟩).1 hboth).imp And.left

namespace Layout

section Ranges

variable (htypes : ∀ t ∈ types, t ≠ .float8) {a b : NamedRange} {ranges : List NamedRange}

include htypes

namespace NamedRange

/-- Of two ranges apart the one before starts before. -/
theorem Before.lower_lt (ha : a.Over types) (hb : b.Over types) (h : a.Before b) :
    RangeDatum.compareEnds? a.lower b.lower = some .lt := by
  obtain ⟨o, ho, hle⟩ := h
  exact RangeDatum.compareEnds?_then (isExact_of_forall₂ htypes ha.lower)
    (isExact_of_forall₂ htypes ha.upper) (isExact_of_forall₂ htypes hb.lower) ha.rises
    (by decide) ho hle

theorem exists_compareEnds?_lower (ha : a.Over types) (hb : b.Over types) :
    ∃ o, RangeDatum.compareEnds? a.lower b.lower = some o ∧
      RangeDatum.compareEnds? b.lower a.lower = some o.swap := by
  obtain ⟨o, ho⟩ := RangeDatum.exists_compareEnds? htypes ha.lower hb.lower
  exact ⟨o, ho, RangeDatum.compareEnds?_swap (isExact_of_forall₂ htypes ha.lower)
    (isExact_of_forall₂ htypes hb.lower) ho⟩

/-- The order of lower ends is one. -/
theorem decides_lower :
    Sorting.Decides (fun a b : NamedRange => RangeDatum.compareEnds? a.lower b.lower == some .lt)
      (·.Over types) fun a b => RangeDatum.compareEnds? b.lower a.lower ≠ some .lt where
  of_true {a b} ha hb hab := by
    obtain ⟨o, ho, hswap⟩ := exists_compareEnds?_lower htypes ha hb
    rw [beq_iff_eq, ho] at hab
    rw [hswap, Option.some.inj hab]
    decide
  of_false {a b} ha hb hab := by simpa using hab
  trans {a b c} ha hb hc hab hbc hac := by
    have hle : ∀ {a b : NamedRange}, a.Over types → b.Over types →
        RangeDatum.compareEnds? b.lower a.lower ≠ some .lt →
        ∃ o, RangeDatum.compareEnds? a.lower b.lower = some o ∧ o ≠ .gt := by
      intro a b ha hb hab
      obtain ⟨o, ho, hswap⟩ := exists_compareEnds?_lower htypes ha hb
      refine ⟨o, ho, ?_⟩
      rintro rfl
      exact hab hswap
    obtain ⟨o, ho, hne⟩ := hle ha hb hab
    obtain ⟨o', ho', hne'⟩ := hle hb hc hbc
    have hthen := RangeDatum.compareEnds?_then (isExact_of_forall₂ htypes ha.lower)
      (isExact_of_forall₂ htypes hb.lower) (isExact_of_forall₂ htypes hc.lower) ho hne ho' hne'
    obtain ⟨p, hp, hswap⟩ := exists_compareEnds?_lower htypes hc ha
    obtain rfl := Option.some.inj (hp.symm.trans hac)
    rw [hthen, Option.some.injEq, Ordering.swap, Ordering.then_eq_gt] at hswap
    rcases hswap with hgt | ⟨-, hgt⟩
    · exact hne hgt
    · exact hne' hgt

end NamedRange

/-- Ranges in order of their lower ends that are apart do not overlap their
neighbours. -/
theorem overlapOfNeighbours?_eq_none (hover : ∀ a ∈ ranges, a.Over types)
    (hlower : ranges.Pairwise fun a b => RangeDatum.compareEnds? b.lower a.lower ≠ some .lt)
    (hapart : ranges.Pairwise fun a b => a.Before b ∨ b.Before a) :
    overlapOfNeighbours? ranges = none := by
  induction ranges with
  | nil => rfl
  | cons a ranges ih =>
    rcases ranges with _ | ⟨b, ranges⟩
    · rfl
    obtain ⟨ha, hrest⟩ := List.forall_mem_cons.1 hover
    have hb := hrest b List.mem_cons_self
    have hab := List.rel_of_pairwise_cons hlower List.mem_cons_self
    rw [overlapOfNeighbours?, if_neg, ih hrest hlower.of_cons hapart.of_cons]
    rcases List.rel_of_pairwise_cons hapart List.mem_cons_self with hbefore | hbefore
    · obtain ⟨o, ho, hne⟩ := hbefore
      rw [ho, beq_iff_eq]
      exact fun h => hne (Option.some.inj h)
    · exact absurd (hbefore.lower_lt htypes hb ha) hab

omit htypes in
theorem over_of_namedRange? (hbounds : ∀ p ∈ ps, p.bound.IsOf strategy types) :
    ∀ a ∈ ps.filterMap namedRange?, a.Over types := by
  intro a ha
  obtain ⟨p, hp, hpa⟩ := List.mem_filterMap.1 ha
  have hbound := hbounds p hp
  unfold namedRange? at hpa
  split at hpa
  · rename_i lower upper heq
    rw [heq] at hbound
    obtain rfl := Option.some.inj hpa
    exact ⟨hbound.2.lower, hbound.2.upper, hbound.2.rises⟩
  · cases hpa

/-- **Ranges do not overlap** if every two are apart. -/
theorem rangeOverlap?_eq_none_iff (hbounds : ∀ p ∈ ps, p.bound.IsOf strategy types) :
    rangeOverlap? ps = none ↔
      (ps.filterMap namedRange?).Pairwise fun a b => a.Before b ∨ b.Before a := by
  have hover := over_of_namedRange? hbounds
  have hperm := Sorting.sort_perm
    (fun a b : NamedRange => RangeDatum.compareEnds? a.lower b.lower == some .lt) .four
    (ps.filterMap namedRange?)
  have hsorted := Sorting.sort_inOrder (NamedRange.decides_lower htypes) .four hover
  have hsymm : ∀ {a b : NamedRange}, a.Before b ∨ b.Before a → b.Before a ∨ a.Before b := Or.symm
  constructor
  · intro h
    have hpair := NamedRange.pairwise_before htypes hsorted.all h
    exact (hperm.pairwise_iff hsymm).1 (hpair.imp .inl)
  · intro h
    exact overlapOfNeighbours?_eq_none htypes hsorted.all hsorted.pairwise
      ((hperm.pairwise_iff hsymm).2 h)

end Ranges

section Lists

variable {seen values : List (String × Datum)}

/-- Whether a listed value repeats one listed before. -/
def Repeats (s x : String × Datum) : Prop := ((x.2.isNull && s.2.isNull) || x.2.equals s.2) = true

theorem repeatedValue?_eq_none (hseen : ∀ s ∈ seen, ∀ x ∈ values, ¬Repeats s x)
    (hpair : values.Pairwise fun s x => ¬Repeats s x) : repeatedValue? seen values = none := by
  induction values generalizing seen with
  | nil => rfl
  | cons x values ih =>
    obtain ⟨hx, hrest⟩ := List.pairwise_cons.1 hpair
    have hnone : seen.find? (fun s => (x.2.isNull && s.2.isNull) || x.2.equals s.2) = none :=
      List.find?_eq_none.2 fun s hs => hseen s hs x List.mem_cons_self
    rw [repeatedValue?, hnone]
    refine ih (fun s hs y hy => ?_) hrest
    rcases List.mem_append.1 hs with hs | hs
    · exact hseen s hs y (List.mem_cons_of_mem _ hy)
    · rw [List.mem_singleton.1 hs]
      exact hx y hy

/-- **Lists do not overlap** if no value repeats one listed before. -/
theorem listOverlap?_eq_none_iff :
    listOverlap? ps = none ↔ (ps.flatMap namedValues).Pairwise fun s x => ¬Repeats s x := by
  constructor
  · intro h
    exact (pairwise_of_repeatedValue? h).2.imp fun hsx => Bool.eq_false_iff.1 hsx
  · exact fun h => repeatedValue?_eq_none (by simp) h

/-- Exact values repeat each other either way round. -/
theorem Repeats.symm {s x : String × Datum} (hs : s.2.isExact = true) (hx : x.2.isExact = true)
    (h : Repeats s x) : Repeats x s := by
  rcases Bool.or_eq_true_iff.1 h with hnull | hequal
  · refine Bool.or_eq_true_iff.2 (.inl ?_)
    rwa [Bool.and_comm]
  · obtain heq := Datum.eq_of_equals hx hs hequal
    rw [heq] at hequal
    refine Bool.or_eq_true_iff.2 (.inr ?_)
    rwa [heq]

theorem exact_of_namedValues (htypes : ∀ t ∈ types, t ≠ .float8)
    (hbounds : ∀ p ∈ ps, p.bound.IsOf strategy types) :
    ∀ x ∈ ps.flatMap namedValues, x.2.isExact = true := by
  intro x hx
  obtain ⟨p, hp, hx⟩ := List.mem_flatMap.1 hx
  have hbound := hbounds p hp
  unfold namedValues at hx
  split at hx
  · rename_i values heq
    rw [heq] at hbound
    obtain ⟨-, -, t, rest, rfl, hfits⟩ := hbound
    obtain ⟨v, hv, rfl⟩ := List.mem_map.1 hx
    exact Datum.isExact_of_fits (hfits v hv) (htypes t List.mem_cons_self)
  · cases hx

end Lists

section Remainders

variable {a b : NamedRemainder} {before bounds : List NamedRemainder}

theorem firstClash?_eq_none (hbefore : ∀ b ∈ before, ∀ a ∈ bounds, remainderClash? a b = none)
    (hpair : bounds.Pairwise fun b a => remainderClash? a b = none) :
    firstClash? before bounds = none := by
  induction bounds generalizing before with
  | nil => rfl
  | cons a bounds ih =>
    obtain ⟨ha, hrest⟩ := List.pairwise_cons.1 hpair
    have hnone : before.findSome? (remainderClash? a) = none :=
      List.findSome?_eq_none_iff.2 fun b hb => hbefore b hb a List.mem_cons_self
    rw [firstClash?, hnone]
    refine ih (fun b hb c hc => ?_) hrest
    rcases List.mem_append.1 hb with hb | hb
    · exact hbefore b hb c (List.mem_cons_of_mem _ hc)
    · rw [List.mem_singleton.1 hb]
      exact ha c hc

/-- **Remainders do not overlap** if none clashes with one before it. -/
theorem hashOverlap?_eq_none_iff :
    hashOverlap? ps = none ↔
      (ps.filterMap namedRemainder?).Pairwise fun b a => remainderClash? a b = none :=
  ⟨fun h => (pairwise_of_firstClash? h).2, fun h => firstClash?_eq_none (by simp) h⟩

/-- Remainders below their moduli clash either way round. -/
theorem remainderClash?_symm (ha : a.remainder < a.modulus) (hb : b.remainder < b.modulus)
    (h : remainderClash? a b = none) : remainderClash? b a = none := by
  have hown : ∀ {m r : UInt32}, r < m → r % m = r := by
    intro m r hr
    rw [← UInt32.toNat_inj, UInt32.toNat_mod]
    exact Nat.mod_eq_of_lt hr
  rw [remainderClash?_eq_none_iff] at h ⊢
  by_cases hab : a.modulus ≤ b.modulus
  · rw [if_pos hab] at h
    split
    · -- of two equal moduli either may be taken for the smaller
      rename_i hba
      have heq := UInt32.le_antisymm hab hba
      obtain ⟨hdvd, hne⟩ := h
      rw [heq, hown hb] at hne
      rw [heq] at hdvd
      refine ⟨heq ▸ hdvd, ?_⟩
      rw [← heq, hown ha]
      exact hne.symm
    · exact h
  · rw [if_neg hab] at h
    rwa [if_pos ((UInt32.le_total _ _).resolve_left hab)]

theorem lt_of_namedRemainder? (hbounds : ∀ p ∈ ps, p.bound.IsOf strategy types) :
    ∀ a ∈ ps.filterMap namedRemainder?, a.remainder < a.modulus := by
  intro a ha
  obtain ⟨p, hp, hpa⟩ := List.mem_filterMap.1 ha
  have hbound := hbounds p hp
  unfold namedRemainder? at hpa
  split at hpa
  · rename_i modulus remainder heq
    rw [heq] at hbound
    obtain rfl := Option.some.inj hpa
    exact hbound.2
  · cases hpa

end Remainders

variable (htypes : ∀ t ∈ types, t ≠ .float8)

include htypes

/-- **The order in which siblings are listed does not matter to the check for
overlaps.** -/
theorem overlap?_of_perm (h : ps.Perm qs) (hbounds : ∀ p ∈ ps, p.bound.IsOf strategy types)
    (hps : overlap? strategy ps = none) : overlap? strategy qs = none := by
  have hbounds' : ∀ q ∈ qs, q.bound.IsOf strategy types := fun q hq =>
    hbounds q (h.mem_iff.2 hq)
  cases strategy with
  | range =>
    refine (rangeOverlap?_eq_none_iff htypes hbounds').2 ?_
    exact ((h.filterMap namedRange?).pairwise_iff Or.symm).1
      ((rangeOverlap?_eq_none_iff htypes hbounds).1 hps)
  | list =>
    have hexact := exact_of_namedValues htypes hbounds
    refine listOverlap?_eq_none_iff.2 (pairwise_of_perm (h.flatMap_right namedValues) ?_
      (listOverlap?_eq_none_iff.1 hps))
    intro s hs x hx hnot hrepeats
    exact hnot (hrepeats.symm (hexact x hx) (hexact s hs))
  | hash =>
    have hlt := lt_of_namedRemainder? hbounds
    refine hashOverlap?_eq_none_iff.2 (pairwise_of_perm (h.filterMap namedRemainder?) ?_
      (hashOverlap?_eq_none_iff.1 hps))
    intro b hb a ha hab
    exact remainderClash?_symm (hlt a ha) (hlt b hb) hab

end Layout

/-! ## No two equal -/

/-- Where at most one item passes a test, no two pass it. -/
theorem pairwise_of_countP_le_one {α : Type} {test : α → Bool} {xs : List α}
    (h : xs.countP test ≤ 1) : xs.Pairwise fun x y => ¬(test x = true ∧ test y = true) := by
  induction xs with
  | nil => exact .nil
  | cons x xs ih =>
    rw [List.countP_cons] at h
    refine List.pairwise_cons.2 ⟨fun y hy hboth => ?_, ih (by omega)⟩
    rw [if_pos hboth.1] at h
    have hpos := List.countP_pos_iff.2 ⟨y, hy, hboth.2⟩
    omega

namespace Bound

theorem isDefault_iff {b : Bound} : b.isDefault = true ↔ b = default := by
  cases b with
  | default => simp [isDefault]
  | _ => simp [isDefault]

/-- Lists of a level that are equal in the order repeat a value. -/
theorem exists_repeat_of_order_eq (htypes : ∀ t ∈ types, t ≠ .float8) {values values' : List Datum}
    (h : (list values).IsOf strategy types) (h' : (list values').IsOf strategy types)
    (heq : (list values).order (list values') = .eq) :
    ∃ s ∈ values, ∃ x ∈ values', ((x.isNull && s.isNull) || x.equals s) = true := by
  rw [order] at heq
  rcases hx : least? values with _ | x
  · rcases hy : least? values' with _ | y
    · -- neither has anything but `NULL`, and neither is empty
      obtain ⟨s, hs⟩ := List.exists_mem_of_ne_nil _ h.2.1
      obtain ⟨x, hx'⟩ := List.exists_mem_of_ne_nil _ h'.2.1
      exact ⟨s, hs, x, hx', by
        simp [isNull_of_least?_eq_none hx s hs, isNull_of_least?_eq_none hy x hx']⟩
    · simp [hx, hy] at heq
  rcases hy : least? values' with _ | y
  · simp [hx, hy] at heq
  rw [hx, hy] at heq
  dsimp only at heq
  obtain ⟨⟨o, ho⟩, hexact⟩ := exists_compare?_least htypes h h' hx hy
  obtain ⟨-, hexact'⟩ := exists_compare?_least htypes h' h hy hx
  rw [ho, Option.getD_some] at heq
  rw [heq] at ho
  refine ⟨x, (of_least?_eq_some hx).1, y, (of_least?_eq_some hy).1, ?_⟩
  rw [Datum.equals, Datum.compare?_swap hexact hexact' ho]
  exact Bool.or_true _

/-- Remainders that are equal in the order are the same. -/
theorem eq_of_order_hash_eq {m r m' r' : UInt32} (h : (hash m r).order (hash m' r') = .eq) :
    m = m' ∧ r = r' := by
  rw [order_hash, compareLex, Ordering.then_eq_eq] at h
  exact ⟨Std.LawfulEqCmp.eq_of_compare (h.1 : compare m m' = .eq),
    Std.LawfulEqCmp.eq_of_compare (h.2 : compare r r' = .eq)⟩

/-- A remainder below its modulus clashes with itself. -/
theorem remainderClash?_self {name name' : String} {m r : UInt32} (h : r < m) :
    Layout.remainderClash? ⟨name, m, r⟩ ⟨name', m, r⟩ ≠ none := by
  have hself : m % m = 0 := by
    rw [← UInt32.toNat_inj, UInt32.toNat_mod, Nat.mod_self]
    rfl
  have hown : r % m = r := by
    rw [← UInt32.toNat_inj, UInt32.toNat_mod]
    exact Nat.mod_eq_of_lt h
  simp [Layout.remainderClash?, hself, hown]

end Bound

namespace Partition

section NoneEqual

/-- That no two of these but the default ones are equal in the order of bounds. -/
def Distinct (ps : List Partition) : Prop :=
  ps.Pairwise fun p q => p.bound ≠ .default → q.bound ≠ .default → p.bound.order q.bound ≠ .eq

variable (htypes : ∀ t ∈ types, t ≠ .float8)

include htypes

theorem distinct_of_rangeOverlap? (hbounds : ∀ p ∈ ps, p.bound.IsOf .range types)
    (h : Layout.rangeOverlap? ps = none) : Distinct ps := by
  have hapart := (Layout.rangeOverlap?_eq_none_iff htypes hbounds).1 h
  rw [List.pairwise_filterMap] at hapart
  refine hapart.imp_of_mem fun {p q} hp hq hpq hpd hqd heq => ?_
  obtain ⟨lower, upper, hpb⟩ := (hbounds p hp).kind hpd
  obtain ⟨lower', upper', hqb⟩ := (hbounds q hq).kind hqd
  have hpo := hbounds p hp
  have hqo := hbounds q hq
  rw [hpb] at hpo heq
  rw [hqb] at hqo heq
  have hpn : Layout.namedRange? p = some ⟨p.name, lower, upper⟩ := by
    rw [Layout.namedRange?, hpb]
  have hqn : Layout.namedRange? q = some ⟨q.name, lower', upper'⟩ := by
    rw [Layout.namedRange?, hqb]
  have hover : Layout.NamedRange.Over types ⟨p.name, lower, upper⟩ := ⟨hpo.2.1, hpo.2.2, hpo.2.3⟩
  have hover' : Layout.NamedRange.Over types ⟨q.name, lower', upper'⟩ :=
    ⟨hqo.2.1, hqo.2.2, hqo.2.3⟩
  obtain ⟨ho, -⟩ := Bound.exists_order_range htypes hpo hqo
  obtain ⟨ho', -⟩ := Bound.exists_order_range htypes hqo hpo
  rw [Bound.order_swap htypes hpo hqo, heq] at ho'
  rw [heq] at ho
  rcases hpq _ hpn _ hqn with hbefore | hbefore
  · cases ho.symm.trans (hbefore.lower_lt htypes hover hover')
  · cases ho'.symm.trans (hbefore.lower_lt htypes hover' hover)

theorem distinct_of_listOverlap? (hbounds : ∀ p ∈ ps, p.bound.IsOf .list types)
    (h : Layout.listOverlap? ps = none) : Distinct ps := by
  have hapart := (List.pairwise_flatMap.1 (Layout.listOverlap?_eq_none_iff.1 h)).2
  refine hapart.imp_of_mem fun {p q} hp hq hpq hpd hqd heq => ?_
  obtain ⟨values, hpb⟩ := (hbounds p hp).kind hpd
  obtain ⟨values', hqb⟩ := (hbounds q hq).kind hqd
  obtain ⟨s, hs, x, hx, hrepeat⟩ := Bound.exists_repeat_of_order_eq htypes
    (hpb ▸ hbounds p hp) (hqb ▸ hbounds q hq) (hpb ▸ hqb ▸ heq)
  refine hpq (p.name, s) ?_ (q.name, x) ?_ hrepeat
  · rw [Layout.namedValues, hpb]
    exact List.mem_map_of_mem hs
  · rw [Layout.namedValues, hqb]
    exact List.mem_map_of_mem hx

omit htypes in
theorem distinct_of_hashOverlap? (hbounds : ∀ p ∈ ps, p.bound.IsOf .hash types)
    (h : Layout.hashOverlap? ps = none) : Distinct ps := by
  have hapart := Layout.hashOverlap?_eq_none_iff.1 h
  rw [List.pairwise_filterMap] at hapart
  refine hapart.imp_of_mem fun {p q} hp hq hpq hpd hqd heq => ?_
  obtain ⟨m, r, hpb⟩ := (hbounds p hp).kind hpd
  obtain ⟨m', r', hqb⟩ := (hbounds q hq).kind hqd
  have hpo := hbounds p hp
  rw [hpb] at hpo heq
  rw [hqb] at heq
  obtain ⟨rfl, rfl⟩ := Bound.eq_of_order_hash_eq heq
  have hpn : Layout.namedRemainder? p = some ⟨p.name, m, r⟩ := by
    rw [Layout.namedRemainder?, hpb]
  have hqn : Layout.namedRemainder? q = some ⟨q.name, m, r⟩ := by
    rw [Layout.namedRemainder?, hqb]
  exact Bound.remainderClash?_self hpo.2 (hpq _ hpn _ hqn)

/-- **No two siblings of a level are equal in the order of bounds.** -/
theorem pairwise_order_ne (hbounds : ∀ p ∈ ps, p.bound.IsOf strategy types)
    (hoverlap : Layout.overlap? strategy ps = none)
    (hdefault : ps.countP (fun p => p.bound.isDefault) ≤ 1) :
    ps.Pairwise fun p q => p.bound.order q.bound ≠ .eq := by
  have hdistinct : Distinct ps := by
    cases strategy with
    | range => exact distinct_of_rangeOverlap? htypes hbounds hoverlap
    | list => exact distinct_of_listOverlap? htypes hbounds hoverlap
    | hash => exact distinct_of_hashOverlap? hbounds hoverlap
  refine ((pairwise_of_countP_le_one hdefault).and hdistinct).imp fun {p q} ⟨hnot, hne⟩ heq => ?_
  by_cases hpd : p.bound = .default
  · by_cases hqd : q.bound = .default
    · exact hnot ⟨Bound.isDefault_iff.2 hpd, Bound.isDefault_iff.2 hqd⟩
    · rw [hpd, Bound.default_order hqd] at heq
      cases heq
  by_cases hqd : q.bound = .default
  · rw [hqd, Bound.order_default hpd] at heq
    cases heq
  · exact hne hpd hqd heq

end NoneEqual

end Partition

/-! ## Siblings in order -/

/-- **Bounds that are in an order**: two of them compare the other way when they
are exchanged, and what is not above something not above is not above. -/
structure Bound.Consistent (P : Bound → Prop) : Prop where
  swap : ∀ {a b : Bound}, P a → P b → b.order a = (a.order b).swap
  trans : ∀ {a b c : Bound}, P a → P b → P c → a.order b ≠ .gt → b.order c ≠ .gt → a.order c ≠ .gt

theorem Bound.consistent_isOf (htypes : ∀ t ∈ types, t ≠ .float8) :
    Consistent (IsOf strategy types) where
  swap := order_swap htypes
  trans ha hb hc hab hbc hac := by
    rw [order_then htypes ha hb hc hab hbc, Ordering.then_eq_gt] at hac
    rcases hac with hgt | ⟨-, hgt⟩
    · exact hab hgt
    · exact hbc hgt

namespace Partition

theorem inBoundOrder_perm (ps : List Partition) : (inBoundOrder ps).Perm ps :=
  Sorting.sort_perm _ _ _

/-- **Siblings whose bounds are in an order come out in that order.** -/
theorem inBoundOrder_rises {P : Bound → Prop} (h : Bound.Consistent P)
    (hps : ∀ p ∈ ps, P p.bound) :
    (inBoundOrder ps).Pairwise fun p q => p.bound.order q.bound ≠ .gt := by
  have hdecides : Sorting.Decides
      (fun p q : Partition => Bound.order p.bound q.bound == .lt) (fun p => P p.bound)
      fun p q => p.bound.order q.bound ≠ .gt := by
    refine ⟨?_, ?_, h.trans⟩
    · intro p q _ _ hless
      rw [beq_iff_eq.1 hless]
      decide
    · intro p q hp hq hless
      rw [h.swap hp hq]
      cases ho : p.bound.order q.bound with
      | lt => simp [ho] at hless
      | _ => decide
  exact (Sorting.sort_inOrder hdecides .eight hps).pairwise

/-- **The default partition comes last**, whatever the bounds of the others. -/
theorem inBoundOrder_default (ps : List Partition) :
    (inBoundOrder ps).Pairwise fun p q => p.bound = .default → q.bound = .default := by
  have hdecides : Sorting.Decides
      (fun p q : Partition => Bound.order p.bound q.bound == .lt) (fun _ => True)
      fun p q => p.bound = .default → q.bound = .default := by
    refine ⟨?_, ?_, fun _ _ _ hpq hqr hp => hqr (hpq hp)⟩
    · intro p q _ _ hless hp
      by_contra hq
      rw [hp, Bound.default_order hq] at hless
      cases hless
    · intro p q _ _ hless hq
      by_contra hp
      rw [hq, Bound.order_default hp] at hless
      cases hless
  exact (Sorting.sort_inOrder hdecides .eight fun _ _ => trivial).pairwise

section Strict

variable (htypes : ∀ t ∈ types, t ≠ .float8) (hbounds : ∀ p ∈ ps, p.bound.IsOf strategy types)
variable (hne : ps.Pairwise fun p q => p.bound.order q.bound ≠ .eq)

include htypes hbounds hne

theorem pairwise_order_ne_of_perm (h : ps.Perm qs) :
    qs.Pairwise fun p q => p.bound.order q.bound ≠ .eq := by
  refine pairwise_of_perm h (fun p hp q hq hpq heq => hpq ?_) hne
  rw [Bound.order_swap htypes (hbounds q hq) (hbounds p hp), heq]
  rfl

/-- **Siblings no two of which are equal come out rising strictly.** -/
theorem inBoundOrder_rises_strictly :
    (inBoundOrder ps).Pairwise fun p q => p.bound.order q.bound = .lt := by
  have hle := inBoundOrder_rises (Bound.consistent_isOf htypes) hbounds
  have hne' := pairwise_order_ne_of_perm htypes hbounds hne (inBoundOrder_perm ps).symm
  refine (hle.and hne').imp fun {p q} ⟨hgt, heq⟩ => ?_
  cases ho : p.bound.order q.bound with
  | lt => rfl
  | eq => exact absurd ho heq
  | gt => exact absurd ho hgt

omit hne in
/-- There is one way only to list siblings strictly in order. -/
theorem eq_of_rises (h : ps.Perm qs) (hps : ps.Pairwise fun p q => p.bound.order q.bound = .lt)
    (hqs : qs.Pairwise fun p q => p.bound.order q.bound = .lt) : ps = qs := by
  refine List.Perm.eq_of_pairwise (fun p q hp hq hpq hqp => ?_) hps hqs h
  rw [Bound.order_swap htypes (hbounds p hp) (hbounds q (h.mem_iff.2 hq)), hpq] at hqp
  cases hqp

omit hne in
/-- Siblings that are listed strictly in order stay as they are. -/
theorem inBoundOrder_eq_self (hps : ps.Pairwise fun p q => p.bound.order q.bound = .lt) :
    inBoundOrder ps = ps := by
  have hne : ps.Pairwise fun p q => p.bound.order q.bound ≠ .eq := hps.imp fun {p q} hpq heq => by
    rw [hpq] at heq
    cases heq
  exact (eq_of_rises htypes hbounds (inBoundOrder_perm ps).symm hps
    (inBoundOrder_rises_strictly htypes hbounds hne)).symm

/-- **However they are listed, siblings come out in one order.** -/
theorem inBoundOrder_eq_of_perm (h : ps.Perm qs) : inBoundOrder ps = inBoundOrder qs := by
  have hbounds' : ∀ q ∈ qs, q.bound.IsOf strategy types := fun q hq => hbounds q (h.mem_iff.2 hq)
  have hne' := pairwise_order_ne_of_perm htypes hbounds hne h
  exact eq_of_rises htypes (fun p hp => hbounds p ((inBoundOrder_perm ps).mem_iff.1 hp))
    ((inBoundOrder_perm ps).trans (h.trans (inBoundOrder_perm qs).symm))
    (inBoundOrder_rises_strictly htypes hbounds hne)
    (inBoundOrder_rises_strictly htypes hbounds' hne')

end Strict

end Partition

end WhatIf
