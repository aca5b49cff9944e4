import WhatIf.Proofs.Partition.Ends
import WhatIf.Proofs.Partition.Validated
import Mathlib.Data.List.Pairwise
/-!
# Partition — at most one sibling holds a key

In a valid layout no two siblings contain the same key values, at any level
whose key has no doubles. Each strategy has an argument of its own. Ranges are
compared only with their neighbours, which is enough because every range ends
after it starts, so what holds between neighbours holds across any distance.
Listed values are compared with all before them. Of two hash bounds the smaller
modulus divides the larger, so a hash that leaves both remainders decides one
from the other.
-/

namespace WhatIf

variable {r : Relation} {l : Layout} {key : PartitionKey} {names names' : List String}
variable {ps : List Partition} {row : List Datum}

/-- What a relation carries from the items of one list to those of another. -/
theorem forall_of_forall₂ {α β : Type} {R : α → β → Prop} {q : β → Prop} {p : α → Prop}
    {xs : List α} {ys : List β} (h : List.Forall₂ R xs ys) (hq : ∀ y ∈ ys, q y)
    (hp : ∀ x y, R x y → q y → p x) : ∀ x ∈ xs, p x := by
  induction h with
  | nil => simp
  | cons hxy h ih =>
    rw [List.forall_mem_cons] at hq ⊢
    exact ⟨hp _ _ hxy hq.1, ih hq.2⟩

/-- Key values within a range are not below its lower and are below its upper
end. -/
theorem Bound.contains_range {lower upper : List RangeDatum}
    (h : (Bound.range lower upper).contains row = true) :
    (∃ o, RangeDatum.compareEnds? (row.map .value) lower = some o ∧ o ≠ .lt) ∧
      RangeDatum.compareEnds? (row.map .value) upper = some .lt := by
  unfold contains at h
  dsimp only at h
  split at h
  · cases h
  obtain ⟨hlower, hupper⟩ := Bool.and_eq_true_iff.1 h
  refine ⟨?_, beq_iff_eq.1 hupper⟩
  split at hlower
  · rename_i hgt
    exact ⟨.gt, hgt, by decide⟩
  · rename_i heq
    exact ⟨.eq, heq, by decide⟩
  · cases hlower

namespace Layout

/-! ## Ranges -/

namespace NamedRange

/-- **A range over columns of the given types**: an end for each column on
both sides, the lower side before the upper. -/
structure Over (types : List DataType) (a : NamedRange) : Prop where
  lower : List.Forall₂ (fun e t => e.isEndOf t = true) a.lower types
  upper : List.Forall₂ (fun e t => e.isEndOf t = true) a.upper types
  rises : RangeDatum.compareEnds? a.lower a.upper = some .lt

/-- That a range ends where another starts, or before. -/
def Before (a b : NamedRange) : Prop :=
  ∃ o, RangeDatum.compareEnds? a.upper b.lower = some o ∧ o ≠ .gt

variable {types : List DataType} (htypes : ∀ t ∈ types, t ≠ .float8) {a b c : NamedRange}

include htypes

theorem isExact_of_forall₂ {ends : List RangeDatum}
    (h : List.Forall₂ (fun e t => e.isEndOf t = true) ends types) :
    ∀ e ∈ ends, e.isExact = true :=
  forall_of_forall₂ h htypes fun _ _ => RangeDatum.isExact_of_isEndOf

/-- What is between two ranges is before the second if it is after the first. -/
theorem Before.trans (ha : a.Over types) (hb : b.Over types) (hc : c.Over types)
    (hab : a.Before b) (hbc : b.Before c) : a.Before c := by
  obtain ⟨o, ho, hle⟩ := hab
  obtain ⟨o', ho', hle'⟩ := hbc
  have hau := isExact_of_forall₂ htypes ha.upper
  have hbl := isExact_of_forall₂ htypes hb.lower
  have hbu := isExact_of_forall₂ htypes hb.upper
  have hcl := isExact_of_forall₂ htypes hc.lower
  have hup : RangeDatum.compareEnds? a.upper b.upper = some .lt := by
    have h := RangeDatum.compareEnds?_then hau hbl hbu ho hle hb.rises (by decide)
    cases o with
    | gt => exact absurd rfl hle
    | _ => exact h
  exact ⟨_, RangeDatum.compareEnds?_then hau hbu hcl hup (by decide) ho' hle', by simp⟩

/-- **Neighbours decide**: if no range reaches beyond the start of the next, none
reaches beyond the start of any later one. -/
theorem pairwise_before {ranges : List NamedRange} (hover : ∀ a ∈ ranges, a.Over types)
    (h : overlapOfNeighbours? ranges = none) : ranges.Pairwise Before := by
  induction ranges with
  | nil => exact .nil
  | cons a ranges ih =>
    rw [List.forall_mem_cons] at hover
    rcases ranges with _ | ⟨b, ranges⟩
    · exact List.pairwise_singleton _ _
    rw [overlapOfNeighbours?] at h
    split at h
    · cases h
    rename_i hgt
    have hrest := ih hover.2 h
    have hb := hover.2 b List.mem_cons_self
    have hab : a.Before b := by
      obtain ⟨o, ho⟩ := RangeDatum.exists_compareEnds? htypes hover.1.upper hb.lower
      refine ⟨o, ho, ?_⟩
      rintro rfl
      exact hgt (beq_iff_eq.2 ho)
    refine List.pairwise_cons.2 ⟨fun c hc => ?_, hrest⟩
    rcases List.mem_cons.1 hc with rfl | hc
    · exact hab
    · have hbc := List.rel_of_pairwise_cons hrest hc
      exact hab.trans htypes hover.1 hb (hover.2 c (List.mem_cons_of_mem _ hc)) hbc

/-- Key values before the end of a range are not past the start of a later one. -/
theorem Before.not_contains (ha : a.Over types) (hb : b.Over types) (h : a.Before b)
    (hrow : ∀ v ∈ row, v.isExact = true)
    (hina : (Bound.range a.lower a.upper).contains row = true) :
    (Bound.range b.lower b.upper).contains row = false := by
  rw [Bool.eq_false_iff]
  intro hinb
  obtain ⟨o, ho, hle⟩ := h
  have hau := isExact_of_forall₂ htypes ha.upper
  have hbl := isExact_of_forall₂ htypes hb.lower
  have hends : ∀ e ∈ row.map RangeDatum.value, e.isExact = true := by
    intro e he
    obtain ⟨v, hv, rfl⟩ := List.mem_map.1 he
    exact hrow v hv
  obtain ⟨-, hbelow⟩ := Bound.contains_range hina
  obtain ⟨⟨o', hafter, hnlt⟩, -⟩ := Bound.contains_range hinb
  have hbefore := RangeDatum.compareEnds?_then hends hau hbl hbelow (by decide) ho hle
  exact hnlt (Option.some.inj (hafter.symm.trans hbefore))

end NamedRange

theorem over_of_rangeFault? {name : String} {lower upper : List RangeDatum}
    (harity : key.arity = key.types.length) (h : rangeFault? name lower upper key = none) :
    NamedRange.Over key.types ⟨name, lower, upper⟩ := by
  unfold rangeFault? at h
  split at h
  · cases h
  rename_i hlengths
  rw [not_or, not_not, not_not] at hlengths
  simp only [Option.orElse_eq_orElse, Option.orElse_eq_or, Option.or_eq_none_iff] at h
  obtain ⟨hvalues, -, -, hrises⟩ := h
  have hends : ∀ ends : List RangeDatum, ends.length = key.arity →
      (∀ p ∈ ends.zip key.types, p ∈ lower.zip key.types ++ upper.zip key.types) →
        List.Forall₂ (fun e t => e.isEndOf t = true) ends key.types := by
    intro ends hlength hsub
    refine List.forall₂_iff_zip.2 ⟨hlength.trans harity, fun {e t} hmem => ?_⟩
    cases e with
    | value v =>
      obtain ⟨hnull, hfits⟩ := fits_of_badBoundValue? hvalues (hsub _ hmem)
      simp [RangeDatum.isEndOf, hnull, hfits]
    | _ => rfl
  refine ⟨hends lower hlengths.1 fun p hp => List.mem_append_left _ hp,
    hends upper hlengths.2 fun p hp => List.mem_append_right _ hp, ?_⟩
  by_contra hne
  rw [if_neg fun h => hne (beq_iff_eq.1 h)] at hrises
  cases hrises

/-! ## Lists of values -/

/-- No value is listed after one it repeats, nor after a value seen before. -/
theorem pairwise_of_repeatedValue? {seen values : List (String × Datum)}
    (h : repeatedValue? seen values = none) :
    (∀ s ∈ seen, ∀ x ∈ values, ((x.2.isNull && s.2.isNull) || x.2.equals s.2) = false) ∧
      values.Pairwise fun s x => ((x.2.isNull && s.2.isNull) || x.2.equals s.2) = false := by
  induction values generalizing seen with
  | nil => exact ⟨by simp, .nil⟩
  | cons x values ih =>
    rw [repeatedValue?] at h
    split at h
    · cases h
    rename_i hfind
    obtain ⟨hseen, hpair⟩ := ih h
    rw [List.find?_eq_none] at hfind
    refine ⟨fun s hs y hy => ?_, List.pairwise_cons.2 ⟨?_, hpair⟩⟩
    · rcases List.mem_cons.1 hy with rfl | hy
      · simpa using hfind s hs
      · exact hseen s (List.mem_append_left _ hs) y hy
    · exact hseen x (List.mem_append_right _ (List.mem_singleton_self _))

/-- A key that two lists hold is repeated by a value of the second. -/
theorem repeated_of_contains {values values' : List Datum} (hvalues : ∀ v ∈ values, v.isExact = true)
    (hrow : ∀ v ∈ row, v.isExact = true) (h : (Bound.list values).contains row = true)
    (h' : (Bound.list values').contains row = true) (hvalues' : ∀ v ∈ values', v.isExact = true) :
    ∃ s ∈ values, ∃ x ∈ values', ((x.isNull && s.isNull) || x.equals s) = true := by
  cases row with
  | nil => cases h
  | cons v row =>
    unfold Bound.contains at h h'
    dsimp only at h h'
    split at h
    · rename_i hnull
      rw [if_pos hnull] at h'
      obtain ⟨s, hs, hsnull⟩ := List.any_eq_true.1 h
      obtain ⟨x, hx, hxnull⟩ := List.any_eq_true.1 h'
      exact ⟨s, hs, x, hx, by simp [hsnull, hxnull]⟩
    · rename_i hnull
      rw [if_neg hnull] at h'
      obtain ⟨s, hs, hsv⟩ := List.any_eq_true.1 h
      obtain ⟨x, hx, hxv⟩ := List.any_eq_true.1 h'
      have hv := hrow v List.mem_cons_self
      -- both listed values are the key itself
      obtain rfl := Datum.eq_of_equals hv (hvalues s hs) hsv
      obtain rfl := Datum.eq_of_equals hv (hvalues' x hx) hxv
      exact ⟨v, hs, v, hx, by simp [hsv]⟩

/-! ## Remainders -/

/-- No bound clashes with one before it, nor with those given. -/
theorem pairwise_of_firstClash? {before bounds : List NamedRemainder}
    (h : firstClash? before bounds = none) :
    (∀ b ∈ before, ∀ a ∈ bounds, remainderClash? a b = none) ∧
      bounds.Pairwise fun b a => remainderClash? a b = none := by
  induction bounds generalizing before with
  | nil => exact ⟨by simp, .nil⟩
  | cons a bounds ih =>
    rw [firstClash?] at h
    split at h
    · cases h
    rename_i hfind
    obtain ⟨hbefore, hpair⟩ := ih h
    rw [List.findSome?_eq_none_iff] at hfind
    refine ⟨fun b hb c hc => ?_, List.pairwise_cons.2 ⟨?_, hpair⟩⟩
    · rcases List.mem_cons.1 hc with rfl | hc
      · exact hfind b hb
      · exact hbefore b (List.mem_append_left _ hb) c hc
    · exact hbefore a (List.mem_append_right _ (List.mem_singleton_self _))

/-- The remainder by a modulus decides the remainder by a factor of it. -/
theorem mod_of_mod {h m n : UInt32} (hdvd : n % m = 0) : h % n % m = h % m := by
  rw [← UInt32.toNat_inj] at hdvd ⊢
  simp only [UInt32.toNat_mod, UInt32.toNat_zero] at hdvd ⊢
  exact Nat.mod_mod_of_dvd _ (Nat.dvd_of_mod_eq_zero hdvd)

/-- **Two remainders apart**: the modulus of the second is a multiple of that of the
first, and its remainder leaves another remainder than the first. -/
def NamedRemainder.Apart (small large : NamedRemainder) : Prop :=
  large.modulus % small.modulus = 0 ∧ large.remainder % small.modulus ≠ small.remainder

/-- Remainders do not clash if they are apart, the one with the smaller modulus
first. -/
theorem remainderClash?_eq_none_iff {a b : NamedRemainder} :
    remainderClash? a b = none ↔ if a.modulus ≤ b.modulus then a.Apart b else b.Apart a := by
  have hcheck : ∀ (small large : NamedRemainder) (fault fault' : LayoutFault),
      (if large.modulus % small.modulus ≠ 0 then some fault
        else if large.remainder % small.modulus = small.remainder then some fault' else none) =
          none ↔ small.Apart large := by
    intro small large fault fault'
    by_cases hdvd : large.modulus % small.modulus = 0
    · by_cases heq : large.remainder % small.modulus = small.remainder
      · simp [NamedRemainder.Apart, hdvd, heq]
      · simp [NamedRemainder.Apart, hdvd, heq]
    · simp [NamedRemainder.Apart, hdvd]
  unfold remainderClash?
  by_cases hle : a.modulus ≤ b.modulus
  · simp only [hle, if_true]
    exact hcheck a b _ _
  · simp only [hle, if_false]
    exact hcheck b a _ _

/-- Remainders that are apart are not left by one hash. -/
theorem NamedRemainder.Apart.ne {small large : NamedRemainder} (h : small.Apart large)
    {n : UInt32} (hsmall : n % small.modulus = small.remainder) :
    n % large.modulus ≠ large.remainder := by
  intro hlarge
  refine h.2 ?_
  rw [← hlarge, mod_of_mod h.1, hsmall]

/-- Bounds that do not clash hold no hash together. -/
theorem not_contains_of_remainderClash? {a b : NamedRemainder} (h : remainderClash? a b = none)
    (ha : (Bound.hash a.modulus a.remainder).contains row = true) :
    (Bound.hash b.modulus b.remainder).contains row = false := by
  rw [Bool.eq_false_iff]
  intro hb
  have hra : Datum.rowHash row % a.modulus = a.remainder :=
    beq_iff_eq.1 (Bool.and_eq_true_iff.1 ha).2
  have hrb : Datum.rowHash row % b.modulus = b.remainder :=
    beq_iff_eq.1 (Bool.and_eq_true_iff.1 hb).2
  have hapart := remainderClash?_eq_none_iff.1 h
  split at hapart
  · exact hapart.ne hra hrb
  · exact hapart.ne hrb hra

/-! ## One level -/

/-- A partition without a fault has the default bound, or one of the strategy
that has no fault itself. -/
theorem boundFault?_of_partitionFault? {hasDefault : Bool} {p : Partition}
    (h : partitionFault? key hasDefault p = none) :
    p.bound = .default ∨
      p.bound.strategy? = some key.strategy ∧ boundFault? p.name p.bound key = none := by
  unfold partitionFault? at h
  split at h
  · exact Or.inl ‹_›
  · split at h
    · exact Or.inr ⟨‹_›, h⟩
    · cases h

/-- There is at most one default partition, and none where one is known. -/
theorem countP_isDefault_of_checkPartitions {hasDefault : Bool}
    (h : checkPartitions key ps names hasDefault = .ok names') :
    ps.countP (fun p => p.bound.isDefault) + hasDefault.toNat ≤ 1 := by
  induction ps generalizing names hasDefault with
  | nil => simpa using Bool.toNat_le hasDefault
  | cons p ps ih =>
    rw [checkPartitions] at h
    split at h
    · cases h
    split at h
    · cases h
    rename_i hfault
    have hrest := ih h
    rw [List.countP_cons]
    by_cases hdefault : p.bound.isDefault = true
    · -- a default partition passes only if there is none so far
      have hnone : hasDefault = false := by
        unfold partitionFault? at hfault
        split at hfault
        · split at hfault
          · cases hfault
          · split at hfault
            · cases hfault
            · simpa using ‹¬hasDefault = true›
        · rename_i hne
          cases hbound : p.bound with
          | default => exact absurd hbound hne
          | _ => simp [hbound, Bound.isDefault] at hdefault
      rw [hdefault, Bool.or_true, Bool.toNat_true] at hrest
      rw [if_pos hdefault, hnone, Bool.toNat_false]
      omega
    · rw [if_neg hdefault]
      rw [Bool.eq_false_iff.2 hdefault, Bool.or_false] at hrest
      omega

theorem countP_isDefault_of_checkLevel {strategy : Strategy} {columns : List String}
    (h : checkLevel r strategy columns ps names = .ok names') :
    ps.countP (fun p => p.bound.isDefault) ≤ 1 := by
  unfold checkLevel at h
  split at h
  · cases h
  split at h
  · cases h
  split at h
  · cases h
  rename_i hpass
  exact countP_isDefault_of_checkPartitions hpass

/-- No two partitions of a level hold the key values `row` together. -/
def Exclusive (row : List Datum) (ps : List Partition) : Prop :=
  ps.Pairwise fun p q => ¬(p.bound.contains row = true ∧ q.bound.contains row = true)

theorem Exclusive.countP_le_one (h : Exclusive row ps) :
    ps.countP (fun p => p.bound.contains row) ≤ 1 := by
  induction ps with
  | nil => simp
  | cons p ps ih =>
    obtain ⟨hp, hps⟩ := List.pairwise_cons.1 h
    rw [List.countP_cons]
    split
    · rename_i hin
      have hzero : ps.countP (fun q => q.bound.contains row) = 0 :=
        List.countP_eq_zero.2 fun q hq hqin => hp q hq ⟨hin, hqin⟩
      omega
    · exact ih hps

section Level

variable (htypes : ∀ t ∈ key.types, t ≠ .float8) (hrow : ∀ v ∈ row, v.isExact = true)

include htypes hrow

theorem exclusive_of_rangeOverlap?
    (hbounds : ∀ p ∈ ps, ∀ a, namedRange? p = some a → a.Over key.types)
    (hranges : ∀ p ∈ ps, p.bound.contains row = true → p.bound.strategy? = some .range)
    (h : rangeOverlap? ps = none) : Exclusive row ps := by
  let holds : NamedRange → Bool := fun a => (Bound.range a.lower a.upper).contains row
  have hover : ∀ a ∈ ps.filterMap namedRange?, a.Over key.types := by
    intro a ha
    obtain ⟨p, hp, hpa⟩ := List.mem_filterMap.1 ha
    exact hbounds p hp a hpa
  have hperm := Sorting.sort_perm
    (fun a b : NamedRange => RangeDatum.compareEnds? a.lower b.lower == some .lt) .four
    (ps.filterMap namedRange?)
  have hover' := fun a ha => hover a (hperm.mem_iff.1 ha)
  have hsorted := NamedRange.pairwise_before htypes hover' h
  have happart : (ps.filterMap namedRange?).Pairwise fun a b => ¬(holds a = true ∧ holds b = true) := by
    refine (hperm.pairwise_iff fun hab hba => hab ⟨hba.2, hba.1⟩).1 ?_
    refine hsorted.imp_of_mem fun ha hb hbefore hboth => ?_
    have hnot := hbefore.not_contains htypes (hover' _ ha) (hover' _ hb) hrow hboth.1
    exact Bool.eq_false_iff.1 hnot hboth.2
  have hnamed : ∀ p ∈ ps, p.bound.contains row = true →
      ∃ a, namedRange? p = some a ∧ holds a = true := by
    intro p hp hin
    have hstrategy := hranges p hp hin
    unfold namedRange?
    cases hbound : p.bound with
    | range lower upper =>
      rw [hbound] at hin
      exact ⟨_, rfl, hin⟩
    | _ => simp [hbound, Bound.strategy?] at hstrategy
  rw [List.pairwise_filterMap] at happart
  refine happart.imp_of_mem fun hp hq hpq hboth => ?_
  obtain ⟨a, ha, hina⟩ := hnamed _ hp hboth.1
  obtain ⟨b, hb, hinb⟩ := hnamed _ hq hboth.2
  exact hpq a ha b hb ⟨hina, hinb⟩

theorem exclusive_of_listOverlap?
    (hbounds : ∀ p ∈ ps, p.bound.Suits key)
    (hlists : ∀ p ∈ ps, p.bound.contains row = true → p.bound.strategy? = some .list)
    (h : listOverlap? ps = none) : Exclusive row ps := by
  have hpair := (List.pairwise_flatMap.1 (pairwise_of_repeatedValue? h).2).2
  have hvalues : ∀ p ∈ ps, p.bound.contains row = true → ∃ values, p.bound = .list values ∧
      namedValues p = values.map (fun v => (p.name, v)) ∧ ∀ v ∈ values, v.isExact = true := by
    intro p hp hin
    have hstrategy := hlists p hp hin
    have hsuits := hbounds p hp
    unfold namedValues
    cases hbound : p.bound with
    | list values =>
      rw [hbound] at hsuits
      refine ⟨values, rfl, rfl, fun v hv => ?_⟩
      obtain ⟨t, ht, hfits⟩ := hsuits v hv
      exact Datum.isExact_of_fits hfits (htypes t ht)
    | _ => simp [hbound, Bound.strategy?] at hstrategy
  refine hpair.imp_of_mem fun {p q} hp hq hpq hboth => ?_
  obtain ⟨values, hpb, hpv, hexact⟩ := hvalues p hp hboth.1
  obtain ⟨values', hqb, hqv, hexact'⟩ := hvalues q hq hboth.2
  rw [hpb, hqb] at hboth
  obtain ⟨s, hs, x, hx, hrepeat⟩ := repeated_of_contains hexact hrow hboth.1 hboth.2 hexact'
  have hnot := hpq (p.name, s) (hpv ▸ List.mem_map_of_mem hs) (q.name, x)
    (hqv ▸ List.mem_map_of_mem hx)
  exact Bool.eq_false_iff.1 hnot hrepeat

omit htypes hrow in
theorem exclusive_of_hashOverlap?
    (hhashes : ∀ p ∈ ps, p.bound.contains row = true → p.bound.strategy? = some .hash)
    (h : hashOverlap? ps = none) : Exclusive row ps := by
  have hpair := (pairwise_of_firstClash? h).2
  rw [List.pairwise_filterMap] at hpair
  have hnamed : ∀ p ∈ ps, p.bound.contains row = true → ∃ a, namedRemainder? p = some a ∧
      (Bound.hash a.modulus a.remainder).contains row = true := by
    intro p hp hin
    have hstrategy := hhashes p hp hin
    unfold namedRemainder?
    cases hbound : p.bound with
    | hash modulus remainder =>
      rw [hbound] at hin
      exact ⟨_, rfl, hin⟩
    | _ => simp [hbound, Bound.strategy?] at hstrategy
  refine hpair.imp_of_mem fun hp hq hpq hboth => ?_
  obtain ⟨a, ha, hina⟩ := hnamed _ hp hboth.1
  obtain ⟨b, hb, hinb⟩ := hnamed _ hq hboth.2
  have hnot := not_contains_of_remainderClash? (hpq a ha b hb) hinb
  exact Bool.eq_false_iff.1 hnot hina

omit htypes hrow in
theorem resolveKey_strategy {strategy : Strategy} {columns : List String}
    (hkey : resolveKey r strategy columns = .ok key) : key.strategy = strategy := by
  unfold resolveKey at hkey
  split at hkey
  · cases hkey
  split at hkey
  · cases hkey
  rcases hcolumns : resolveColumns r columns [] with e | found
  · rw [hcolumns] at hkey
    cases hkey
  · rw [hcolumns] at hkey
    rw [← Except.ok.inj hkey]

/-- **A level that passes the check is unambiguous.** -/
theorem exclusive_of_checkLevel {strategy : Strategy} {columns : List String}
    (hkey : resolveKey r strategy columns = .ok key)
    (h : checkLevel r strategy columns ps names = .ok names') : Exclusive row ps := by
  unfold checkLevel at h
  rw [hkey] at h
  dsimp only at h
  split at h
  · cases h
  split at h
  · cases h
  rename_i hpass
  split at h
  · cases h
  rename_i hoverlap
  have hof := resolveKey_ok hkey
  have hown : ∀ p ∈ ps, p.bound = .default ∨
      p.bound.strategy? = some key.strategy ∧ boundFault? p.name p.bound key = none := by
    intro p hp
    obtain ⟨hasDefault, hnone⟩ := fault_of_checkPartitions hpass p hp
    exact boundFault?_of_partitionFault? hnone
  have hstrategy : ∀ p ∈ ps, p.bound.contains row = true → p.bound.strategy? = some strategy := by
    intro p hp hin
    rcases hown p hp with hdefault | ⟨hown, -⟩
    · rw [hdefault] at hin
      cases hin
    · rw [hown, resolveKey_strategy hkey]
  cases strategy with
  | range =>
    refine exclusive_of_rangeOverlap? htypes hrow (fun p hp a ha => ?_) hstrategy hoverlap
    unfold namedRange? at ha
    split at ha
    · rename_i lower upper hbound
      obtain rfl := Option.some.inj ha
      rcases hown p hp with hdefault | ⟨-, hnone⟩
      · rw [hdefault] at hbound
        cases hbound
      · rw [hbound] at hnone
        obtain ⟨columns, -, -, hattnums, htypes', -⟩ := hof
        have harity : key.arity = key.types.length := by
          rw [PartitionKey.arity, hattnums, htypes', List.length_map, List.length_map]
        exact over_of_rangeFault? harity hnone
    · cases ha
  | list =>
    exact exclusive_of_listOverlap? htypes hrow (suits_of_checkPartitions hof hpass) hstrategy hoverlap
  | hash => exact exclusive_of_hashOverlap? hstrategy hoverlap

end Level

/-! ## Every level -/

/-- **The levels of a layout**: the layout itself, and with each level the
layouts that divide its partitions further. -/
inductive Level (l : Layout) : Layout → Prop
  | top : Level l l
  | sub {m m' : Layout} {p : Partition} (hm : Level l m) (hp : p ∈ m.partitions)
      (hsub : p.sublayout? = some m') : Level l m'

/-- Validation checks every level, and what is below it. -/
theorem Level.checked {m : Layout} (hm : l.Level m) (h : l.validate r = .ok ()) :
    (∃ names names', checkLevel r m.strategy m.key m.partitions names = .ok names') ∧
      ∃ names names', checkAllBelow r m.partitions names = .ok names' := by
  induction hm with
  | top =>
    unfold validate at h
    split at h
    · cases h
    rename_i names hlevel
    refine ⟨⟨_, _, hlevel⟩, names, ?_⟩
    rcases hbelow : checkAllBelow r l.partitions names with e | names'
    · rw [hbelow] at h
      cases h
    · exact ⟨names', rfl⟩
  | @sub m m' p hm hp hsub ih =>
    obtain ⟨-, names, names', hall⟩ := ih
    obtain ⟨names, names', hbelow⟩ := checkBelow_of_checkAllBelow hall _ hp
    cases p with
    | leaf name bound => cases hsub
    | split name bound strategy columns ps =>
      obtain rfl := Option.some.inj hsub
      rw [checkBelow] at hbelow
      split at hbelow
      · cases hbelow
      · rename_i hlevel
        exact ⟨⟨_, _, hlevel⟩, _, _, hbelow⟩

end Layout

/-! ## Routing -/

/-- Where at most one item passes a test, the order of the items does not
matter to which one is found. -/
theorem find?_eq_of_perm {α : Type} {test : α → Bool} {xs ys : List α} (h : xs.Perm ys)
    (hone : xs.countP test ≤ 1) : xs.find? test = ys.find? test := by
  have hfilter := h.filter test
  rw [← List.head?_filter, ← List.head?_filter]
  rw [List.countP_eq_length_filter] at hone
  generalize xs.filter test = fs at hfilter hone ⊢
  rcases fs with _ | ⟨x, _ | ⟨x', fs⟩⟩
  · rw [List.perm_nil.1 hfilter.symm]
  · rw [List.perm_singleton.1 hfilter.symm]
  · simp at hone

/-- The partition a row is routed to is the one found to contain its key
values, or else the default one. -/
theorem PartitionDesc.route?_ofParts (parts : List (Oid × Bound)) (row : List Datum) :
    ((ofParts parts).route? row).bind (parts[·]?) =
      (parts.find? fun p => p.2.contains row).or (parts.find? fun p => p.2.isDefault) := by
  have hcontains : ((ofParts parts).bounds.findIdx? fun b => b.contains row) =
      parts.findIdx? fun p => p.2.contains row := List.findIdx?_map
  rw [List.find?_eq_bind_findIdx?_getElem?, List.find?_eq_bind_findIdx?_getElem?, route?, hcontains]
  rcases hfound : parts.findIdx? (fun p => p.2.contains row) with _ | i
  · rw [hfound]
    rfl
  · obtain ⟨hi, -, -⟩ := List.findIdx?_eq_some_iff_getElem.1 hfound
    rw [hfound]
    simp [hi]

/-- **Valid layouts are unambiguous.** At each level of a valid layout whose key
has no doubles, at most one sibling contains given key values of the types of
the key, and routing picks the same partition however the siblings are listed. -/
theorem Layout.unambiguous_of_validate (hvalid : l.validate r = .ok ()) {m : Layout}
    (hm : l.Level m) :
    ∃ key, resolveKey r m.strategy m.key = .ok key ∧
      ((∀ t ∈ key.types, t ≠ .float8) →
        ∀ row, List.Forall₂ (fun v t => v.isOf t = true) row key.types →
          m.partitions.countP (fun p => p.bound.contains row) ≤ 1 ∧
            ∀ parts parts' : List (Oid × Bound),
              (parts.map Prod.snd).Perm (m.partitions.map Partition.bound) → parts'.Perm parts →
                ((PartitionDesc.ofParts parts').route? row).bind (parts'[·]?) =
                  ((PartitionDesc.ofParts parts).route? row).bind (parts[·]?)) := by
  obtain ⟨⟨names, names', hlevel⟩, -⟩ := hm.checked hvalid
  obtain ⟨key, hkey, -⟩ := suits_of_checkLevel hlevel
  refine ⟨key, hkey, fun htypes row hrow => ?_⟩
  have hexact : ∀ v ∈ row, v.isExact = true :=
    forall_of_forall₂ hrow htypes fun _ _ => Datum.isExact_of_isOf
  have hone := (exclusive_of_checkLevel htypes hexact hkey hlevel).countP_le_one
  have hdefault := countP_isDefault_of_checkLevel hlevel
  refine ⟨hone, fun parts parts' hparts hperm => ?_⟩
  -- counting over the pairs is counting over the siblings
  have hcount : ∀ test : Bound → Bool, parts'.countP (fun p => test p.2) =
      m.partitions.countP fun p => test p.bound := by
    intro test
    calc parts'.countP (fun p => test p.2)
        = parts.countP (fun p => test p.2) := hperm.countP_eq _
      _ = (parts.map Prod.snd).countP test := List.countP_map.symm
      _ = (m.partitions.map Partition.bound).countP test := hparts.countP_eq _
      _ = m.partitions.countP fun p => test p.bound := List.countP_map
  rw [PartitionDesc.route?_ofParts, PartitionDesc.route?_ofParts,
    find?_eq_of_perm hperm ((hcount fun b => b.contains row).trans_le hone),
    find?_eq_of_perm hperm ((hcount Bound.isDefault).trans_le hdefault)]

namespace Layout

/-- A table of readings. -/
def readings : Relation where
  oid := ⟨16384⟩
  name := "readings"
  kind := .relation
  persistence := .permanent
  tablespace := Oid.invalid
  columns := [⟨⟨1⟩, "year", .int4, true, none⟩, ⟨⟨2⟩, "site", .text, true, none⟩,
    ⟨⟨3⟩, "loud", .bool, false, none⟩]
  pages := 10
  tuples := 100.0

/-- Readings that are loud, and the others. -/
def byLoudness : Layout :=
  (blank .list ["loud"]).add (.ofValues "loud" [.bool true]) |>.add
    (.ofValues "other" [.bool false, .null])

/-- Readings by year and site, the latest of them further by loudness. -/
def byYear : Layout :=
  (blank .range ["year", "site"]).add
      (.make "late" (.range [.value (.int 2000), .value (.text "m")] [.maxValue, .maxValue])
        (some byLoudness)) |>.add
    (.leaf "early" (.range [.minValue, .minValue] [.value (.int 2000), .minValue])) |>.add
    (.leaf "middle" (.range [.value (.int 2000), .minValue] [.value (.int 2000), .value (.text "m")]))

theorem unambiguous_byYear :
    byYear.validate readings = .ok () ∧ byYear.Level byLoudness ∧
      byLoudness.partitions.countP (fun p => p.bound.contains [.null]) ≤ 1 ∧
      ∀ parts parts' : List (Oid × Bound),
        (parts.map Prod.snd).Perm (byLoudness.partitions.map Partition.bound) → parts'.Perm parts →
          ((PartitionDesc.ofParts parts').route? [.null]).bind (parts'[·]?) =
            ((PartitionDesc.ofParts parts).route? [.null]).bind (parts[·]?) := by
  have hvalid : byYear.validate readings = .ok () := by rfl
  have hlevel : byYear.Level byLoudness := .sub .top List.mem_cons_self rfl
  obtain ⟨key, hkey, hrows⟩ := unambiguous_of_validate hvalid hlevel
  obtain rfl := Except.ok.inj hkey
  exact ⟨hvalid, hlevel, hrows (by decide) [.null] (.cons rfl .nil)⟩

end Layout

end WhatIf
