import WhatIf.Proofs.Constraint.Places
/-!
# Constraint — the places that a domain leaves

While all tests on a column are of one type a domain is exact about the places of
the column. Applying a test leaves the places that pass it
(`Domain.leaves_apply_iff`), and a domain is shown to be empty if and only if it
leaves none (`Domain.isProvablyEmpty_eq_false_iff`). So what a column is left does
not depend on the order of the tests, nor on how often each of them is made: it is
refuted if and only if no place passes all of them
(`Constraint.columnRefuted_eq_false_iff`).
-/

namespace WhatIf

variable {type : DataType} {o o' q : Ordering}

/-! ## Domains -/

namespace Domain

variable {d : Domain} {t : ColumnTest} {p : Place} {w : Datum} {vs : List Datum}
variable {inward : Ordering} {inclusive : Bool} {before : Option Endpoint}

/-- **A domain of values of one type**, all of which compare. -/
structure IsOf (d : Domain) (type : DataType) : Prop where
  decided : d.undecidable = false
  lower : ∀ e, d.lower = some e → e.value.IsValueOf type
  upper : ∀ e, d.upper = some e → e.value.IsValueOf type
  values : ∀ vs, d.values = some vs → ∀ v ∈ vs, v.IsValueOf type
  excluded : ∀ v ∈ d.excluded, v.IsValueOf type

/-- **A place that a domain leaves**: it is inside both ends, among the values
listed and apart from those excluded. -/
structure Leaves (d : Domain) (p : Place) : Prop where
  not_empty : d.empty = false
  null : d.nullness = .null → p.isNull = true
  notNull : d.nullness = .notNull → p.isNull = false
  lower : p.isInside .gt d.lower = true
  upper : p.isInside .lt d.upper = true
  values : ∀ vs, d.values = some vs → vs.any p.isAt = true
  excluded : ∀ v ∈ d.excluded, p.isNull = false ∧ p.isAt v = false

theorem isOf_full (type : DataType) : full.IsOf type where
  decided := rfl
  lower _ h := nomatch h
  upper _ h := nomatch h
  values _ h := nomatch h
  excluded _ h := nomatch h

theorem leaves_full (p : Place) : full.Leaves p where
  not_empty := rfl
  null h := nomatch h
  notNull h := nomatch h
  lower := rfl
  upper := rfl
  values _ h := nomatch h
  excluded _ h := nomatch h

/-! ### One type -/

theorem IsOf.requireNull (h : d.IsOf type) : d.requireNull.IsOf type := by
  unfold Domain.requireNull
  split
  · exact ⟨h.decided, h.lower, h.upper, h.values, h.excluded⟩
  · exact ⟨h.decided, h.lower, h.upper, h.values, h.excluded⟩

theorem IsOf.requireNotNull (h : d.IsOf type) : d.requireNotNull.IsOf type := by
  unfold Domain.requireNotNull
  split
  · exact ⟨h.decided, h.lower, h.upper, h.values, h.excluded⟩
  · exact ⟨h.decided, h.lower, h.upper, h.values, h.excluded⟩

section

variable (htype : type ≠ .float8)

include htype

theorem IsOf.restrictTo (h : d.IsOf type) (hvs : ∀ v ∈ vs, v.IsValueOf type) :
    (d.restrictTo vs).IsOf type := by
  unfold Domain.restrictTo
  split
  · exact ⟨h.decided, h.lower, h.upper, fun us hus => Option.some.inj hus ▸ hvs, h.excluded⟩
  · rename_i current hcurrent
    have hvalue := h.values current hcurrent
    refine ⟨?_, h.lower, h.upper, fun us hus v hv => ?_, h.excluded⟩
    · rw [h.decided, Bool.false_or, List.any_eq_false]
      intro v hv
      rw [Bool.not_eq_true, List.any_eq_false]
      intro w hw
      obtain ⟨o, ho⟩ := (hvalue v hv).exists_compare? htype (hvs w hw)
      simp [ho]
    · rw [← Option.some.inj hus] at hv
      exact hvalue v (List.mem_filter.1 hv).1

/-- Ends of one type compare, and the tighter one is of the type too. -/
theorem isOf_tighten (inward : Ordering) (inclusive : Bool)
    (hbefore : ∀ e, before = some e → e.value.IsValueOf type) (hw : w.IsValueOf type) :
    (tighten inward before w inclusive).2 = false ∧
      ∀ e, (tighten inward before w inclusive).1 = some e → e.value.IsValueOf type := by
  rcases before with _ | e
  · exact ⟨rfl, fun e he => Option.some.inj he ▸ hw⟩
  obtain ⟨q, hq⟩ := hw.exists_compare? htype (hbefore e rfl)
  rw [tighten, tightens?, hq, Option.map_some]
  split
  · exact ⟨rfl, fun e he => Option.some.inj he ▸ hw⟩
  · exact ⟨rfl, fun e' he => hbefore e' he⟩
  · rename_i hnone
    cases hnone

theorem IsOf.compareWith {op : CompareOp} (h : d.IsOf type) (hw : w.IsValueOf type) :
    (d.compareWith op w).IsOf type := by
  have hlower : ∀ inclusive, (d.tightenLower w inclusive).IsOf type := by
    intro inclusive
    obtain ⟨hclash, hends⟩ := isOf_tighten htype .gt inclusive h.lower hw
    exact ⟨Bool.or_eq_false_iff.2 ⟨h.decided, hclash⟩, hends, h.upper, h.values, h.excluded⟩
  have hupper : ∀ inclusive, (d.tightenUpper w inclusive).IsOf type := by
    intro inclusive
    obtain ⟨hclash, hends⟩ := isOf_tighten htype .lt inclusive h.upper hw
    exact ⟨Bool.or_eq_false_iff.2 ⟨h.decided, hclash⟩, h.lower, hends, h.values, h.excluded⟩
  cases op with
  | eq => exact h.restrictTo htype (List.forall_mem_singleton.2 hw)
  | ne =>
    exact ⟨h.decided, h.lower, h.upper, h.values,
      List.forall_mem_append.2 ⟨h.excluded, List.forall_mem_singleton.2 hw⟩⟩
  | lt => exact hupper false
  | le => exact hupper true
  | gt => exact hlower false
  | ge => exact hlower true

/-- A test of the type keeps the domain one of it. -/
theorem IsOf.apply (h : d.IsOf type) (ht : t.isOf type = true) : (d.apply t).IsOf type := by
  cases t with
  | isNull => exact h.requireNull
  | isNotNull => exact h.requireNotNull
  | compare op w =>
    rw [Domain.apply]
    have h' := h.requireNotNull
    split
    · exact ⟨h'.decided, h'.lower, h'.upper, h'.values, h'.excluded⟩
    · rename_i hnull
      exact h'.compareWith htype ⟨Bool.eq_false_iff.2 hnull, ht⟩
  | isIn vs =>
    refine h.requireNotNull.restrictTo htype fun v hv => ?_
    obtain ⟨hmem, hnull⟩ := List.mem_filter.1 hv
    exact ⟨by simpa using hnull, List.all_eq_true.1 ht v hmem⟩

end

/-! ### What one test leaves -/

theorem leaves_requireNull_iff : d.requireNull.Leaves p ↔ d.Leaves p ∧ p.isNull = true := by
  unfold requireNull
  split
  · rename_i hnot
    constructor
    · exact fun h => nomatch h.not_empty
    · rintro ⟨h, hp⟩
      rw [h.notNull hnot] at hp
      cases hp
  · rename_i hne
    constructor
    · intro h
      have hp := h.null rfl
      exact ⟨⟨h.not_empty, fun _ => hp, fun hnot => (hne hnot).elim, h.lower, h.upper, h.values,
        h.excluded⟩, hp⟩
    · rintro ⟨h, hp⟩
      exact ⟨h.not_empty, fun _ => hp, fun hnot => (nomatch hnot), h.lower, h.upper, h.values,
        h.excluded⟩

theorem leaves_requireNotNull_iff : d.requireNotNull.Leaves p ↔ d.Leaves p ∧ p.isNull = false := by
  unfold requireNotNull
  split
  · rename_i hnull
    constructor
    · exact fun h => nomatch h.not_empty
    · rintro ⟨h, hp⟩
      rw [h.null hnull] at hp
      cases hp
  · rename_i hne
    constructor
    · intro h
      have hp := h.notNull rfl
      exact ⟨⟨h.not_empty, fun hnull => (hne hnull).elim, fun _ => hp, h.lower, h.upper, h.values,
        h.excluded⟩, hp⟩
    · rintro ⟨h, hp⟩
      exact ⟨h.not_empty, fun hnull => (nomatch hnull), fun _ => hp, h.lower, h.upper, h.values,
        h.excluded⟩

theorem leaves_exclude_iff : Leaves { d with excluded := d.excluded ++ [w] } p ↔
    d.Leaves p ∧ p.isNull = false ∧ p.isAt w = false := by
  constructor
  · intro h
    have hexcluded := List.forall_mem_append.1 h.excluded
    exact ⟨⟨h.not_empty, h.null, h.notNull, h.lower, h.upper, h.values, hexcluded.1⟩,
      hexcluded.2 w (List.mem_singleton_self w)⟩
  · rintro ⟨h, hw⟩
    exact ⟨h.not_empty, h.null, h.notNull, h.lower, h.upper, h.values,
      List.forall_mem_append.2 ⟨h.excluded, List.forall_mem_singleton.2 hw⟩⟩

section

variable (htype : type ≠ .float8) (hd : d.IsOf type) (hp : p.IsOf type)

include htype hd hp

theorem leaves_restrictTo_iff (hvs : ∀ v ∈ vs, v.IsValueOf type) :
    (d.restrictTo vs).Leaves p ↔ d.Leaves p ∧ vs.any p.isAt = true := by
  unfold restrictTo
  split
  · rename_i hvalues
    constructor
    · intro h
      exact ⟨⟨h.not_empty, h.null, h.notNull, h.lower, h.upper,
        fun us hus => (nomatch hvalues.symm.trans hus), h.excluded⟩, h.values vs rfl⟩
    · rintro ⟨h, hany⟩
      exact ⟨h.not_empty, h.null, h.notNull, h.lower, h.upper,
        fun us hus => Option.some.inj hus ▸ hany, h.excluded⟩
  · rename_i current hcurrent
    -- a place is at one value at most, so at one that both lists have
    have hboth : (current.filter fun v => vs.any v.equals).any p.isAt = true ↔
        current.any p.isAt = true ∧ vs.any p.isAt = true := by
      simp only [List.any_eq_true, List.mem_filter]
      have hvalue := hd.values current hcurrent
      constructor
      · rintro ⟨v, ⟨hv, w, hw, hvw⟩, hat⟩
        rw [(hvalue v hv).equals_iff htype (hvs w hw)] at hvw
        exact ⟨⟨v, hv, hat⟩, w, hw, hvw ▸ hat⟩
      · rintro ⟨⟨v, hv, hat⟩, w, hw, hat'⟩
        refine ⟨v, ⟨hv, w, hw, ?_⟩, hat⟩
        rw [Place.isAt_iff htype hp (hvalue v hv)] at hat
        rw [Place.isAt_iff htype hp (hvs w hw), hat] at hat'
        rw [(hvalue v hv).equals_iff htype (hvs w hw), Place.value.inj hat']
    constructor
    · intro h
      obtain ⟨hany, hany'⟩ := hboth.1 (h.values _ rfl)
      exact ⟨⟨h.not_empty, h.null, h.notNull, h.lower, h.upper,
        fun us hus => Option.some.inj (hcurrent.symm.trans hus) ▸ hany, h.excluded⟩, hany'⟩
    · rintro ⟨h, hany⟩
      exact ⟨h.not_empty, h.null, h.notNull, h.lower, h.upper,
        fun us hus => Option.some.inj hus ▸ hboth.2 ⟨h.values current hcurrent, hany⟩, h.excluded⟩

omit hd in
/-- Of two ends the tighter is kept: what is inside it is inside both. -/
theorem isInside_tighten_iff (inclusive : Bool) (hinward : inward ≠ .eq)
    (hbefore : ∀ e, before = some e → e.value.IsValueOf type) (hw : w.IsValueOf type) :
    p.isInside inward (tighten inward before w inclusive).1 = true ↔
      p.isInside inward before = true ∧ p.isInside inward (some ⟨w, inclusive⟩) = true := by
  rcases before with _ | e
  · simp [tighten]
  have he := hbefore e rfl
  obtain ⟨q, hq⟩ := hw.exists_compare? htype he
  have hqswap := Datum.compare?_swap (hw.isExact htype) (he.isExact htype) hq
  rw [tighten, tightens?, hq, Option.map_some]
  by_cases htight : (q == inward || (q == .eq && e.inclusive && !inclusive)) = true
  · rw [htight]
    refine ⟨fun h => ⟨?_, h⟩, And.right⟩
    refine Place.isInside_of_tighter htype hp hw he hinward hq ?_ h
    rcases Bool.or_eq_true_iff.1 htight with hin | heq
    · exact Or.inl (beq_iff_eq.1 hin)
    · simp only [Bool.and_eq_true, beq_iff_eq] at heq
      exact Or.inr ⟨heq.1.1, fun _ => heq.1.2⟩
  · rw [Bool.eq_false_iff.2 htight]
    refine ⟨fun h => ⟨h, ?_⟩, And.left⟩
    refine Place.isInside_of_tighter htype hp he hw hinward hqswap ?_ h
    cases q <;> cases inward <;> simp_all

theorem leaves_tightenLower_iff (hw : w.IsValueOf type) :
    (d.tightenLower w inclusive).Leaves p ↔
      d.Leaves p ∧ p.isInside .gt (some ⟨w, inclusive⟩) = true := by
  have hiff := isInside_tighten_iff htype hp inclusive (by decide : Ordering.gt ≠ .eq) hd.lower hw
  constructor
  · intro h
    obtain ⟨hlower, hnew⟩ := hiff.1 h.lower
    exact ⟨⟨h.not_empty, h.null, h.notNull, hlower, h.upper, h.values, h.excluded⟩, hnew⟩
  · rintro ⟨h, hnew⟩
    exact ⟨h.not_empty, h.null, h.notNull, hiff.2 ⟨h.lower, hnew⟩, h.upper, h.values, h.excluded⟩

theorem leaves_tightenUpper_iff (hw : w.IsValueOf type) :
    (d.tightenUpper w inclusive).Leaves p ↔
      d.Leaves p ∧ p.isInside .lt (some ⟨w, inclusive⟩) = true := by
  have hiff := isInside_tighten_iff htype hp inclusive (by decide : Ordering.lt ≠ .eq) hd.upper hw
  constructor
  · intro h
    obtain ⟨hupper, hnew⟩ := hiff.1 h.upper
    exact ⟨⟨h.not_empty, h.null, h.notNull, h.lower, hupper, h.values, h.excluded⟩, hnew⟩
  · rintro ⟨h, hnew⟩
    exact ⟨h.not_empty, h.null, h.notNull, h.lower, hiff.2 ⟨h.upper, hnew⟩, h.values, h.excluded⟩

/-- Comparing with a value. -/
theorem leaves_compareWith_iff {op : CompareOp} (hw : w.IsValueOf type) :
    (d.compareWith op w).Leaves p ↔
      d.Leaves p ∧ p.isNull = false ∧ (ColumnTest.compare op w).passes p = true := by
  obtain ⟨hlt, hle, hgt, hge⟩ := ColumnTest.passes_ends p w
  cases op with
  | eq =>
    rw [compareWith, leaves_restrictTo_iff htype hd hp (List.forall_mem_singleton.2 hw)]
    simp only [List.any_cons, List.any_nil, Bool.or_false, ColumnTest.passes]
    rw [and_iff_right_of_imp Place.isNull_of_isAt]
  | ne =>
    rw [compareWith, leaves_exclude_iff]
    simp [ColumnTest.passes, hw.isNull]
  | lt =>
    rw [compareWith, leaves_tightenUpper_iff htype hd hp hw, hlt,
      and_iff_right_of_imp Place.isNull_of_isInside]
  | le =>
    rw [compareWith, leaves_tightenUpper_iff htype hd hp hw, hle,
      and_iff_right_of_imp Place.isNull_of_isInside]
  | gt =>
    rw [compareWith, leaves_tightenLower_iff htype hd hp hw, hgt,
      and_iff_right_of_imp Place.isNull_of_isInside]
  | ge =>
    rw [compareWith, leaves_tightenLower_iff htype hd hp hw, hge,
      and_iff_right_of_imp Place.isNull_of_isInside]

/-- **A test leaves the places that pass it**, of those there were. -/
theorem leaves_apply_iff (ht : t.isOf type = true) :
    (d.apply t).Leaves p ↔ d.Leaves p ∧ t.passes p = true := by
  have hd' : d.requireNotNull.IsOf type := hd.requireNotNull
  cases t with
  | isNull => exact leaves_requireNull_iff
  | isNotNull =>
    rw [apply, leaves_requireNotNull_iff, ColumnTest.passes, Bool.not_eq_true']
  | compare op w =>
    rw [apply]
    by_cases hwnull : w.isNull = true
    · rw [if_pos hwnull, ColumnTest.passes_compare_null hwnull]
      constructor
      · intro h
        cases h.not_empty
      · rintro ⟨-, hpasses⟩
        cases hpasses
    · have hnull : (ColumnTest.compare op w).passes p = true → p.isNull = false :=
        fun h => ColumnTest.isNull_of_passes h (by simp)
      rw [if_neg hwnull, leaves_compareWith_iff htype hd' hp ⟨Bool.eq_false_iff.2 hwnull, ht⟩,
        leaves_requireNotNull_iff, and_iff_right_of_imp hnull, and_assoc,
        and_iff_right_of_imp hnull]
  | isIn vs =>
    have hvalues : ∀ v ∈ vs.filter fun v => !v.isNull, v.IsValueOf type := by
      intro v hv
      obtain ⟨hmem, hnull⟩ := List.mem_filter.1 hv
      exact ⟨by simpa using hnull, List.all_eq_true.1 ht v hmem⟩
    have hnull : (ColumnTest.isIn vs).passes p = true → p.isNull = false :=
      fun h => ColumnTest.isNull_of_passes h (by simp)
    rw [apply, leaves_restrictTo_iff htype hd' hp hvalues, leaves_requireNotNull_iff,
      Place.any_isAt_filter, and_assoc]
    exact and_congr_right fun _ => and_iff_right_of_imp hnull

end

/-! ### What is shown to be empty -/

/-- `NULL` is inside no end, in no list and apart from nothing. -/
theorem leaves_null_iff (hempty : d.empty = false) (hnullness : d.nullness = .null) :
    d.Leaves .null ↔ d.mentionsValue = false := by
  simp only [mentionsValue, Bool.or_eq_false_iff, Option.isSome_eq_false_iff,
    Option.isNone_iff_eq_none, Bool.not_eq_false', List.isEmpty_iff]
  constructor
  · intro h
    have hend : ∀ {inward : Ordering} {e : Option Endpoint},
        Place.isInside inward .null e = true → e = none := by
      intro inward e he
      cases e with
      | none => rfl
      | some e => cases he
    refine ⟨⟨⟨hend h.lower, hend h.upper⟩, ?_⟩, ?_⟩
    · exact Option.eq_none_iff_forall_ne_some.2 fun vs hvs => by simpa using h.values vs hvs
    · refine List.eq_nil_iff_forall_not_mem.2 fun v hv => ?_
      cases (h.excluded v hv).1
  · rintro ⟨⟨⟨hlower, hupper⟩, hvalues⟩, hexcluded⟩
    refine ⟨hempty, fun _ => rfl, fun hnot => ?_, hlower ▸ rfl, hupper ▸ rfl, fun vs hvs => ?_,
      fun v hv => ?_⟩
    · cases hnullness.symm.trans hnot
    · cases hvalues.symm.trans hvs
    · rw [hexcluded] at hv
      cases hv

/-- A place beside a value is apart from all values. -/
theorem leaves_beside {v : Datum} {side : Ordering} (hempty : d.empty = false)
    (hnullness : d.nullness ≠ .null) (hvalues : d.values = none)
    (hlower : (Place.beside v side).isInside .gt d.lower = true)
    (hupper : (Place.beside v side).isInside .lt d.upper = true) : d.Leaves (.beside v side) where
  not_empty := hempty
  null h := absurd h hnullness
  notNull _ := rfl
  lower := hlower
  upper := hupper
  values vs hvs := by cases hvalues.symm.trans hvs
  excluded _ _ := ⟨rfl, rfl⟩

section

variable (htype : type ≠ .float8)

include htype

theorem within?_eq {v : Datum} (hv : v.IsValueOf type)
    (hbefore : ∀ e, before = some e → e.value.IsValueOf type) :
    within? inward v before = some (Place.isInside inward (.value v) before) := by
  rcases before with _ | e
  · rfl
  obtain ⟨o, ho⟩ := hv.exists_compare? htype (hbefore e rfl)
  rw [within?, Place.isInside, Place.compare?, ho, Option.map_some, Option.any_some]

theorem avoids?_eq {v : Datum} (hv : v.IsValueOf type) (hvs : ∀ w ∈ vs, w.IsValueOf type) :
    avoids? v vs = some !vs.any v.equals := by
  induction vs with
  | nil => rfl
  | cons w vs ih =>
    obtain ⟨hw, hrest⟩ := List.forall_mem_cons.1 hvs
    obtain ⟨o, ho⟩ := hv.exists_compare? htype hw
    rw [avoids?, ho]
    cases o <;> simp [Datum.equals, ho, ih hrest]

/-- Among values of one type it is decided which a domain allows. -/
theorem allows?_eq (hd : d.IsOf type) {v : Datum} (hv : v.IsValueOf type) :
    d.allows? v = some (Place.isInside .gt (.value v) d.lower &&
      Place.isInside .lt (.value v) d.upper && !d.excluded.any v.equals) := by
  rw [allows?, within?_eq htype hv hd.lower, within?_eq htype hv hd.upper,
    avoids?_eq htype hv hd.excluded]
  cases Place.isInside .gt (.value v) d.lower <;> cases Place.isInside .lt (.value v) d.upper <;>
    rfl

/-- Two ends with a place between them are not crossed. -/
theorem crossed_eq_false_of_isInside {low high : Endpoint} (hp : p.IsOf type)
    (hlow : low.value.IsValueOf type) (hhigh : high.value.IsValueOf type)
    (hlower : p.isInside .gt (some low) = true) (hupper : p.isInside .lt (some high) = true) :
    crossed low high = false := by
  obtain ⟨o, ho, hin⟩ := (Option.any_eq_true _ _).1 hlower
  obtain ⟨o', ho', hin'⟩ := (Option.any_eq_true _ _).1 hupper
  obtain ⟨q, hq⟩ := hlow.exists_compare? htype hhigh
  rw [crossed, hq]
  by_cases hfall : q = .lt
  · rw [hfall]
  -- from the place up to the one end, and on up to the other
  have hrise := Place.compare?_then_of_ne htype hp hlow hhigh (by decide : Ordering.lt ≠ .eq) ho
    (by rintro rfl; simp at hin) hq hfall
  rw [ho'] at hrise
  cases o <;> cases q <;> simp_all

/-- **A domain that leaves a place is not shown to be empty.** -/
theorem Leaves.isProvablyEmpty_eq_false (h : d.Leaves p) (hd : d.IsOf type) (hp : p.IsOf type) :
    d.isProvablyEmpty = false := by
  rw [isProvablyEmpty, h.not_empty, hd.decided]
  rw [if_neg Bool.false_ne_true, if_neg Bool.false_ne_true]
  split
  · rename_i hnullness
    obtain rfl := Place.isNull_eq_true_iff.1 (h.null hnullness)
    exact (leaves_null_iff h.not_empty hnullness).1 h
  split
  · -- the place is one of the values listed
    rename_i vs hvs
    have hvalue := hd.values vs hvs
    obtain ⟨v, hv, hat⟩ := List.any_eq_true.1 (h.values vs hvs)
    obtain rfl := (Place.isAt_iff htype hp (hvalue v hv)).1 hat
    have hexcluded : d.excluded.any v.equals = false :=
      List.any_eq_false.2 fun w hw => Bool.eq_false_iff.1 (h.excluded w hw).2
    refine List.all_eq_false.2 ⟨v, hv, ?_⟩
    rw [allows?_eq htype hd (hvalue v hv), h.lower, h.upper, hexcluded]
    decide
  · split
    · rename_i low high hlow hhigh
      exact crossed_eq_false_of_isInside htype hp (hd.lower low hlow) (hd.upper high hhigh)
        (hlow ▸ h.lower) (hhigh ▸ h.upper)
    · rfl

/-- A place just inside an end. -/
theorem isInside_beside_self {v : Datum} (hv : v.IsValueOf type) :
    (Place.beside v inward).isInside inward (some ⟨v, inclusive⟩) = true := by
  rw [Place.isInside, Place.compare?, hv.compare?_self htype]
  cases inward <;> simp

/-- Two ends that are not crossed have a place between them, beside the lower. -/
theorem exists_beside_between {low high : Endpoint} (hlow : low.value.IsValueOf type)
    (hhigh : high.value.IsValueOf type) (h : crossed low high = false) :
    ∃ side, (Place.beside low.value side).isInside .gt (some low) = true ∧
      (Place.beside low.value side).isInside .lt (some high) = true := by
  obtain ⟨q, hq⟩ := hlow.exists_compare? htype hhigh
  rw [crossed, hq] at h
  cases q with
  | lt =>
    refine ⟨.gt, isInside_beside_self htype hlow, ?_⟩
    rw [Place.isInside, Place.compare?, hq]
    rfl
  | gt => cases h
  | eq =>
    -- both ends are one value, and on it there is a place that no test excludes
    have hboth : low.inclusive = true ∧ high.inclusive = true := by simpa using h
    refine ⟨.eq, ?_, ?_⟩
    · rw [Place.isInside, Place.compare?, hlow.compare?_self htype]
      simpa using hboth.1
    · rw [Place.isInside, Place.compare?, hq]
      simpa using hboth.2

/-- A value that is listed and not forbidden is left. -/
theorem leaves_value_of_allows? (hd : d.IsOf type) (hempty : d.empty = false)
    (hnullness : d.nullness ≠ .null) {v : Datum} (hv : v.IsValueOf type)
    (hlisted : ∀ vs, d.values = some vs → v ∈ vs) (hallows : d.allows? v ≠ some false) :
    d.Leaves (.value v) := by
  rw [allows?_eq htype hd hv, ne_eq, Option.some.injEq, Bool.not_eq_false, Bool.and_eq_true,
    Bool.and_eq_true, Bool.not_eq_true'] at hallows
  obtain ⟨⟨hlower, hupper⟩, hexcluded⟩ := hallows
  refine ⟨hempty, fun hnull => absurd hnull hnullness, fun _ => rfl, hlower, hupper,
    fun vs hvs => ?_, fun w hw => ⟨rfl, ?_⟩⟩
  · exact List.any_eq_true.2 ⟨v, hlisted vs hvs, beq_iff_eq.2 (hv.compare?_self htype)⟩
  · exact Bool.eq_false_iff.2 (List.any_eq_false.1 hexcluded w hw)

/-- **What is not shown to be empty leaves a place.** -/
theorem exists_leaves (hd : d.IsOf type) (h : d.isProvablyEmpty = false) :
    ∃ p, p.IsOf type ∧ d.Leaves p := by
  have hempty : d.empty = false := by
    by_contra hne
    rw [isProvablyEmpty, if_pos (by simpa using hne)] at h
    cases h
  rw [isProvablyEmpty, hempty, hd.decided, if_neg Bool.false_ne_true,
    if_neg Bool.false_ne_true] at h
  split at h
  · rename_i hnullness
    exact ⟨.null, trivial, (leaves_null_iff hempty hnullness).2 h⟩
  rename_i hnullness
  split at h
  · rename_i vs hvs
    obtain ⟨v, hv, hallows⟩ := List.all_eq_false.1 h
    have hvalue := hd.values vs hvs v hv
    refine ⟨.value v, hvalue, leaves_value_of_allows? htype hd hempty hnullness hvalue ?_ ?_⟩
    · intro us hus
      rwa [← Option.some.inj (hvs.symm.trans hus)]
    · simpa using hallows
  · rename_i hvalues
    -- no value is listed, so a place will do that is beside one of the ends
    have hbeside : ∀ v side, v.IsValueOf type → (Place.beside v side).isInside .gt d.lower = true →
        (Place.beside v side).isInside .lt d.upper = true → ∃ p, p.IsOf type ∧ d.Leaves p :=
      fun v side hv hlower hupper =>
        ⟨.beside v side, hv, leaves_beside hempty hnullness hvalues hlower hupper⟩
    rcases hlow : d.lower with _ | low
    · rcases hhigh : d.upper with _ | high
      · obtain ⟨v, hv⟩ := Datum.exists_isValueOf type
        exact hbeside v .eq hv (hlow ▸ rfl) (hhigh ▸ rfl)
      · have hvalue := hd.upper high hhigh
        exact hbeside high.value .lt hvalue (hlow ▸ rfl)
          (hhigh ▸ isInside_beside_self htype hvalue)
    · have hvalue := hd.lower low hlow
      rcases hhigh : d.upper with _ | high
      · exact hbeside low.value .gt hvalue (hlow ▸ isInside_beside_self htype hvalue)
          (hhigh ▸ rfl)
      · rw [hlow, hhigh] at h
        obtain ⟨side, hlower, hupper⟩ :=
          exists_beside_between htype hvalue (hd.upper high hhigh) h
        exact hbeside low.value side hvalue (hlow ▸ hlower) (hhigh ▸ hupper)

/-- **A domain of values of one type is shown to be empty if and only if it
leaves no place.** -/
theorem isProvablyEmpty_eq_false_iff (hd : d.IsOf type) :
    d.isProvablyEmpty = false ↔ ∃ p, p.IsOf type ∧ d.Leaves p :=
  ⟨exists_leaves htype hd, fun ⟨_, hp, h⟩ => h.isProvablyEmpty_eq_false htype hd hp⟩

end

end Domain

/-! ## Columns -/

namespace Constraint

variable {d : Domain} {p : Place} {tests : List ColumnTest} {choices : List (List ColumnTest)}
variable {restrictions : List Restriction} {constraints : List Constraint} {a : AttNum}

/-- **That the constants compared with a column are of a type**, those that are
`NULL` apart. -/
structure ColumnOf (restrictions : List Restriction) (constraints : List Constraint) (a : AttNum)
    (type : DataType) : Prop where
  restrictions : ∀ t ∈ testsOn a restrictions, t.isOf type = true
  columns : ∀ t ∈ constraints.filterMap (testOn? a), t.isOf type = true
  choices : ∀ ts ∈ constraints.filterMap (choiceOn? a), ∀ t ∈ ts, t.isOf type = true

/-- **A place of a column that is left** by restrictions and constraints: it
passes every test on the column, and one of each choice. -/
structure ColumnLeaves (restrictions : List Restriction) (constraints : List Constraint)
    (a : AttNum) (p : Place) : Prop where
  restrictions : ∀ t ∈ testsOn a restrictions, t.passes p = true
  columns : ∀ t ∈ constraints.filterMap (testOn? a), t.passes p = true
  choices : ∀ ts ∈ constraints.filterMap (choiceOn? a), ∃ t ∈ ts, t.passes p = true

section

variable (htype : type ≠ .float8)

include htype

theorem isOf_foldl (hd : d.IsOf type) (htests : ∀ t ∈ tests, t.isOf type = true) :
    (tests.foldl Domain.apply d).IsOf type := by
  induction tests generalizing d with
  | nil => exact hd
  | cons t tests ih =>
    obtain ⟨ht, hrest⟩ := List.forall_mem_cons.1 htests
    exact ih (hd.apply htype ht) hrest

/-- Tests leave the places that pass them all, whatever their order. -/
theorem leaves_foldl_iff (hd : d.IsOf type) (hp : p.IsOf type)
    (htests : ∀ t ∈ tests, t.isOf type = true) :
    (tests.foldl Domain.apply d).Leaves p ↔ d.Leaves p ∧ ∀ t ∈ tests, t.passes p = true := by
  induction tests generalizing d with
  | nil => simp
  | cons t tests ih =>
    obtain ⟨ht, hrest⟩ := List.forall_mem_cons.1 htests
    rw [List.foldl_cons, ih (hd.apply htype ht) hrest, Domain.leaves_apply_iff htype hd hp ht,
      List.forall_mem_cons, and_assoc]

/-- Choices leave the places that pass one test of each. -/
theorem emptied_eq_false_iff (hd : d.IsOf type)
    (hchoices : ∀ ts ∈ choices, ∀ t ∈ ts, t.isOf type = true) :
    emptied d choices = false ↔
      ∃ p, p.IsOf type ∧ d.Leaves p ∧ ∀ ts ∈ choices, ∃ t ∈ ts, t.passes p = true := by
  induction choices generalizing d with
  | nil => simpa [emptied] using Domain.isProvablyEmpty_eq_false_iff htype hd
  | cons ts choices ih =>
    obtain ⟨hts, hrest⟩ := List.forall_mem_cons.1 hchoices
    rw [emptied, List.all_eq_false]
    constructor
    · rintro ⟨t, ht, hemptied⟩
      obtain ⟨p, hp, hleaves, hothers⟩ :=
        (ih (hd.apply htype (hts t ht)) hrest).1 (Bool.not_eq_true _ ▸ hemptied)
      obtain ⟨hleaves, hpasses⟩ := (Domain.leaves_apply_iff htype hd hp (hts t ht)).1 hleaves
      exact ⟨p, hp, hleaves, List.forall_mem_cons.2 ⟨⟨t, ht, hpasses⟩, hothers⟩⟩
    · rintro ⟨p, hp, hleaves, hpasses⟩
      obtain ⟨⟨t, ht, hpass⟩, hothers⟩ := List.forall_mem_cons.1 hpasses
      have hleaves' := (Domain.leaves_apply_iff htype hd hp (hts t ht)).2 ⟨hleaves, hpass⟩
      refine ⟨t, ht, ?_⟩
      rw [(ih (hd.apply htype (hts t ht)) hrest).2 ⟨p, hp, hleaves', hothers⟩]
      exact Bool.false_ne_true

/-- **A column is refuted if and only if no place of it is left.** -/
theorem columnRefuted_eq_false_iff (hof : ColumnOf restrictions constraints a type) :
    columnRefuted restrictions constraints a = false ↔
      ∃ p, p.IsOf type ∧ ColumnLeaves restrictions constraints a p := by
  have htests := List.forall_mem_append.2 ⟨hof.restrictions, hof.columns⟩
  have hfull := Domain.isOf_full type
  rw [columnRefuted, emptied_eq_false_iff htype (isOf_foldl htype hfull htests) hof.choices]
  refine exists_congr fun p => and_congr_right fun hp => ?_
  rw [leaves_foldl_iff htype hfull hp htests, List.forall_mem_append]
  constructor
  · exact fun ⟨⟨_, hrestrictions, hcolumns⟩, hchoices⟩ => ⟨hrestrictions, hcolumns, hchoices⟩
  · exact fun ⟨hrestrictions, hcolumns, hchoices⟩ =>
      ⟨⟨Domain.leaves_full p, hrestrictions, hcolumns⟩, hchoices⟩

end

end Constraint

end WhatIf
