import WhatIf.Proofs.Partition.Disjoint
import WhatIf.Proofs.Sorting.InOrder
/-!
# Partition — the order of siblings

`Bound.order` falls back to equality where values do not compare, so it is no
order of all bounds. Of the bounds of one level without doubles it is: it turns
round when they are exchanged and is transitive. If the level also passes the
check for overlaps, no two of its bounds are equal in that order, and there is
one way only to list the siblings in it.
-/

namespace WhatIf

variable {types : List DataType} {strategy : Strategy} {key : PartitionKey}

/-! ## Exact bounds -/

/-- The type of the exact values of a column: in a column of doubles these are
integers. -/
def DataType.exactly : DataType → DataType
  | float8 => int8
  | t => t

theorem DataType.exactly_ne (t : DataType) : t.exactly ≠ .float8 := by
  cases t <;> decide

theorem Datum.fits_exactly {v : Datum} {t : DataType} (h : v.fits t = true)
    (hv : v.isExact = true) : v.fits t.exactly = true := by
  cases t with
  | float8 =>
    cases v with
    | float x => cases hv
    | int i => rfl
    | null => rfl
    | _ => cases h
  | _ => exact h

namespace Bound

/-- Whether no value of the bound is a double. -/
def isExact : Bound → Bool
  | range lower upper => lower.all RangeDatum.isExact && upper.all RangeDatum.isExact
  | list values => values.all Datum.isExact
  | _ => true

/-- **A bound of a level**, which is the default one or of the level's strategy:
a range that rises from one end over the key columns to another, a list with
values of the key column, or a remainder below its modulus. -/
def IsOf (strategy : Strategy) (types : List DataType) : Bound → Prop
  | range lower upper => strategy = .range ∧ Layout.NamedRange.Over types ⟨"", lower, upper⟩
  | list values =>
    strategy = .list ∧ values ≠ [] ∧ ∃ t rest, types = t :: rest ∧ ∀ v ∈ values, v.fits t = true
  | hash modulus remainder => strategy = .hash ∧ remainder < modulus
  | default => True

/-- A bound without a fault is one of the level. -/
theorem isOf_of_boundFault? {r : Relation} (hkey : key.IsKeyOf r) {b : Bound} {name : String}
    (hown : b.strategy? = some key.strategy) (h : Layout.boundFault? name b key = none) :
    b.IsOf key.strategy key.types := by
  obtain ⟨columns, hne, -, hattnums, htypes, -⟩ := hkey
  cases b with
  | range lower upper =>
    have harity : key.arity = key.types.length := by
      rw [PartitionKey.arity, hattnums, htypes, List.length_map, List.length_map]
    obtain ⟨hlower, hupper, hrises⟩ := Layout.over_of_rangeFault? harity h
    exact ⟨(Option.some.inj hown).symm, hlower, hupper, hrises⟩
  | list values =>
    rw [Layout.boundFault?] at h
    split at h
    · rename_i t rest hhead
      rw [Layout.listFault?] at h
      split at h
      · cases h
      rename_i hvalues
      rw [Option.map_eq_none_iff, List.find?_eq_none] at h
      refine ⟨(Option.some.inj hown).symm, by simpa using hvalues, t, rest, hhead, fun v hv => ?_⟩
      simpa using h v hv
    · rename_i hnil
      rw [hnil] at htypes
      exact absurd (List.map_eq_nil_iff.1 htypes.symm) hne
  | hash modulus remainder =>
    rw [Layout.boundFault?, Layout.hashFault?] at h
    split at h
    · cases h
    split at h
    · cases h
    · rename_i hle
      exact ⟨(Option.some.inj hown).symm, UInt32.not_le.1 hle⟩
  | default => trivial

/-- An exact bound stands over the types of exact values. -/
theorem IsOf.exactly {b : Bound} (h : b.IsOf strategy types) (hb : b.isExact = true) :
    b.IsOf strategy (types.map DataType.exactly) := by
  cases b with
  | range lower upper =>
    obtain ⟨hstrategy, hlower, hupper, hrises⟩ := h
    rw [isExact, Bool.and_eq_true, List.all_eq_true, List.all_eq_true] at hb
    have hends : ∀ {ends : List RangeDatum} {types : List DataType},
        (∀ e ∈ ends, e.isExact = true) →
        List.Forall₂ (fun e t => e.isEndOf t = true) ends types →
        List.Forall₂ (fun e t => e.isEndOf t = true) ends (types.map DataType.exactly) := by
      intro ends types hexact hends
      induction hends with
      | nil => exact .nil
      | @cons e t ends types hend _ ih =>
        rw [List.forall_mem_cons] at hexact
        refine .cons ?_ (ih hexact.2)
        cases e with
        | value v =>
          obtain ⟨hnull, hfits⟩ := Bool.and_eq_true_iff.1 hend
          exact Bool.and_eq_true_iff.2 ⟨hnull, Datum.fits_exactly hfits hexact.1⟩
        | _ => rfl
    exact ⟨hstrategy, hends hb.1 hlower, hends hb.2 hupper, hrises⟩
  | list values =>
    obtain ⟨hstrategy, hne, t, rest, rfl, hfits⟩ := h
    refine ⟨hstrategy, hne, t.exactly, rest.map DataType.exactly, rfl, fun v hv => ?_⟩
    exact Datum.fits_exactly (hfits v hv) (List.all_eq_true.1 hb v hv)
  | hash modulus remainder => exact h
  | default => trivial

/-! ## The least value of a list -/

theorem of_least?_eq_some {values : List Datum} {v : Datum} (h : least? values = some v) :
    v ∈ values ∧ v.isNull = false := by
  have hfold : ∀ (rest : List Datum) (x : Datum),
      rest.foldl (fun x y => if y.compare? x == some .lt then y else x) x ∈ x :: rest := by
    intro rest
    induction rest with
    | nil => exact fun x => List.mem_singleton_self x
    | cons y rest ih =>
      intro x
      rw [List.foldl_cons]
      split
      · exact List.mem_cons_of_mem _ (ih y)
      · rcases List.mem_cons.1 (ih x) with hx | hrest
        · rw [hx]
          exact List.mem_cons_self
        · exact List.mem_cons_of_mem _ (List.mem_cons_of_mem _ hrest)
  have hmem : v ∈ values.filter fun v => !v.isNull := by
    unfold least? at h
    split at h
    · cases h
    · rename_i x rest hfilter
      rw [hfilter, ← Option.some.inj h]
      exact hfold rest x
  simpa using List.mem_filter.1 hmem

theorem isNull_of_least?_eq_none {values : List Datum} (h : least? values = none) :
    ∀ v ∈ values, v.isNull = true := by
  unfold least? at h
  split at h
  · rename_i hnil
    simpa [List.filter_eq_nil_iff] using hnil
  · cases h

/-! ## An order of the bounds of a level -/

variable (htypes : ∀ t ∈ types, t ≠ .float8)

include htypes

theorem exists_order_range {lower upper lower' upper' : List RangeDatum}
    (h : (range lower upper).IsOf strategy types) (h' : (range lower' upper').IsOf strategy types) :
    RangeDatum.compareEnds? lower lower' = some ((range lower upper).order (range lower' upper')) ∧
      (∀ e ∈ lower, e.isExact = true) := by
  obtain ⟨o, ho⟩ := RangeDatum.exists_compareEnds? htypes h.2.lower h'.2.lower
  refine ⟨?_, Layout.NamedRange.isExact_of_forall₂ htypes h.2.lower⟩
  rw [order, ho]
  rfl

/-- The least values of two lists of a level compare. -/
theorem exists_compare?_least {values values' : List Datum} {x y : Datum}
    (h : (list values).IsOf strategy types) (h' : (list values').IsOf strategy types)
    (hx : least? values = some x) (hy : least? values' = some y) :
    (∃ o, x.compare? y = some o) ∧ x.isExact = true := by
  obtain ⟨-, -, t, rest, rfl, hfits⟩ := h
  obtain ⟨-, -, t', rest', heq, hfits'⟩ := h'
  obtain ⟨rfl, rfl⟩ := List.cons.inj heq
  have ht : t ≠ .float8 := htypes t List.mem_cons_self
  obtain ⟨hxmem, hxnull⟩ := of_least?_eq_some hx
  obtain ⟨hymem, hynull⟩ := of_least?_eq_some hy
  exact ⟨Datum.exists_compare? (hfits x hxmem) (hfits' y hymem) hxnull hynull ht,
    Datum.isExact_of_fits (hfits x hxmem) ht⟩

/-- The least values of three lists of a level are ordered transitively; a list
without one comes last. -/
theorem order_list_then {values values' values'' : List Datum}
    (ha : (list values).IsOf strategy types) (hb : (list values').IsOf strategy types)
    (hc : (list values'').IsOf strategy types) (hab : (list values).order (list values') ≠ .gt)
    (hbc : (list values').order (list values'') ≠ .gt) : (list values).order (list values'') =
      ((list values).order (list values')).then ((list values').order (list values'')) := by
  rw [order] at hab hbc ⊢
  rw [order, order]
  rcases hz : least? values'' with _ | z
  · rcases hy : least? values' with _ | y
    · rcases least? values with _ | x <;> rfl
    · rcases hx : least? values with _ | x
      · simp [hx, hy] at hab
      · obtain ⟨⟨o, ho⟩, -⟩ := exists_compare?_least htypes ha hb hx hy
        rw [hx, hy] at hab
        dsimp only at hab ⊢
        rw [ho] at hab ⊢
        cases o with
        | gt => exact absurd rfl hab
        | _ => rfl
  rcases hy : least? values' with _ | y
  · simp [hy, hz] at hbc
  rcases hx : least? values with _ | x
  · simp [hx, hy] at hab
  rw [hx, hy] at hab
  rw [hy, hz] at hbc
  dsimp only at hab hbc ⊢
  obtain ⟨⟨o, ho⟩, hexact⟩ := exists_compare?_least htypes ha hb hx hy
  obtain ⟨⟨o', ho'⟩, hexact'⟩ := exists_compare?_least htypes hb hc hy hz
  obtain ⟨-, hexact''⟩ := exists_compare?_least htypes hc ha hz hx
  rw [ho] at hab ⊢
  rw [ho'] at hbc ⊢
  rw [Datum.compare?_then hexact hexact' hexact'' ho hab ho' hbc]
  rfl

omit htypes in
/-- Two remainders are ordered as pairs are. -/
theorem order_hash (m r m' r' : UInt32) :
    (hash m r).order (hash m' r') =
      compareLex (compareOn Prod.fst) (compareOn Prod.snd) (m, r) (m', r') := rfl

omit htypes in
theorem order_default {a : Bound} (ha : a ≠ default) : a.order default = .lt := by
  cases a with
  | default => exact absurd rfl ha
  | _ => rfl

omit htypes in
theorem default_order {a : Bound} (ha : a ≠ default) : default.order a = .gt := by
  cases a with
  | default => exact absurd rfl ha
  | _ => rfl

omit htypes in
/-- What a bound of a level is, but for the default one. -/
theorem IsOf.kind {a : Bound} (h : a.IsOf strategy types) (ha : a ≠ default) :
    match strategy with
    | .range => ∃ lower upper, a = range lower upper
    | .list => ∃ values, a = list values
    | .hash => ∃ modulus remainder, a = hash modulus remainder := by
  cases a with
  | range lower upper =>
    obtain rfl := h.1
    exact ⟨lower, upper, rfl⟩
  | list values =>
    obtain rfl := h.1
    exact ⟨values, rfl⟩
  | hash modulus remainder =>
    obtain rfl := h.1
    exact ⟨modulus, remainder, rfl⟩
  | default => exact absurd rfl ha

variable {a b c : Bound} (ha : a.IsOf strategy types) (hb : b.IsOf strategy types)
variable (hc : c.IsOf strategy types)

include ha hb

/-- **The other way round, two bounds of a level compare the other way.** -/
theorem order_swap : b.order a = (a.order b).swap := by
  by_cases had : a = default
  · subst had
    by_cases hbd : b = default
    · subst hbd
      rfl
    · rw [order_default hbd, default_order hbd]
      rfl
  by_cases hbd : b = default
  · subst hbd
    rw [order_default had, default_order had]
    rfl
  have hka := ha.kind had
  have hkb := hb.kind hbd
  cases strategy with
  | range =>
    obtain ⟨lower, upper, rfl⟩ := hka
    obtain ⟨lower', upper', rfl⟩ := hkb
    obtain ⟨h, hexact⟩ := exists_order_range htypes ha hb
    obtain ⟨h', hexact'⟩ := exists_order_range htypes hb ha
    have hswap := RangeDatum.compareEnds?_swap hexact hexact' h
    exact Option.some.inj (h'.symm.trans hswap)
  | list =>
    obtain ⟨values, rfl⟩ := hka
    obtain ⟨values', rfl⟩ := hkb
    rw [order, order]
    rcases hx : least? values with _ | x
    · rcases hy : least? values' with _ | y <;> rfl
    rcases hy : least? values' with _ | y
    · rfl
    obtain ⟨⟨o, ho⟩, hexact⟩ := exists_compare?_least htypes ha hb hx hy
    obtain ⟨-, hexact'⟩ := exists_compare?_least htypes hb ha hy hx
    dsimp only
    rw [ho, Datum.compare?_swap hexact hexact' ho]
    rfl
  | hash =>
    obtain ⟨m, r, rfl⟩ := hka
    obtain ⟨m', r', rfl⟩ := hkb
    rw [order_hash, order_hash]
    exact Std.OrientedCmp.eq_swap

include hc

/-- **The order of the bounds of a level is transitive**, and strict where one
step is. -/
theorem order_then (hab : a.order b ≠ .gt) (hbc : b.order c ≠ .gt) :
    a.order c = (a.order b).then (b.order c) := by
  -- the default bound is above all others: if it is one of the three, it is the last
  by_cases hcd : c = default
  · subst hcd
    by_cases hbd : b = default
    · subst hbd
      cases h : a.order default <;> rfl
    have had : a ≠ default := by
      rintro rfl
      exact hab (default_order hbd)
    rw [order_default had, order_default hbd]
    cases h : a.order b with
    | gt => exact absurd h hab
    | _ => rfl
  have hbd : b ≠ default := by
    rintro rfl
    exact hbc (default_order hcd)
  have had : a ≠ default := by
    rintro rfl
    exact hab (default_order hbd)
  have hka := ha.kind had
  have hkb := hb.kind hbd
  have hkc := hc.kind hcd
  cases strategy with
  | range =>
    obtain ⟨lower, upper, rfl⟩ := hka
    obtain ⟨lower', upper', rfl⟩ := hkb
    obtain ⟨lower'', upper'', rfl⟩ := hkc
    obtain ⟨h, hexact⟩ := exists_order_range htypes ha hb
    obtain ⟨h', hexact'⟩ := exists_order_range htypes hb hc
    obtain ⟨h'', -⟩ := exists_order_range htypes ha hc
    obtain ⟨-, hexact''⟩ := exists_order_range htypes hc ha
    have hthen := RangeDatum.compareEnds?_then hexact hexact' hexact'' h hab h' hbc
    exact Option.some.inj (h''.symm.trans hthen)
  | list =>
    obtain ⟨values, rfl⟩ := hka
    obtain ⟨values', rfl⟩ := hkb
    obtain ⟨values'', rfl⟩ := hkc
    exact order_list_then htypes ha hb hc hab hbc
  | hash =>
    obtain ⟨m, r, rfl⟩ := hka
    obtain ⟨m', r', rfl⟩ := hkb
    obtain ⟨m'', r'', rfl⟩ := hkc
    rw [order_hash] at hab hbc ⊢
    rw [order_hash, order_hash]
    exact Datum.compare_then hab hbc

end Bound

end WhatIf
