import WhatIf.Proofs.Constraint.Domains
/-!
# Constraint — more is refuted by more

While what each column is compared with is of one kind, and is no double, a
refutation is kept by every further restriction and by every further constraint
(`refutedBy_mono`), and neither their order nor their repetition has a say in it
(`refutedBy_congr`). For columns this is what places are for: what is left by more
tests is left by fewer. A hash constraint looks at the first equality on each of
its columns alone, and another may come to be the first. If the two differ, then
no place of the column is at both, and the column is refuted itself.
-/

namespace WhatIf

namespace Constraint

variable {restrictions restrictions' : List Restriction} {constraints constraints' : List Constraint}
variable {type : DataType} {a : AttNum} {v w : Datum} {p : Place}

/-! ## Kinds -/

/-- Whether what a constraint compares a column with is of the kind of the
column, `NULL` apart. -/
def isOf (kinds : AttNum → DataType) : Constraint → Bool
  | column r => r.test.isOf (kinds r.attnum)
  | either a _ alternatives => alternatives.all fun t => t.isOf (kinds a)
  | hash .. => true

/-- **That each column is compared with values of one kind**: booleans, integers
or texts, and besides at most `NULL`. -/
def OneKind (restrictions : List Restriction) (constraints : List Constraint) : Prop :=
  ∃ kinds : AttNum → DataType, (∀ a, kinds a ≠ .float8) ∧
    (∀ r ∈ restrictions, r.test.isOf (kinds r.attnum) = true) ∧
    ∀ c ∈ constraints, c.isOf kinds = true

theorem OneKind.subset (h : OneKind restrictions' constraints')
    (hrestrictions : restrictions ⊆ restrictions') (hconstraints : constraints ⊆ constraints') :
    OneKind restrictions constraints := by
  obtain ⟨kinds, hexact, hr, hc⟩ := h
  exact ⟨kinds, hexact, fun r h => hr r (hrestrictions h), fun c h => hc c (hconstraints h)⟩

theorem testOn?_eq_some_iff {c : Constraint} {t : ColumnTest} :
    c.testOn? a = some t ↔ ∃ name, c = column ⟨a, name, t⟩ := by
  cases c with
  | column r =>
    obtain ⟨b, name, u⟩ := r
    simp [testOn?]
  | _ => simp [testOn?]

theorem choiceOn?_eq_some_iff {c : Constraint} {ts : List ColumnTest} :
    c.choiceOn? a = some ts ↔ ∃ name, c = either a name ts := by
  cases c with
  | either b name us => simp [choiceOn?]
  | _ => simp [choiceOn?]

theorem mem_testsOn_iff {t : ColumnTest} :
    t ∈ testsOn a restrictions ↔ ∃ r ∈ restrictions, r.attnum = a ∧ r.test = t := by
  simp [testsOn, and_assoc]

theorem columnOf_of_isOf (kinds : AttNum → DataType)
    (hrestrictions : ∀ r ∈ restrictions, r.test.isOf (kinds r.attnum) = true)
    (hconstraints : ∀ c ∈ constraints, c.isOf kinds = true) (a : AttNum) :
    ColumnOf restrictions constraints a (kinds a) where
  restrictions t ht := by
    obtain ⟨r, hr, rfl, rfl⟩ := mem_testsOn_iff.1 ht
    exact hrestrictions r hr
  columns t ht := by
    obtain ⟨c, hc, htest⟩ := List.mem_filterMap.1 ht
    obtain ⟨name, rfl⟩ := testOn?_eq_some_iff.1 htest
    exact hconstraints _ hc
  choices ts hts t ht := by
    obtain ⟨c, hc, hchoice⟩ := List.mem_filterMap.1 hts
    obtain ⟨name, rfl⟩ := choiceOn?_eq_some_iff.1 hchoice
    exact List.all_eq_true.1 (hconstraints _ hc) t ht

/-! ## Columns -/

/-- What more tests leave fewer tests leave. -/
theorem ColumnLeaves.subset (h : ColumnLeaves restrictions' constraints' a p)
    (hrestrictions : restrictions ⊆ restrictions') (hconstraints : constraints ⊆ constraints') :
    ColumnLeaves restrictions constraints a p where
  restrictions t ht := by
    obtain ⟨r, hr, hattnum⟩ := mem_testsOn_iff.1 ht
    exact h.restrictions t (mem_testsOn_iff.2 ⟨r, hrestrictions hr, hattnum⟩)
  columns t ht := h.columns t ((List.filterMap_subset _ hconstraints) ht)
  choices ts hts := h.choices ts ((List.filterMap_subset _ hconstraints) hts)

/-- Unless restrictions and constraints are refuted, each column they speak of
leaves a place. -/
theorem exists_columnLeaves (htype : type ≠ .float8)
    (hof : ColumnOf restrictions constraints a type) (h : refutedBy restrictions constraints = false)
    (ha : a ∈ restrictions.map (fun r => r.attnum) ++ constraints.filterMap attnum?) :
    ∃ p, p.IsOf type ∧ ColumnLeaves restrictions constraints a p := by
  rw [refutedBy, Bool.or_eq_false_iff, List.any_eq_false] at h
  exact (columnRefuted_eq_false_iff htype hof).1 (Bool.eq_false_iff.2 (h.1 a ha))

/-! ## Hashes -/

/-- A value that a column is compared with for equality is the one place the
column is left. -/
theorem eq_value_of_equalityValue? (htype : type ≠ .float8) (hp : p.IsOf type)
    (hof : ColumnOf restrictions constraints a type) (h : ColumnLeaves restrictions constraints a p)
    {r : Restriction} (hr : r ∈ restrictions) (ha : r.attnum = a)
    (hvalue : r.equalityValue? = some v) : p = .value v := by
  rw [Restriction.equalityValue?] at hvalue
  split at hvalue
  · rename_i value htest
    split at hvalue
    · cases hvalue
    rename_i hnull
    obtain rfl := Option.some.inj hvalue
    have ht : ColumnTest.compare .eq value ∈ testsOn a restrictions :=
      mem_testsOn_iff.2 ⟨r, hr, ha, htest⟩
    have hisOf : value.isOf type = true := hof.restrictions _ ht
    exact (Place.isAt_iff htype hp ⟨Bool.eq_false_iff.2 hnull, hisOf⟩).1 (h.restrictions _ ht)
  · cases hvalue

/-- A column that is pinned stays pinned to its value, whatever else it is
compared with, while there is a place left. -/
theorem pinned?_mono (htype : type ≠ .float8)
    (hof : ColumnOf restrictions' constraints' a type)
    (hleft : refutedBy restrictions' constraints' = false)
    (hrestrictions : restrictions ⊆ restrictions') {stored : DataType}
    (h : pinned? restrictions a stored = some v) : pinned? restrictions' a stored = some v := by
  rw [pinned?, Option.bind_eq_some_iff] at h ⊢
  obtain ⟨w, hw, hcoerce⟩ := h
  obtain ⟨r, hr, hvalue⟩ := List.exists_of_findSome?_eq_some hw
  obtain ⟨hmem, ha⟩ := List.mem_filter.1 hr
  have hmem' := hrestrictions hmem
  -- some equality comes first among the more restrictions
  have hsome : ((restrictions'.filter fun r => r.attnum == a).findSome?
      Restriction.equalityValue?).isSome = true :=
    List.findSome?_isSome_iff.2 ⟨r, List.mem_filter.2 ⟨hmem', ha⟩, by rw [hvalue]; rfl⟩
  obtain ⟨w', hw'⟩ := Option.isSome_iff_exists.1 hsome
  obtain ⟨r', hr', hvalue'⟩ := List.exists_of_findSome?_eq_some hw'
  obtain ⟨hmem'', ha'⟩ := List.mem_filter.1 hr'
  -- and both are at the place that is left
  have hcolumn : a ∈ restrictions'.map (fun r => r.attnum) ++ constraints'.filterMap attnum? :=
    List.mem_append_left _ (List.mem_map.2 ⟨r, hmem', beq_iff_eq.1 ha⟩)
  obtain ⟨p, hp, hleaves⟩ := exists_columnLeaves htype hof hleft hcolumn
  have hat := eq_value_of_equalityValue? htype hp hof hleaves hmem' (beq_iff_eq.1 ha) hvalue
  have hat' := eq_value_of_equalityValue? htype hp hof hleaves hmem'' (beq_iff_eq.1 ha') hvalue'
  exact ⟨w, by rw [hw', Place.value.inj (hat'.symm.trans hat)], hcoerce⟩

/-- Values all found one way are found another way that finds each of them. -/
theorem mapM_eq_some_of_forall {α β : Type} {f g : α → Option β} {xs : List α} {ys : List β}
    (hfg : ∀ x ∈ xs, ∀ y, f x = some y → g x = some y) (h : xs.mapM f = some ys) :
    xs.mapM g = some ys := by
  induction xs generalizing ys with
  | nil => exact h
  | cons x xs ih =>
    obtain ⟨hx, hrest⟩ := List.forall_mem_cons.1 hfg
    rw [List.mapM_cons] at h ⊢
    obtain ⟨y, hy, h⟩ := Option.bind_eq_some_iff.1 h
    obtain ⟨zs, hzs, h⟩ := Option.bind_eq_some_iff.1 h
    rw [hx y hy, Option.bind_eq_bind, Option.bind_some, ih hrest hzs]
    exact h

section

variable (hkind : OneKind restrictions' constraints')
variable (hrestrictions : restrictions ⊆ restrictions')

include hkind hrestrictions

/-- A hash constraint that is refuted stays refuted, unless a column leaves no
place. -/
theorem hashRefuted_mono {c : Constraint} (hleft : refutedBy restrictions' constraints' = false)
    (h : hashRefuted restrictions c = true) : hashRefuted restrictions' c = true := by
  obtain ⟨kinds, hexact, hr, hc⟩ := hkind
  cases c with
  | hash attnums types modulus remainder =>
    rw [hashRefuted] at h ⊢
    split at h
    · cases h
    rename_i hproper
    rw [if_neg hproper]
    split at h
    · rename_i row hrow
      rw [mapM_eq_some_of_forall ?_ hrow]
      · exact h
      · intro x _ _ hx
        exact pinned?_mono (hexact x.1) (columnOf_of_isOf kinds hr hc x.1) hleft hrestrictions hx
    · cases h
  | _ => cases h

/-- **Refutation is monotone.** -/
theorem refutedBy_mono (hconstraints : constraints ⊆ constraints')
    (h : refutedBy restrictions constraints = true) :
    refutedBy restrictions' constraints' = true := by
  by_contra hne
  have hleft := Bool.eq_false_iff.2 hne
  obtain ⟨kinds, hexact, hr, hc⟩ := id hkind
  rcases Bool.or_eq_true_iff.1 h with hcolumn | hhash
  · -- the place that a column leaves is left by the fewer tests
    obtain ⟨a, ha, hrefuted⟩ := List.any_eq_true.1 hcolumn
    have hcolumn' : a ∈ restrictions'.map (fun r => r.attnum) ++
        constraints'.filterMap attnum? := by
      rcases List.mem_append.1 ha with ha | ha
      · exact List.mem_append_left _ (List.map_subset _ hrestrictions ha)
      · exact List.mem_append_right _ (List.filterMap_subset _ hconstraints ha)
    obtain ⟨p, hp, hleaves⟩ :=
      exists_columnLeaves (hexact a) (columnOf_of_isOf kinds hr hc a) hleft hcolumn'
    have hof := columnOf_of_isOf kinds (fun r h => hr r (hrestrictions h))
      (fun c h => hc c (hconstraints h)) a
    rw [(columnRefuted_eq_false_iff (hexact a) hof).2
      ⟨p, hp, hleaves.subset hrestrictions hconstraints⟩] at hrefuted
    cases hrefuted
  · obtain ⟨c, hc, hrefuted⟩ := List.any_eq_true.1 hhash
    refine hne (Bool.or_eq_true_iff.2 (Or.inr (List.any_eq_true.2 ⟨c, hconstraints hc, ?_⟩)))
    exact hashRefuted_mono hkind hrestrictions hleft hrefuted

end

/-- Neither order nor repetition has a say in what is refuted. -/
theorem refutedBy_congr (hkind : OneKind restrictions' constraints')
    (hrestrictions : ∀ r, r ∈ restrictions ↔ r ∈ restrictions')
    (hconstraints : ∀ c, c ∈ constraints ↔ c ∈ constraints') :
    refutedBy restrictions constraints = refutedBy restrictions' constraints' := by
  have hsubset : restrictions ⊆ restrictions' := fun r => (hrestrictions r).1
  have hsubset' : constraints ⊆ constraints' := fun c => (hconstraints c).1
  rw [Bool.eq_iff_iff]
  constructor
  · exact refutedBy_mono hkind hsubset hsubset'
  · exact refutedBy_mono (hkind.subset hsubset hsubset') (fun r => (hrestrictions r).2)
      fun c => (hconstraints c).2

end Constraint

end WhatIf
