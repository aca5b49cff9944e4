import WhatIf.Constraint.Refutation
import WhatIf.Proofs.Datum
import Mathlib.Tactic.ByContra
/-!
# Constraint — what is refuted holds of no row

A value is admitted by a domain if it passes every test the domain collects
(`Domain.Admits`). Applying a test the value passes keeps it admitted, and a
domain that admits a value is not provably empty. So restrictions that hold of
a row are not refuted by constraints that hold of it too. Doubles are left out:
two integers that differ may equal one double, and the domain takes what equals
the same value for the same.
-/

namespace WhatIf

/-- Whether a test mentions no double. -/
def ColumnTest.isExact : ColumnTest → Bool
  | compare _ value => value.isExact
  | isIn values => values.all Datum.isExact
  | isNull | isNotNull => true

/-- **A test that a value passes** and that mentions no double. -/
structure ColumnTest.Passed (t : ColumnTest) (v : Datum) : Prop where
  exact : t.isExact = true
  holds : t.evaluate v = some true

namespace Domain

variable {d : Domain} {v w : Datum} {t : ColumnTest} {inward : Ordering} {inclusive : Bool}
variable {before : Option Endpoint}

/-- **A value that passes every test of a domain.** -/
structure Admits (d : Domain) (v : Datum) : Prop where
  not_empty : d.empty = false
  null : d.nullness = .null → v.isNull = true
  notNull : d.nullness = .notNull → v.isNull = false
  mentions : d.mentionsValue = true → v.isNull = false
  lower : within? .gt v d.lower = some true
  upper : within? .lt v d.upper = some true
  lower_exact : ∀ e, d.lower = some e → e.value.isExact = true
  upper_exact : ∀ e, d.upper = some e → e.value.isExact = true
  values : ∀ vs, d.values = some vs → v ∈ vs
  excluded : avoids? v d.excluded = some true

theorem admits_full (v : Datum) : full.Admits v where
  not_empty := rfl
  null h := nomatch h
  notNull h := nomatch h
  mentions h := nomatch h
  lower := rfl
  upper := rfl
  lower_exact _ h := nomatch h
  upper_exact _ h := nomatch h
  values _ h := nomatch h
  excluded := rfl

/-! ## What stays admitted -/

theorem Admits.requireNull (h : d.Admits v) (hv : v.isNull = true) : d.requireNull.Admits v := by
  unfold Domain.requireNull
  split
  · rename_i hnot
    rw [h.notNull hnot] at hv
    cases hv
  · exact ⟨h.not_empty, fun _ => hv, fun hnot => (nomatch hnot), h.mentions, h.lower, h.upper,
      h.lower_exact, h.upper_exact, h.values, h.excluded⟩

theorem Admits.requireNotNull (h : d.Admits v) (hv : v.isNull = false) :
    d.requireNotNull.Admits v := by
  unfold Domain.requireNotNull
  split
  · rename_i hnull
    rw [h.null hnull] at hv
    cases hv
  · exact ⟨h.not_empty, fun hnull => (nomatch hnull), fun _ => hv, h.mentions, h.lower, h.upper,
      h.lower_exact, h.upper_exact, h.values, h.excluded⟩

/-- Whichever of two ends is the tighter, a value inside both is inside it. -/
theorem within?_tighten (hbefore : within? inward v before = some true)
    (hnew : within? inward v (some ⟨w, inclusive⟩) = some true) :
    within? inward v (tighten inward before w inclusive).1 = some true := by
  unfold tighten
  split
  · exact hnew
  · split
    · exact hnew
    · exact hbefore
    · exact hbefore

theorem exact_tighten (hbefore : ∀ e, before = some e → e.value.isExact = true)
    (hw : w.isExact = true) {e : Endpoint} (he : (tighten inward before w inclusive).1 = some e) :
    e.value.isExact = true := by
  unfold tighten at he
  split at he
  · exact Option.some.inj he ▸ hw
  · split at he
    · exact Option.some.inj he ▸ hw
    · exact hbefore e he
    · exact hbefore e he

theorem Admits.tightenLower (h : d.Admits v) (hv : v.isNull = false) (hw : w.isExact = true)
    (hnew : within? .gt v (some ⟨w, inclusive⟩) = some true) :
    (d.tightenLower w inclusive).Admits v :=
  ⟨h.not_empty, h.null, h.notNull, fun _ => hv, within?_tighten h.lower hnew, h.upper,
    fun _ he => exact_tighten h.lower_exact hw he, h.upper_exact, h.values, h.excluded⟩

theorem Admits.tightenUpper (h : d.Admits v) (hv : v.isNull = false) (hw : w.isExact = true)
    (hnew : within? .lt v (some ⟨w, inclusive⟩) = some true) :
    (d.tightenUpper w inclusive).Admits v :=
  ⟨h.not_empty, h.null, h.notNull, fun _ => hv, h.lower, within?_tighten h.upper hnew,
    h.lower_exact, fun _ he => exact_tighten h.upper_exact hw he, h.values, h.excluded⟩

theorem Admits.restrictTo (h : d.Admits v) (hv : v.isNull = false) {vs : List Datum}
    (hmem : v ∈ vs) (hself : v.equals v = true) : (d.restrictTo vs).Admits v := by
  unfold Domain.restrictTo
  split
  · exact ⟨h.not_empty, h.null, h.notNull, fun _ => hv, h.lower, h.upper, h.lower_exact,
      h.upper_exact, fun _ hvs => Option.some.inj hvs ▸ hmem, h.excluded⟩
  · rename_i current hcurrent
    refine ⟨h.not_empty, h.null, h.notNull, fun _ => hv, h.lower, h.upper, h.lower_exact,
      h.upper_exact, fun _ hvs => ?_, h.excluded⟩
    rw [← Option.some.inj hvs, List.mem_filter]
    exact ⟨h.values current hcurrent, List.any_eq_true.2 ⟨v, hmem, hself⟩⟩

theorem avoids?_append {xs : List Datum} {o : Ordering} (h : avoids? v xs = some true)
    (hw : v.compare? w = some o) (ho : o ≠ .eq) : avoids? v (xs ++ [w]) = some true := by
  induction xs with
  | nil =>
    rw [List.nil_append, avoids?, hw]
    cases o with
    | eq => exact absurd rfl ho
    | _ => rfl
  | cons x xs ih =>
    rw [List.cons_append]
    rw [avoids?] at h ⊢
    split at h
    · cases h
    · cases h
    · rename_i hx
      exact ih h

theorem Admits.exclude (h : d.Admits v) (hv : v.isNull = false) {o : Ordering}
    (hw : v.compare? w = some o) (ho : o ≠ .eq) :
    Admits { d with excluded := d.excluded ++ [w] } v :=
  ⟨h.not_empty, h.null, h.notNull, fun _ => hv, h.lower, h.upper, h.lower_exact, h.upper_exact,
    h.values, avoids?_append h.excluded hw ho⟩

/-- Comparing with a constant. -/
theorem Admits.compareWith (h : d.Admits v) (hexact : v.isExact = true) (hw : w.isExact = true)
    {op : CompareOp} {o : Ordering} (hcompare : v.compare? w = some o) (ho : op.holds o = true) :
    (d.compareWith op w).Admits v := by
  have hv : v.isNull = false := (Datum.isNull_of_compare? hcompare).1
  have hwithin : ∀ inward inclusive, (o == inward || (o == .eq && inclusive)) = true →
      within? inward v (some ⟨w, inclusive⟩) = some true := by
    intro inward inclusive hin
    rw [within?, hcompare]
    exact congrArg some hin
  cases op with
  | eq =>
    obtain rfl : o = .eq := beq_iff_eq.1 ho
    obtain rfl := Datum.eq_of_compare?_eq hexact hw hcompare
    exact h.restrictTo hv (List.mem_singleton_self _) (beq_iff_eq.2 hcompare)
  | ne => exact h.exclude hv hcompare (bne_iff_ne.1 ho)
  | lt => exact h.tightenUpper hv hw (hwithin _ _ (by cases o <;> first | rfl | cases ho))
  | le => exact h.tightenUpper hv hw (hwithin _ _ (by cases o <;> first | rfl | cases ho))
  | gt => exact h.tightenLower hv hw (hwithin _ _ (by cases o <;> first | rfl | cases ho))
  | ge => exact h.tightenLower hv hw (hwithin _ _ (by cases o <;> first | rfl | cases ho))

/-- **A test that a value passes keeps it admitted.** -/
theorem Admits.apply (h : d.Admits v) (hexact : v.isExact = true) (ht : t.Passed v) :
    (d.apply t).Admits v := by
  obtain ⟨hconst, hholds⟩ := ht
  cases t with
  | isNull => exact h.requireNull (Option.some.inj hholds)
  | isNotNull => exact h.requireNotNull (by simpa using Option.some.inj hholds)
  | compare op w =>
    rw [ColumnTest.evaluate, Option.map_eq_some_iff] at hholds
    obtain ⟨o, hcompare, ho⟩ := hholds
    obtain ⟨hv, hw⟩ := Datum.isNull_of_compare? hcompare
    rw [apply, hw]
    exact (h.requireNotNull hv).compareWith hexact hconst hcompare ho
  | isIn vs =>
    rw [ColumnTest.evaluate] at hholds
    split at hholds
    · cases hholds
    rename_i hnull
    have hv : v.isNull = false := by simpa using hnull
    split at hholds
    · rename_i hany
      obtain ⟨w, hw, hequals⟩ := List.any_eq_true.1 hany
      obtain rfl := Datum.eq_of_equals hexact (List.all_eq_true.1 hconst w hw) hequals
      exact (h.requireNotNull hv).restrictTo hv (List.mem_filter.2 ⟨hw, by rw [hv]; rfl⟩) hequals
    · split at hholds
      · cases hholds
      · cases hholds

/-! ## What is not empty -/

/-- Two ends with a value between them are not crossed. -/
theorem crossed_eq_false (hexact : v.isExact = true) {low high : Endpoint}
    (hlow : low.value.isExact = true) (hhigh : high.value.isExact = true)
    (hlower : within? .gt v (some low) = some true)
    (hupper : within? .lt v (some high) = some true) : crossed low high = false := by
  rw [within?, Option.map_eq_some_iff] at hlower hupper
  obtain ⟨o, ho, hin⟩ := hlower
  obtain ⟨o', ho', hin'⟩ := hupper
  unfold crossed
  rcases hcompare : low.value.compare? high.value with _ | _ | _ | _
  · rfl
  · rfl
  · -- the ends are one value, which is also the value between them
    have hends := Datum.eq_of_compare?_eq hlow hhigh hcompare
    rw [hends, ho'] at ho
    obtain rfl := Option.some.inj ho
    cases o' <;> simp_all
  · have hgt := Datum.compare?_gt_of_ge_of_gt hexact hlow hhigh ho
      (by rintro rfl; simp at hin) hcompare
    rw [hgt] at ho'
    obtain rfl := Option.some.inj ho'
    simp at hin'

/-- **A domain that admits a value is not provably empty.** -/
theorem Admits.isProvablyEmpty (h : d.Admits v) (hexact : v.isExact = true) :
    d.isProvablyEmpty = false := by
  unfold Domain.isProvablyEmpty
  rw [h.not_empty]
  split
  · rename_i hempty
    cases hempty
  split
  · rfl
  split
  · rename_i hnull
    by_contra hmentions
    have hnot := h.mentions (by simpa using hmentions)
    rw [h.null hnull] at hnot
    cases hnot
  split
  · rename_i vs hvs
    have hallows : d.allows? v = some true := by
      rw [allows?, h.lower]
      dsimp only
      rw [h.upper]
      exact h.excluded
    rw [List.all_eq_false]
    refine ⟨v, h.values vs hvs, ?_⟩
    rw [hallows]
    decide
  · split
    · rename_i low high hlow hhigh
      exact crossed_eq_false hexact (h.lower_exact _ hlow) (h.upper_exact _ hhigh)
        (hlow ▸ h.lower) (hhigh ▸ h.upper)
    · rfl

end Domain

namespace Constraint

variable {row : AttNum → Datum} {restrictions : List Restriction} {constraints : List Constraint}
variable {a : AttNum} {v : Datum}

/-- **A constraint that holds of a row**: the row passes the test, or one of
the alternatives, or its key values leave the remainder. -/
def HoldsOf (row : AttNum → Datum) : Constraint → Prop
  | column r => r.test.evaluate (row r.attnum) = some true
  | either a _ alternatives => ∃ t ∈ alternatives, t.evaluate (row a) = some true
  | hash attnums _ modulus remainder => Datum.rowHash (attnums.map row) % modulus = remainder

/-- Whether a constraint mentions no double. -/
def isExact : Constraint → Bool
  | column r => r.test.isExact
  | either _ _ alternatives => alternatives.all ColumnTest.isExact
  | hash .. => true

/-- That the key values of a row are of the types that a hash constraint
lists. -/
def Typed (row : AttNum → Datum) : Constraint → Prop
  | hash attnums types _ _ => ∀ p ∈ attnums.zip types, (row p.1).isOf p.2 = true
  | _ => True

/-- **A constraint that a row is bound by**: it is typed as the row is, mentions
no double, and holds. -/
structure Binds (row : AttNum → Datum) (c : Constraint) : Prop where
  exact : c.isExact = true
  typed : c.Typed row
  holds : c.HoldsOf row

/-- With an alternative of each choice that a value passes, the choices do not
empty a domain that admits it. -/
theorem emptied_eq_false {d : Domain} (h : d.Admits v) (hexact : v.isExact = true)
    {choices : List (List ColumnTest)} (hchoices : ∀ ts ∈ choices, ∃ t ∈ ts, t.Passed v) :
    emptied d choices = false := by
  induction choices generalizing d with
  | nil => exact h.isProvablyEmpty hexact
  | cons ts choices ih =>
    obtain ⟨t, ht, hpassed⟩ := hchoices ts List.mem_cons_self
    have hrest := ih (h.apply hexact hpassed) fun us hus => hchoices us (List.mem_cons_of_mem _ hus)
    rw [emptied, List.all_eq_false]
    exact ⟨t, ht, by rw [hrest]; exact Bool.false_ne_true⟩

theorem foldl_apply_admits {d : Domain} (h : d.Admits v) (hexact : v.isExact = true)
    {tests : List ColumnTest} (htests : ∀ t ∈ tests, t.Passed v) :
    (tests.foldl Domain.apply d).Admits v := by
  induction tests generalizing d with
  | nil => exact h
  | cons t tests ih =>
    exact ih (h.apply hexact (htests t List.mem_cons_self)) fun u hu =>
      htests u (List.mem_cons_of_mem _ hu)

section Row

variable (hrow : ∀ a, (row a).isExact = true)
variable (hrestrictions : ∀ r ∈ restrictions, r.test.Passed (row r.attnum))
variable (hconstraints : ∀ c ∈ constraints, c.Binds row)

include hrow hrestrictions hconstraints

theorem columnRefuted_eq_false (a : AttNum) :
    columnRefuted restrictions constraints a = false := by
  refine emptied_eq_false (foldl_apply_admits (Domain.admits_full (row a)) (hrow a) ?_) (hrow a) ?_
  · -- the single tests on the column, of the query and of the bounds
    intro t ht
    rcases List.mem_append.1 ht with ht | ht
    · obtain ⟨r, hr, rfl⟩ := List.mem_map.1 ht
      obtain ⟨hmem, hattnum⟩ := List.mem_filter.1 hr
      exact beq_iff_eq.1 hattnum ▸ hrestrictions r hmem
    · obtain ⟨c, hc, htest⟩ := List.mem_filterMap.1 ht
      obtain ⟨hexact, -, hholds⟩ := hconstraints c hc
      cases c with
      | column r =>
        rw [testOn?] at htest
        split at htest
        · rename_i hattnum
          exact Option.some.inj htest ▸ hattnum ▸ ⟨hexact, hholds⟩
        · cases htest
      | _ => cases htest
  · -- the choices between several tests
    intro ts hts
    obtain ⟨c, hc, hchoice⟩ := List.mem_filterMap.1 hts
    obtain ⟨hexact, -, hholds⟩ := hconstraints c hc
    cases c with
    | either b name alternatives =>
      rw [choiceOn?] at hchoice
      split at hchoice
      · rename_i hattnum
        obtain ⟨t, ht, hholds⟩ := hholds
        exact ⟨t, Option.some.inj hchoice ▸ ht, List.all_eq_true.1 hexact t ht, hattnum ▸ hholds⟩
      · cases hchoice
    | _ => cases hchoice

omit hconstraints in
/-- A column pinned to a value has that value. -/
theorem pinned?_eq {type : DataType} (htype : (row a).isOf type = true)
    (h : pinned? restrictions a type = some v) : v = row a := by
  rw [pinned?, Option.bind_eq_some_iff] at h
  obtain ⟨w, hw, hcoerce⟩ := h
  obtain ⟨r, hr, hvalue⟩ := List.exists_of_findSome?_eq_some hw
  obtain ⟨hmem, hattnum⟩ := List.mem_filter.1 hr
  have hpassed := hrestrictions r hmem
  rw [beq_iff_eq.1 hattnum] at hpassed
  -- the test is an equality with the constant, which the row passes
  have hequal : row a = w := by
    rw [Restriction.equalityValue?] at hvalue
    split at hvalue
    · rename_i value htest
      split at hvalue
      · cases hvalue
      · obtain rfl := Option.some.inj hvalue
        obtain ⟨hexact, hholds⟩ := hpassed
        rw [htest, ColumnTest.evaluate, Option.map_eq_some_iff] at hholds
        obtain ⟨o, hcompare, ho⟩ := hholds
        obtain rfl : o = .eq := beq_iff_eq.1 ho
        rw [htest] at hexact
        exact Datum.eq_of_compare?_eq (hrow a) hexact hcompare
    · cases hvalue
  rw [← hequal, Datum.coerce?_of_isOf htype] at hcoerce
  exact (Option.some.inj hcoerce).symm

omit hconstraints in
/-- Columns all pinned to values have these values. -/
theorem mapM_pinned?_eq {keys : List (AttNum × DataType)} {values : List Datum}
    (htypes : ∀ p ∈ keys, (row p.1).isOf p.2 = true)
    (h : (keys.mapM fun (a, t) => pinned? restrictions a t) = some values) :
    values = keys.map fun p => row p.1 := by
  induction keys generalizing values with
  | nil =>
    rw [List.mapM_nil] at h
    exact (Option.some.inj h).symm
  | cons p keys ih =>
    rw [List.mapM_cons] at h
    obtain ⟨v, hv, hrest⟩ := Option.bind_eq_some_iff.1 h
    obtain ⟨vs, hvs, hcons⟩ := Option.bind_eq_some_iff.1 hrest
    rw [← Option.some.inj hcons, List.map_cons,
      pinned?_eq hrow hrestrictions (htypes p List.mem_cons_self) hv,
      ih (fun q hq => htypes q (List.mem_cons_of_mem _ hq)) hvs]

omit hconstraints in
theorem hashRefuted_eq_false {c : Constraint} (hc : c.Binds row) :
    hashRefuted restrictions c = false := by
  cases c with
  | hash attnums types modulus remainder =>
    obtain ⟨-, htypes, hhash⟩ := hc
    rw [hashRefuted]
    split
    · rfl
    rename_i hproper
    split
    · rename_i values hvalues
      have hlen : attnums.length = types.length := by
        by_contra hne
        exact hproper (Or.inr fun heq => hne heq.symm)
      have hmap : ((attnums.zip types).map fun p => row p.1) = attnums.map row := by
        have hfst : (attnums.zip types).map Prod.fst = attnums :=
          List.map_fst_zip (Nat.le_of_eq hlen)
        conv_rhs => rw [← hfst, List.map_map]
        rfl
      rw [mapM_pinned?_eq hrow hrestrictions htypes hvalues, hmap, hhash.symm]
      exact bne_self_eq_false _
    · rfl
  | _ => rfl

/-- **Restrictions and constraints that hold of one row are not refuted.** -/
theorem refutedBy_eq_false : refutedBy restrictions constraints = false := by
  rw [refutedBy, Bool.or_eq_false_iff]
  constructor
  · rw [List.any_eq_false]
    intro a _
    rw [columnRefuted_eq_false hrow hrestrictions hconstraints a]
    exact Bool.false_ne_true
  · rw [List.any_eq_false]
    intro c hc
    rw [hashRefuted_eq_false hrow hrestrictions (hconstraints c hc)]
    exact Bool.false_ne_true

end Row

/-! ## Rows that are left -/

/-- **A row that is left** by restrictions and constraints: it has no doubles, it
passes every restriction, and every constraint holds of it, given key values of
the types that a hash constraint lists. -/
structure Leaves (restrictions : List Restriction) (constraints : List Constraint)
    (row : AttNum → Datum) : Prop where
  exact : ∀ a, (row a).isExact = true
  restrictions : ∀ r ∈ restrictions, r.test.evaluate (row r.attnum) = some true
  constraints : ∀ c ∈ constraints, c.Typed row ∧ c.HoldsOf row

/-- **A refutation is only reported when it holds.** If some row is left by
restrictions and constraints, none of which mentions a double, they are not
refuted, in whatever order their tests come and whatever values fail to compare
on the way. -/
theorem refutedBy_eq_false_of_leaves (hrestrictions : ∀ r ∈ restrictions, r.test.isExact = true)
    (hconstraints : ∀ c ∈ constraints, c.isExact = true)
    (hleft : ∃ row, Leaves restrictions constraints row) :
    refutedBy restrictions constraints = false := by
  obtain ⟨row, hrow⟩ := hleft
  have hpassed : ∀ r ∈ restrictions, r.test.Passed (row r.attnum) := fun r hr =>
    ⟨hrestrictions r hr, hrow.restrictions r hr⟩
  have hbinds : ∀ c ∈ constraints, c.Binds row := by
    intro c hc
    obtain ⟨htyped, hholds⟩ := hrow.constraints c hc
    exact ⟨hconstraints c hc, htyped, hholds⟩
  exact refutedBy_eq_false hrow.exact hpassed hbinds

/-- A key of 5 that a list with `NULL` and a text in it lets pass, -/
def fiveOrElse : List Restriction :=
  [⟨⟨1⟩, "id", .isIn [.null, .text "x", .int 5]⟩, ⟨⟨1⟩, "id", .compare .ge (.int 5)⟩,
    ⟨⟨1⟩, "id", .compare .eq (.int 5)⟩]

/-- and a choice and a hash of it. -/
def fiveHashed : List Constraint :=
  [.column ⟨⟨1⟩, "id", .isNotNull⟩,
    .either ⟨1⟩ "id" [.compare .eq (.text "x"), .compare .lt (.int 6)],
    .hash [⟨1⟩] [.int4] 4 1]

theorem refutedBy_fiveOrElse :
    refutedBy fiveOrElse fiveHashed = false ∧
      refutedBy fiveOrElse [.hash [⟨1⟩] [.int4] 4 2] = true := by
  refine ⟨?_, by decide +kernel⟩
  refine refutedBy_eq_false_of_leaves (by decide) (by decide) ⟨fun _ => .int 5, ?_⟩
  refine ⟨fun _ => rfl, by decide +kernel, ?_⟩
  refine List.forall_mem_cons.2 ⟨⟨trivial, rfl⟩, List.forall_mem_cons.2 ⟨⟨trivial, ?_⟩, ?_⟩⟩
  · exact ⟨.compare .lt (.int 6), by simp, by decide +kernel⟩
  · have hhash : Datum.rowHash [.int 5] % 4 = 1 := by decide +kernel
    exact List.forall_mem_singleton.2 ⟨List.forall_mem_singleton.2 rfl, hhash⟩

end Constraint

end WhatIf
