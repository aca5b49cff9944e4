import WhatIf.Constraint.Implication
import WhatIf.Proofs.Constraint.Soundness
/-!
# Constraint — what is implied holds

Restrictions that are found to imply a predicate do: a row without doubles that
satisfies them satisfies it. One test implies another where a value that passes
the first passes the second (`ColumnTest.implies_sound`). Exact tests and
restrictions equal themselves and nothing else, so a list of them can be split by
membership. A predicate may test for doubles, but not bound a column by one: an
integer next to a double may compare as equal to it.
-/

namespace WhatIf

/-! ## Equality -/

namespace Datum

variable {a b : Datum}

/-- An exact value equals itself and nothing else. -/
theorem beq_iff (ha : a.isExact = true) : (a == b) = true ↔ a = b := by
  cases a with
  | float x => cases ha
  | null => cases b <;> simp [BEq.beq, instBEqDatum.beq]
  | bool x => cases b <;> simp [BEq.beq, instBEqDatum.beq]
  | int x => cases b <;> simp [BEq.beq, instBEqDatum.beq]
  | text x => cases b <;> simp [BEq.beq, instBEqDatum.beq]

/-- So do lists of exact values. -/
theorem list_beq_iff {as bs : List Datum} (has : ∀ a ∈ as, a.isExact = true) :
    (as == bs) = true ↔ as = bs := by
  induction as generalizing bs with
  | nil => cases bs <;> simp
  | cons a as ih =>
    rw [List.forall_mem_cons] at has
    cases bs with
    | nil => simp
    | cons b bs =>
      rw [List.cons_beq_cons, Bool.and_eq_true, beq_iff has.1, ih has.2, List.cons.injEq]

end Datum

namespace ColumnTest

variable {given wanted : ColumnTest} {v : Datum}

theorem beq_iff (h : given.isExact = true) : (given == wanted) = true ↔ given = wanted := by
  cases given with
  | compare op a =>
    cases wanted with
    | compare op' b =>
      show (op == op' && a == b) = true ↔ _
      rw [Bool.and_eq_true, beq_iff_eq, Datum.beq_iff h, compare.injEq]
    | _ => simp [BEq.beq, instBEqColumnTest.beq]
  | isIn as =>
    cases wanted with
    | isIn bs =>
      show (as == bs) = true ↔ _
      rw [Datum.list_beq_iff (List.all_eq_true.1 h), isIn.injEq]
    | _ => simp [BEq.beq, instBEqColumnTest.beq]
  | isNull => cases wanted <;> simp [BEq.beq, instBEqColumnTest.beq]
  | isNotNull => cases wanted <;> simp [BEq.beq, instBEqColumnTest.beq]

/-! ## One test and another -/

/-- What passes a comparison or a membership is not `NULL`. -/
theorem isNull_of_holds (h : given.evaluate v = some true) (hgiven : given ≠ .isNull) :
    v.isNull = false := by
  cases given with
  | isNull => exact absurd rfl hgiven
  | isNotNull => simpa using Option.some.inj h
  | compare op w =>
    obtain ⟨o, hcompare, -⟩ := Option.map_eq_some_iff.1 h
    exact (Datum.isNull_of_compare? hcompare).1
  | isIn vs =>
    rw [evaluate] at h
    split at h
    · cases h
    · rename_i hnull
      simpa using hnull

/-- How a value stands to the second of two bounds, the first of which implies
it: the value and the bounds rise, or they fall. -/
theorem boundImplies_cases (op op' : CompareOp) (o p : Ordering) (ho : op.holds o = true)
    (himplies : boundImplies op op' p = true) :
    (o ≠ .gt ∧ p ≠ .gt ∧ op'.holds (o.then p) = true) ∨
      o ≠ .lt ∧ p ≠ .lt ∧ op'.holds (p.swap.then o.swap).swap = true := by
  revert ho himplies
  cases op <;> cases op' <;> cases o <;> cases p <;> decide

/-- **One bound and another.** A value inside the first is inside the second, if
the first is no further out. -/
theorem boundImplies_sound {op op' : CompareOp} {a b : Datum} {o : Ordering}
    (ha : a.isExact = true) (hb : b.isExact = true) (hv : v.isExact = true)
    (hab : a.compare? b = some o) (hva : (compare op a).evaluate v = some true)
    (himplies : boundImplies op op' o = true) : (compare op' b).evaluate v = some true := by
  obtain ⟨p, hva, hp⟩ := Option.map_eq_some_iff.1 hva
  rw [evaluate, Option.map_eq_some_iff]
  rcases boundImplies_cases op op' p o hp himplies with ⟨hpgt, hogt, hholds⟩ | ⟨hplt, holt, hholds⟩
  · exact ⟨_, Datum.compare?_then hv ha hb hva hpgt hab hogt, hholds⟩
  · -- the same the other way round
    have hba := Datum.compare?_swap ha hb hab
    have hav := Datum.compare?_swap hv ha hva
    have hbv := Datum.compare?_then hb ha hv hba (by cases o <;> simp_all) hav
      (by cases p <;> simp_all)
    exact ⟨_, Datum.compare?_swap hb hv hbv, hholds⟩

/-- Whether a test bounds a column by no double. -/
def boundsExactly : ColumnTest → Bool
  | compare .lt w | compare .le w | compare .gt w | compare .ge w => w.isExact
  | _ => true

theorem boundsExactly_of_isExact (h : wanted.isExact = true) : wanted.boundsExactly = true := by
  cases wanted with
  | compare op w => cases op <;> first | rfl | exact h
  | _ => rfl

/-- Only a bound is implied by a bound. -/
theorem isExact_of_boundImplies {op op' : CompareOp} {w : Datum} {o : Ordering}
    (hwanted : (compare op' w).boundsExactly = true) (himplies : boundImplies op op' o = true) :
    w.isExact = true := by
  cases op' with
  | eq => cases op <;> cases himplies
  | ne => cases op <;> cases himplies
  | _ => exact hwanted

/-- **A value that passes a test passes what the test implies.** -/
theorem implies_sound (hgiven : given.isExact = true) (hwanted : wanted.boundsExactly = true)
    (hv : v.isExact = true) (h : given.evaluate v = some true)
    (himplies : given.implies wanted = true) : wanted.evaluate v = some true := by
  unfold implies at himplies
  rw [Bool.or_eq_true] at himplies
  rcases himplies with hsame | himplies
  · exact (beq_iff hgiven).1 hsame ▸ h
  split at himplies
  · cases himplies
  · -- whatever passes but the test for `NULL` is not `NULL`
    rename_i hnull
    rw [evaluate, isNull_of_holds h hnull]
    rfl
  · -- the column is pinned to a value
    obtain ⟨o, hcompare, ho⟩ := Option.map_eq_some_iff.1 h
    obtain rfl : o = .eq := beq_iff_eq.1 ho
    obtain rfl := Datum.eq_of_compare?_eq hv hgiven hcompare
    exact beq_iff_eq.1 himplies
  · -- the column is pinned to several values, each of which passes
    rename_i vs _
    have hnull := isNull_of_holds h (by simp)
    rw [evaluate, hnull] at h
    have hany : vs.any v.equals = true := by
      by_contra hnone
      rw [if_neg Bool.false_ne_true, if_neg hnone] at h
      split at h <;> cases h
    obtain ⟨w, hw, hequals⟩ := List.any_eq_true.1 hany
    obtain rfl := Datum.eq_of_equals hv (List.all_eq_true.1 hgiven w hw) hequals
    have hpass := List.all_eq_true.1 (Bool.and_eq_true_iff.1 himplies).2 v hw
    rw [hnull, Bool.false_or] at hpass
    exact beq_iff_eq.1 hpass
  · split at himplies
    · rename_i o hab
      exact boundImplies_sound hgiven (isExact_of_boundImplies hwanted himplies) hv hab h himplies
    · cases himplies
  · cases himplies

end ColumnTest

/-! ## Whole predicates -/

namespace Restriction

variable {r s : Restriction} {rs predicate : List Restriction} {row : AttNum → Datum}

/-- That a row passes a restriction. -/
def HoldsOf (row : AttNum → Datum) (r : Restriction) : Prop :=
  r.test.evaluate (row r.attnum) = some true

theorem beq_iff (h : r.test.isExact = true) : (r == s) = true ↔ r = s := by
  obtain ⟨a, column, test⟩ := r
  obtain ⟨b, column', test'⟩ := s
  show (a == b && (column == column' && test == test')) = true ↔ _
  rw [Bool.and_eq_true, Bool.and_eq_true, beq_iff_eq, beq_iff_eq, ColumnTest.beq_iff h, mk.injEq]

theorem contains_iff (hr : r.test.isExact = true) : rs.contains r = true ↔ r ∈ rs := by
  rw [List.contains_iff_exists_mem_beq]
  constructor
  · rintro ⟨s, hs, heq⟩
    exact (beq_iff hr).1 heq ▸ hs
  · exact fun hmem => ⟨r, hmem, (beq_iff hr).2 rfl⟩

/-- **A row that passes restrictions passes the predicate they imply.** -/
theorem allImply_sound (hrs : ∀ r ∈ rs, r.test.isExact = true)
    (hpredicate : ∀ r ∈ predicate, r.test.boundsExactly = true)
    (hrow : ∀ a, (row a).isExact = true) (himply : allImply rs predicate = true)
    (h : ∀ r ∈ rs, r.HoldsOf row) : ∀ r ∈ predicate, r.HoldsOf row := by
  intro clause hclause
  obtain ⟨r, hr, himplies⟩ := List.any_eq_true.1 (List.all_eq_true.1 himply clause hclause)
  obtain ⟨hmem, hattnum⟩ := List.mem_filter.1 hr
  have hholds := h r hmem
  unfold HoldsOf at hholds ⊢
  rw [beq_iff_eq.1 hattnum] at hholds
  exact ColumnTest.implies_sound (hrs r hmem) (hpredicate clause hclause) (hrow _) hholds himplies

/-- **That restrictions entail a predicate**: every row without doubles that passes
them passes each clause of it. -/
def Entails (rs predicate : List Restriction) : Prop :=
  ∀ row : AttNum → Datum, (∀ a, (row a).isExact = true) → (∀ r ∈ rs, r.HoldsOf row) →
    ∀ clause ∈ predicate, clause.HoldsOf row

/-- **An implication is only reported when it holds.** Restrictions that mention
no double entail what they are found to imply, whatever it tests, unless it
bounds a column by a double. -/
theorem entails_of_allImply (hrs : ∀ r ∈ rs, r.test.isExact = true)
    (hpredicate : ∀ r ∈ predicate, r.test.boundsExactly = true)
    (himply : allImply rs predicate = true) : Entails rs predicate :=
  fun _ hrow h => allImply_sound hrs hpredicate hrow himply h

/-- Two keys, listed with `NULL` among them, and amounts under a bound. -/
def twoKeys : List Restriction :=
  [⟨⟨1⟩, "id", .isIn [.null, .int 5, .int 6]⟩, ⟨⟨2⟩, "amount", .compare .lt (.int 10)⟩]

/-- A predicate with the same bound, which is inclusive here. -/
def smallAmounts : List Restriction :=
  [⟨⟨1⟩, "id", .isNotNull⟩, ⟨⟨1⟩, "id", .compare .le (.int 6)⟩,
    ⟨⟨2⟩, "amount", .compare .le (.int 10)⟩]

theorem entails_twoKeys :
    Entails twoKeys smallAmounts ∧
      ∀ clause ∈ smallAmounts, clause.HoldsOf fun a => if a = ⟨1⟩ then .int 6 else .int 9 := by
  have hentails : Entails twoKeys smallAmounts :=
    entails_of_allImply (by decide) (by decide) (by decide +kernel)
  refine ⟨hentails, hentails _ (fun a => ?_) ?_⟩
  · split <;> rfl
  · exact List.forall_mem_cons.2 ⟨by rfl, List.forall_mem_singleton.2 (by rfl)⟩

end Restriction

end WhatIf
