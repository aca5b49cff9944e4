import WhatIf.Proofs.Constraint.Soundness
/-!
# Constraint — the places of a column

What a domain shows to be empty holds no value, but not the other way round:
between 1 and 2 there is no integer, and none from 1 to 1 but 1, yet neither is
found out. A domain takes its column for dense. So beside every value lie places
that no test names, just below the value, just above it and on it (`Place`), and a
test is passed by places as it is by values (`ColumnTest.passes_ofDatum_iff`). The
column is one of exact values, and all that a test compares it with is of its type.
-/

namespace WhatIf

variable {type : DataType} {o o' q : Ordering}

/-! ## Values of one type -/

namespace Datum

variable {a b c v : Datum}

/-- That a datum is a value of a type, and not `NULL`. -/
structure IsValueOf (v : Datum) (type : DataType) : Prop where
  isNull : v.isNull = false
  isOf : v.isOf type = true

theorem fits_of_isOf (h : v.isOf type = true) : v.fits type = true := by
  cases v <;> cases type <;> first | rfl | cases h

/-- A column that is not of doubles holds what may be written as a bound of it. -/
theorem isOf_of_fits (h : v.fits type = true) (htype : type ≠ .float8) : v.isOf type = true := by
  cases v <;> cases type <;> first | exact absurd rfl htype | rfl | cases h

theorem compare?_eq_none_of_isNull (h : a.isNull = true ∨ b.isNull = true) :
    a.compare? b = none := by
  rw [Option.eq_none_iff_forall_ne_some]
  intro o ho
  obtain ⟨ha, hb⟩ := isNull_of_compare? ho
  simp [ha, hb] at h

/-- Every type has a value. -/
theorem exists_isValueOf (type : DataType) : ∃ v : Datum, v.IsValueOf type := by
  cases type with
  | bool => exact ⟨.bool true, rfl, rfl⟩
  | int4 | int8 => exact ⟨.int 0, rfl, rfl⟩
  | float8 => exact ⟨.float 0, rfl, rfl⟩
  | text => exact ⟨.text "", rfl, rfl⟩

/-- Two steps away from one side make one: what is not on that side of
something not on that side is not on that side either, and strictly so if one of
the steps is. -/
theorem compare?_then_of_ne (ha : a.isExact = true) (hb : b.isExact = true)
    (hc : c.isExact = true) {side : Ordering} (hside : side ≠ .eq) (hab : a.compare? b = some o)
    (ho : o ≠ side) (hbc : b.compare? c = some o') (ho' : o' ≠ side) :
    a.compare? c = some (o.then o') := by
  cases side with
  | eq => exact absurd rfl hside
  | gt => exact compare?_then ha hb hc hab ho hbc ho'
  | lt =>
    -- the same the other way round
    have hcb := compare?_swap hb hc hbc
    have hba := compare?_swap ha hb hab
    have hca := compare?_then hc hb ha hcb (by cases o' <;> simp_all) hba (by cases o <;> simp_all)
    rw [compare?_swap hc ha hca]
    cases o <;> cases o' <;> simp_all

section

variable (htype : type ≠ .float8)

include htype

theorem IsValueOf.isExact (h : v.IsValueOf type) : v.isExact = true := isExact_of_isOf h.isOf htype

theorem IsValueOf.exists_compare? (ha : a.IsValueOf type) (hb : b.IsValueOf type) :
    ∃ o, a.compare? b = some o :=
  Datum.exists_compare? (fits_of_isOf ha.isOf) (fits_of_isOf hb.isOf) ha.isNull hb.isNull htype

theorem IsValueOf.compare?_self (hv : v.IsValueOf type) : v.compare? v = some .eq := by
  obtain ⟨o, ho⟩ := hv.exists_compare? htype hv
  have hswap := compare?_swap (hv.isExact htype) (hv.isExact htype) ho
  rw [ho] at hswap
  cases o with
  | eq => exact ho
  | _ => cases hswap

theorem IsValueOf.equals_iff (ha : a.IsValueOf type) (hb : b.IsValueOf type) :
    a.equals b = true ↔ a = b := by
  constructor
  · exact eq_of_equals (ha.isExact htype) (hb.isExact htype)
  · rintro rfl
    exact beq_iff_eq.2 (ha.compare?_self htype)

end

end Datum

/-! ## Places -/

/-- **A place of a column**: `NULL`, a value, or beside a value. What is just below or
above a value is nearer to it than any other value; what is on the value is on the
same side of everything as the value, yet is not the value. -/
inductive Place where
  | null
  | value (v : Datum)
  | beside (v : Datum) (side : Ordering)

namespace Place

variable {p : Place} {v w e : Datum} {side : Ordering}

/-- Whether the place is `NULL`. -/
def isNull : Place → Bool
  | null => true
  | _ => false

/-- Whether the place is a value equal to the given one. -/
def isAt (p : Place) (w : Datum) : Bool :=
  match p with
  | value v => v.equals w
  | _ => false

/-- How the place stands to a value. -/
def compare? (p : Place) (w : Datum) : Option Ordering :=
  match p with
  | null => none
  | value v => v.compare? w
  | beside v side => (v.compare? w).map fun o => o.then side

/-- That the place is one of a column of a type. -/
def IsOf (type : DataType) : Place → Prop
  | null => True
  | value v => v.IsValueOf type
  | beside v _ => v.IsValueOf type

/-- Whether the place lies on the inner side of an end. -/
def isInside (inward : Ordering) (p : Place) : Option Endpoint → Bool
  | none => true
  | some e => (p.compare? e.value).any fun o => o == inward || (o == .eq && e.inclusive)

/-- The place of a datum. -/
def ofDatum (v : Datum) : Place := if v.isNull then null else value v

@[simp] theorem compare?_null (w : Datum) : compare? null w = none := rfl

@[simp] theorem isAt_null (w : Datum) : isAt null w = false := rfl

@[simp] theorem isAt_beside (v w : Datum) : isAt (beside v side) w = false := rfl

@[simp] theorem isInside_none (inward : Ordering) : p.isInside inward none = true := rfl

theorem isNull_eq_true_iff : p.isNull = true ↔ p = null := by
  cases p <;> simp [isNull]

theorem isNull_of_isAt (h : p.isAt w = true) : p.isNull = false := by
  cases p with
  | null => cases h
  | _ => rfl

/-- No place is at `NULL`. -/
theorem isAt_eq_false_of_isNull (hw : w.isNull = true) : p.isAt w = false := by
  cases p with
  | value v =>
    rw [isAt, Datum.equals, Datum.compare?_eq_none_of_isNull (Or.inr hw)]
    rfl
  | _ => rfl

/-- No place is at the `NULL`s of a list. -/
theorem any_isAt_filter {vs : List Datum} :
    (vs.filter fun v => !v.isNull).any p.isAt = vs.any p.isAt := by
  rw [List.any_filter]
  refine List.any_congr rfl fun v => ?_
  by_cases hnull : v.isNull = true
  · simp [hnull, isAt_eq_false_of_isNull hnull]
  · simp [hnull]

theorem isNull_of_isInside {inward : Ordering} {e : Endpoint}
    (h : p.isInside inward (some e) = true) : p.isNull = false := by
  cases p with
  | null => cases h
  | _ => rfl

theorem isOf_ofDatum (h : v.isOf type = true) : (ofDatum v).IsOf type := by
  unfold ofDatum
  split
  · trivial
  · rename_i hnull
    exact ⟨Bool.eq_false_iff.2 hnull, h⟩

section

variable (htype : type ≠ .float8) (hp : p.IsOf type)

include htype hp

/-- A place is at one value at most. -/
theorem isAt_iff (hw : w.IsValueOf type) : p.isAt w = true ↔ p = value w := by
  cases p with
  | null => simp
  | beside v side => simp
  | value v => rw [isAt, Datum.IsValueOf.equals_iff htype hp hw, value.injEq]

/-- From a place to a value and on to another, away from one side. -/
theorem compare?_then_of_ne (hw : w.IsValueOf type) (he : e.IsValueOf type) (hside : side ≠ .eq)
    (hpw : p.compare? w = some o) (ho : o ≠ side) (hwe : w.compare? e = some o')
    (ho' : o' ≠ side) : p.compare? e = some (o.then o') := by
  have hwx := hw.isExact htype
  have hex := he.isExact htype
  cases p with
  | null => cases hpw
  | value v => exact Datum.compare?_then_of_ne (hp.isExact htype) hwx hex hside hpw ho hwe ho'
  | beside v s =>
    obtain ⟨q, hq, rfl⟩ := Option.map_eq_some_iff.1 hpw
    have hqne : q ≠ side := by cases q <;> cases side <;> simp_all
    rw [compare?, Datum.compare?_then_of_ne (hp.isExact htype) hwx hex hside hq hqne hwe ho',
      Option.map_some]
    cases q <;> cases s <;> cases o' <;> cases side <;> simp_all

/-- What is inside an end is inside one that is no tighter. -/
theorem isInside_of_tighter {inward : Ordering} {i j : Bool} (hw : w.IsValueOf type)
    (he : e.IsValueOf type) (hinward : inward ≠ .eq) (hwe : w.compare? e = some q)
    (htight : q = inward ∨ q = .eq ∧ (i = true → j = true))
    (h : p.isInside inward (some ⟨w, i⟩) = true) : p.isInside inward (some ⟨e, j⟩) = true := by
  obtain ⟨o, hpw, ho⟩ := (Option.any_eq_true _ _).1 h
  have hpe : p.compare? e = some (o.then q) := by
    refine compare?_then_of_ne htype hp hw he (?_ : inward.swap ≠ .eq) hpw ?_ hwe ?_
    · cases inward <;> simp_all
    · rintro rfl
      cases inward <;> simp_all
    · rintro rfl
      cases inward <;> simp_all
  rw [isInside, hpe, Option.any_some]
  rcases htight with rfl | ⟨rfl, hij⟩
  · cases o <;> cases q <;> simp_all
  · cases o <;> cases inward <;> simp_all

end

end Place

/-! ## Tests -/

namespace ColumnTest

variable {t : ColumnTest} {v : Datum} {p : Place}

/-- Whether every constant of a test but `NULL` is of a type. -/
def isOf (type : DataType) : ColumnTest → Bool
  | compare _ w => w.isOf type
  | isIn vs => vs.all fun w => w.isOf type
  | isNull | isNotNull => true

/-- Whether a place passes a test. -/
def passes (p : Place) : ColumnTest → Bool
  | isNull => p.isNull
  | isNotNull => !p.isNull
  | compare .eq w => p.isAt w
  | compare .ne w => !p.isNull && !w.isNull && !p.isAt w
  | compare op w => (p.compare? w).any op.holds
  | isIn vs => vs.any p.isAt

/-- Nothing compares with `NULL`. -/
theorem passes_compare_null {op : CompareOp} {w : Datum} (hw : w.isNull = true) :
    (compare op w).passes p = false := by
  have hnone : ∀ v : Datum, v.compare? w = none := fun v =>
    Datum.compare?_eq_none_of_isNull (Or.inr hw)
  cases op <;> cases p <;> simp [passes, Place.isAt, Place.compare?, Datum.equals, hnone, hw]

/-- What passes a test, but for that for `NULL`, is not `NULL`. -/
theorem isNull_of_passes (h : t.passes p = true) (ht : t ≠ .isNull) : p.isNull = false := by
  cases p with
  | null =>
    cases t with
    | isNull => exact absurd rfl ht
    | isNotNull => cases h
    | compare op w => cases op <;> cases h
    | isIn vs => simp [passes] at h
  | _ => rfl

/-- The tests of order are ends. -/
theorem passes_ends (p : Place) (w : Datum) :
    (compare .lt w).passes p = p.isInside .lt (some ⟨w, false⟩) ∧
      (compare .le w).passes p = p.isInside .lt (some ⟨w, true⟩) ∧
      (compare .gt w).passes p = p.isInside .gt (some ⟨w, false⟩) ∧
      (compare .ge w).passes p = p.isInside .gt (some ⟨w, true⟩) := by
  simp only [passes, Place.isInside]
  rcases p.compare? w with _ | _ | _ | _ <;> decide

/-- **Values are places.** The place of a datum passes the tests that the datum
passes. -/
theorem passes_ofDatum_iff (htype : type ≠ .float8) (ht : t.isOf type = true)
    (hv : v.isOf type = true) :
    t.passes (.ofDatum v) = true ↔ t.evaluate v = some true := by
  unfold Place.ofDatum
  by_cases hnull : v.isNull = true
  · -- nothing but the test for `NULL` is passed by `NULL`
    rw [if_pos hnull]
    have hnone : ∀ w, v.compare? w = none := fun w =>
      Datum.compare?_eq_none_of_isNull (Or.inl hnull)
    cases t with
    | isNull => simp [passes, evaluate, Place.isNull, hnull]
    | isNotNull => simp [passes, evaluate, Place.isNull, hnull]
    | compare op w => cases op <;> simp [passes, evaluate, Place.isNull, hnone]
    | isIn vs => simp [passes, evaluate, hnull]
  · rw [if_neg hnull]
    have hvalue : v.IsValueOf type := ⟨Bool.eq_false_iff.2 hnull, hv⟩
    cases t with
    | isNull => simp [passes, evaluate, Place.isNull, hnull]
    | isNotNull => simp [passes, evaluate, Place.isNull, hnull]
    | compare op w =>
      rw [evaluate, Option.map_eq_some_iff]
      by_cases hwnull : w.isNull = true
      · have hnone : v.compare? w = none := Datum.compare?_eq_none_of_isNull (Or.inr hwnull)
        cases op <;> simp [passes, Place.isAt, Place.compare?, Datum.equals, hnone, hwnull]
      · obtain ⟨o, ho⟩ := hvalue.exists_compare? htype ⟨Bool.eq_false_iff.2 hwnull, ht⟩
        cases op <;> cases o <;>
          simp [passes, Place.isAt, Place.isNull, Place.compare?, Datum.equals, CompareOp.holds, ho,
            hwnull]
    | isIn vs =>
      have hat : vs.any (Place.value v).isAt = vs.any v.equals := rfl
      rw [passes, hat, evaluate, if_neg hnull]
      by_cases hany : vs.any v.equals = true
      · simp [hany]
      · rw [if_neg hany]
        split <;> simp [hany]

end ColumnTest

end WhatIf
