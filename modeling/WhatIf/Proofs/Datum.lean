import WhatIf.Datum
import Mathlib.Tactic.Basic
/-!
# Datum — exact values and their order

A value is exact if it is no double. Exact values compare only with those of
their own kind, and there the order is total: equal values are the same, and
what is greater than something not less is greater. A column that is not of
doubles holds exact values, and its type stores each of them as it is.
-/

namespace WhatIf

namespace Datum

/-- Whether the value is no double. -/
def isExact : Datum → Bool
  | float _ => false
  | _ => true

/-- Whether a column of the given type may hold the value. -/
def isOf : Datum → DataType → Bool
  | null, _ => true
  | bool _, .bool => true
  | int _, .int4 | int _, .int8 => true
  | float _, .float8 => true
  | text _, .text => true
  | _, _ => false

variable {a b c v : Datum} {o : Ordering} {type : DataType}

/-- In a linear order the two steps of a rise make one. -/
theorem compare_then {α : Type} {cmp : α → α → Ordering} [Std.TransCmp cmp] {x y z : α}
    (hxy : cmp x y ≠ .gt) (hyz : cmp y z ≠ .gt) : cmp x z = (cmp x y).then (cmp y z) := by
  rcases h : cmp x y with _ | _ | _
  · refine Std.TransCmp.lt_of_lt_of_isLE h ?_
    rwa [Ordering.isLE_iff_ne_gt]
  · exact Std.TransCmp.congr_left h
  · exact absurd h hxy

/-! ## Types -/

theorem isExact_of_isOf (h : v.isOf type = true) (ht : type ≠ .float8) : v.isExact = true := by
  cases v with
  | float x =>
    cases type with
    | float8 => exact absurd rfl ht
    | _ => cases h
  | _ => rfl

theorem isExact_of_fits (h : v.fits type = true) (ht : type ≠ .float8) : v.isExact = true := by
  cases v with
  | float x =>
    cases type with
    | float8 => exact absurd rfl ht
    | _ => cases h
  | _ => rfl

/-- A column stores the values of its type as they are. -/
theorem coerce?_of_isOf (h : v.isOf type = true) : v.coerce? type = some v := by
  cases v <;> cases type <;> first | rfl | cases h

/-! ## Order -/

/-- **Exact values that compare** are of one kind. -/
theorem compare?_cases (ha : a.isExact = true) (hb : b.isExact = true)
    (h : a.compare? b = some o) :
    (∃ x y, a = bool x ∧ b = bool y ∧ compare x y = o) ∨
      (∃ x y, a = int x ∧ b = int y ∧ compare x y = o) ∨
      ∃ x y, a = text x ∧ b = text y ∧ compare x y = o := by
  cases a with
  | null => cases h
  | float x => cases ha
  | bool x =>
    cases b with
    | bool y => exact Or.inl ⟨x, y, rfl, rfl, Option.some.inj h⟩
    | _ => cases h
  | int x =>
    cases b with
    | int y => exact Or.inr (Or.inl ⟨x, y, rfl, rfl, Option.some.inj h⟩)
    | float y => cases hb
    | _ => cases h
  | text x =>
    cases b with
    | text y => exact Or.inr (Or.inr ⟨x, y, rfl, rfl, Option.some.inj h⟩)
    | _ => cases h

/-- Nothing compares with `NULL`. -/
theorem isNull_of_compare? (h : a.compare? b = some o) : a.isNull = false ∧ b.isNull = false := by
  cases a with
  | null => cases h
  | _ =>
    cases b with
    | null => cases h
    | _ => exact ⟨rfl, rfl⟩

/-- Exact values that compare as equal are the same. -/
theorem eq_of_compare?_eq (ha : a.isExact = true) (hb : b.isExact = true)
    (h : a.compare? b = some .eq) : a = b := by
  rcases compare?_cases ha hb h with ⟨x, y, rfl, rfl, hxy⟩ | ⟨x, y, rfl, rfl, hxy⟩ |
    ⟨x, y, rfl, rfl, hxy⟩
  · rw [Std.LawfulEqCmp.eq_of_compare hxy]
  · rw [Std.LawfulEqCmp.eq_of_compare hxy]
  · rw [Std.LawfulEqCmp.eq_of_compare hxy]

theorem eq_of_equals (ha : a.isExact = true) (hb : b.isExact = true) (h : a.equals b = true) :
    a = b :=
  eq_of_compare?_eq ha hb (beq_iff_eq.1 h)

/-- What is not less than something greater is greater. -/
theorem compare?_gt_of_ge_of_gt (ha : a.isExact = true) (hb : b.isExact = true)
    (hc : c.isExact = true) (hab : a.compare? b = some o) (ho : o ≠ .lt)
    (hbc : b.compare? c = some .gt) : a.compare? c = some .gt := by
  have hge : o.isGE = true := by
    cases o with
    | lt => exact absurd rfl ho
    | _ => rfl
  rcases compare?_cases ha hb hab with ⟨x, y, rfl, rfl, hxy⟩ | ⟨x, y, rfl, rfl, hxy⟩ |
    ⟨x, y, rfl, rfl, hxy⟩
  · rcases compare?_cases hb hc hbc with ⟨y', z, ⟨⟩, rfl, hyz⟩ | ⟨y', z, ⟨⟩, rfl, hyz⟩ |
      ⟨y', z, ⟨⟩, rfl, hyz⟩
    exact congrArg some (Std.TransCmp.gt_of_isGE_of_gt (hxy ▸ hge) hyz)
  · rcases compare?_cases hb hc hbc with ⟨y', z, ⟨⟩, rfl, hyz⟩ | ⟨y', z, ⟨⟩, rfl, hyz⟩ |
      ⟨y', z, ⟨⟩, rfl, hyz⟩
    exact congrArg some (Std.TransCmp.gt_of_isGE_of_gt (hxy ▸ hge) hyz)
  · rcases compare?_cases hb hc hbc with ⟨y', z, ⟨⟩, rfl, hyz⟩ | ⟨y', z, ⟨⟩, rfl, hyz⟩ |
      ⟨y', z, ⟨⟩, rfl, hyz⟩
    exact congrArg some (Std.TransCmp.gt_of_isGE_of_gt (hxy ▸ hge) hyz)

/-- What is not greater than something not greater is not greater, and it is
less if either of the two is less. -/
theorem compare?_then (ha : a.isExact = true) (hb : b.isExact = true) (hc : c.isExact = true)
    {o' : Ordering} (hab : a.compare? b = some o) (ho : o ≠ .gt) (hbc : b.compare? c = some o')
    (ho' : o' ≠ .gt) : a.compare? c = some (o.then o') := by
  rcases compare?_cases ha hb hab with ⟨x, y, rfl, rfl, rfl⟩ | ⟨x, y, rfl, rfl, rfl⟩ |
    ⟨x, y, rfl, rfl, rfl⟩
  · rcases compare?_cases hb hc hbc with ⟨y', z, ⟨⟩, rfl, rfl⟩ | ⟨y', z, ⟨⟩, rfl, rfl⟩ |
      ⟨y', z, ⟨⟩, rfl, rfl⟩
    exact congrArg some (compare_then ho ho')
  · rcases compare?_cases hb hc hbc with ⟨y', z, ⟨⟩, rfl, rfl⟩ | ⟨y', z, ⟨⟩, rfl, rfl⟩ |
      ⟨y', z, ⟨⟩, rfl, rfl⟩
    exact congrArg some (compare_then ho ho')
  · rcases compare?_cases hb hc hbc with ⟨y', z, ⟨⟩, rfl, rfl⟩ | ⟨y', z, ⟨⟩, rfl, rfl⟩ |
      ⟨y', z, ⟨⟩, rfl, rfl⟩
    exact congrArg some (compare_then ho ho')

/-- The other way round, two exact values compare the other way. -/
theorem compare?_swap (ha : a.isExact = true) (hb : b.isExact = true)
    (h : a.compare? b = some o) : b.compare? a = some o.swap := by
  rcases compare?_cases ha hb h with ⟨x, y, rfl, rfl, rfl⟩ | ⟨x, y, rfl, rfl, rfl⟩ |
    ⟨x, y, rfl, rfl, rfl⟩
  · exact congrArg some Std.OrientedCmp.eq_swap
  · exact congrArg some Std.OrientedCmp.eq_swap
  · exact congrArg some Std.OrientedCmp.eq_swap

/-- Values that fit one column compare. -/
theorem exists_compare? (ha : a.fits type = true) (hb : b.fits type = true)
    (hane : a.isNull = false) (hbne : b.isNull = false) (ht : type ≠ .float8) :
    ∃ o, a.compare? b = some o := by
  cases a with
  | null => cases hane
  | bool x =>
    cases b with
    | bool y => exact ⟨_, rfl⟩
    | _ => cases type <;> simp_all [fits, isNull]
  | int x =>
    cases b with
    | int y => exact ⟨_, rfl⟩
    | _ => cases type <;> simp_all [fits, isNull]
  | float x => cases type <;> simp_all [fits]
  | text x =>
    cases b with
    | text y => exact ⟨_, rfl⟩
    | _ => cases type <;> simp_all [fits, isNull]

end Datum

end WhatIf
