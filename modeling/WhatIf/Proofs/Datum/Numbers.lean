import WhatIf.Proofs.Decimal.Nearest
/-!
# Datum — integers and doubles in one order

Two integers compare as integers, and an integer meets a double as the double nearest
to it. Values that are exchanged compare the other way round. The order is transitive
with one exception: a double may equal two different integers, being nearest to both
(`EqualsBoth`), and then the three are in no order (`compare?_coherent`). Integers
that fit a mantissa are never among them.
-/

namespace WhatIf

namespace Datum

open Decimal (FitsMantissa ofInt64 compare_swap compare_ofInt64 compare_ofInt64_self)

variable {a b c : Datum} {o o' : Ordering} {i j : Int64} {x : Float}

/-- That a double equals two different integers. -/
def EqualsBoth (x : Float) (i j : Int64) : Prop :=
  i ≠ j ∧ (int i).compare? (float x) = some .eq ∧ (int j).compare? (float x) = some .eq

/-- **Three values that are in no order**: two different integers, and a double that
equals both. -/
def Blurred : Datum → Datum → Datum → Prop
  | int i, int j, float x => EqualsBoth x i j
  | int i, float x, int j => EqualsBoth x i j
  | float x, int i, int j => EqualsBoth x i j
  | _, _, _ => False

/-- Integers that fit a mantissa are not both equal to one double. -/
theorem not_equalsBoth (hi : FitsMantissa i.toInt.natAbs) (hj : FitsMantissa j.toInt.natAbs) :
    ¬EqualsBoth x i j := by
  rintro ⟨hne, hix, hjx⟩
  have hisame := (Decimal.sameNumber_of_compare hix).int64?_eq_some_iff.2 hi
  have hjsame := (Decimal.sameNumber_of_compare hjx).int64?_eq_some_iff.2 hj
  exact hne (Option.some.inj (hisame.symm.trans hjsame))

/-! ## Exchanged values -/

/-- **The other way round**, any two values compare the other way. -/
theorem compare?_exchange (a b : Datum) : b.compare? a = (a.compare? b).map Ordering.swap := by
  cases a with
  | null => cases b <;> rfl
  | bool p =>
    cases b with
    | bool q => exact congrArg some Std.OrientedCmp.eq_swap
    | _ => rfl
  | text p =>
    cases b with
    | text q => exact congrArg some Std.OrientedCmp.eq_swap
    | _ => rfl
  | int i =>
    cases b with
    | int j => exact congrArg some Std.OrientedCmp.eq_swap
    | float y => exact compare_swap _ _
    | _ => rfl
  | float x =>
    cases b with
    | int j => exact compare_swap _ _
    | float y => exact compare_swap _ _
    | _ => rfl

/-! ## Two integers and a double -/

theorem compare_eq_iff_exchange {x y : Float} :
    Decimal.compare x y = some .eq ↔ Decimal.compare y x = some .eq := by
  rw [compare_swap y x]
  rcases Decimal.compare y x with _ | _ | _ | _ <;> decide

theorem then_eq_eq_iff : o.then o' = .eq ↔ o = .eq ∧ o' = .eq := by
  cases o <;> cases o' <;> decide

theorem then_ne_gt (ho : o ≠ .gt) (ho' : o' ≠ .gt) : o.then o' ≠ .gt := by
  cases o with
  | eq => exact ho'
  | _ => exact ho

theorem eq_lt_iff (ho : o ≠ .gt) : o = .lt ↔ o ≠ .eq := by
  cases o with
  | gt => exact absurd rfl ho
  | _ => decide

/-- The doubles nearest to two integers in order are in order. -/
theorem exists_compare_ofInt64 (hij : i < j) :
    ∃ p, p ≠ .gt ∧ Decimal.compare (ofInt64 i) (ofInt64 j) = some p := by
  rcases compare_ofInt64 hij with h | h
  · exact ⟨.lt, by decide, h⟩
  · exact ⟨.eq, by decide, h⟩

/-- **A double after two integers** is after the first, unless it equals both. -/
theorem compare?_then_float (hij : compare i j ≠ .gt)
    (hjx : Decimal.compare (ofInt64 j) x = some o) (ho : o ≠ .gt) :
    Decimal.compare (ofInt64 i) x = some ((compare i j).then o) ↔ ¬EqualsBoth x i j := by
  rcases Std.lt_trichotomy i j with hlt | rfl | hgt
  · obtain ⟨p, hp, hround⟩ := exists_compare_ofInt64 hlt
    have hix := Decimal.compare_then hround hp hjx ho
    have hboth : EqualsBoth x i j ↔ p.then o = .eq := by
      refine ⟨fun h => Option.some.inj (hix.symm.trans h.2.1), fun h => ?_⟩
      exact ⟨Std.ne_of_lt hlt, hix.trans (congrArg some h),
        hjx.trans (congrArg some (then_eq_eq_iff.1 h).2)⟩
    rw [hix, Std.compare_eq_lt.2 hlt, hboth, Option.some.injEq]
    exact eq_lt_iff (then_ne_gt hp ho)
  · rw [Std.compare_self]
    exact iff_of_true hjx fun h => h.1 rfl
  · exact absurd (Std.compare_eq_gt.2 hgt) hij

/-- **A double before two integers** is before the second, unless it equals both. -/
theorem compare?_float_then (hxi : Decimal.compare x (ofInt64 i) = some o) (ho : o ≠ .gt)
    (hij : compare i j ≠ .gt) :
    Decimal.compare x (ofInt64 j) = some (o.then (compare i j)) ↔ ¬EqualsBoth x i j := by
  rcases Std.lt_trichotomy i j with hlt | rfl | hgt
  · obtain ⟨p, hp, hround⟩ := exists_compare_ofInt64 hlt
    have hxj := Decimal.compare_then hxi ho hround hp
    have hboth : EqualsBoth x i j ↔ o.then p = .eq := by
      refine ⟨fun h => ?_, fun h => ?_⟩
      · exact Option.some.inj (hxj.symm.trans (compare_eq_iff_exchange.1 h.2.2))
      · exact ⟨Std.ne_of_lt hlt,
          compare_eq_iff_exchange.1 (hxi.trans (congrArg some (then_eq_eq_iff.1 h).1)),
          compare_eq_iff_exchange.1 (hxj.trans (congrArg some h))⟩
    have hless : o.then .lt = .lt := by
      cases o with
      | gt => exact absurd rfl ho
      | _ => rfl
    rw [hxj, Std.compare_eq_lt.2 hlt, hboth, Option.some.injEq, hless]
    exact eq_lt_iff (then_ne_gt ho hp)
  · rw [Std.compare_self, show o.then .eq = o by cases o <;> rfl]
    exact iff_of_true hxi fun h => h.1 rfl
  · exact absurd (Std.compare_eq_gt.2 hgt) hij

/-- **A double between two integers** tells that the first is before the second, unless
it equals both. -/
theorem compare?_over_float (hix : Decimal.compare (ofInt64 i) x = some o) (ho : o ≠ .gt)
    (hxj : Decimal.compare x (ofInt64 j) = some o') (ho' : o' ≠ .gt) :
    compare i j = o.then o' ↔ ¬EqualsBoth x i j := by
  have hround := Decimal.compare_then hix ho hxj ho'
  have hboth : EqualsBoth x i j ↔ i ≠ j ∧ o.then o' = .eq := by
    rw [then_eq_eq_iff]
    refine and_congr_right fun _ => and_congr ?_ ?_
    · exact ⟨fun h => Option.some.inj (hix.symm.trans h), fun h => hix.trans (congrArg some h)⟩
    · exact ⟨fun h => Option.some.inj (hxj.symm.trans (compare_eq_iff_exchange.1 h)),
        fun h => compare_eq_iff_exchange.1 (hxj.trans (congrArg some h))⟩
  rw [hboth]
  rcases Std.lt_trichotomy i j with hlt | rfl | hgt
  · rw [Std.compare_eq_lt.2 hlt, eq_comm, eq_lt_iff (then_ne_gt ho ho')]
    exact not_congr (iff_and_self.2 fun _ => Std.ne_of_lt hlt)
  · rw [Std.compare_self]
    refine iff_of_true ?_ fun h => h.1 rfl
    exact Option.some.inj ((compare_ofInt64_self i).symm.trans hround)
  · -- the doubles are in the other order, and in this one, so they are equal
    have heq : o.then o' = .eq := by
      obtain ⟨p, hp, hback⟩ := exists_compare_ofInt64 hgt
      rw [compare_swap, hround] at hback
      have hswap : (o.then o').swap = p := Option.some.inj hback
      have hne := then_ne_gt ho ho'
      cases hthen : o.then o' with
      | eq => rfl
      | lt =>
        rw [hthen] at hswap
        exact absurd hswap.symm hp
      | gt => exact absurd hthen hne
    rw [Std.compare_eq_gt.2 hgt, heq]
    exact iff_of_false (by decide) (not_not.2 ⟨(Std.ne_of_lt hgt).symm, rfl⟩)

/-! ## The order of all values -/

/-- Exact values are in order. -/
theorem not_blurred_of_isExact (ha : a.isExact = true) (hb : b.isExact = true)
    (hc : c.isExact = true) : ¬Blurred a b c := by
  intro h
  cases a with
  | float x => cases ha
  | int i =>
    cases b with
    | float x => cases hb
    | int j =>
      cases c with
      | float x => cases hc
      | _ => exact h
    | _ => exact h
  | _ => exact h

/-- Of three values in a row, the first compares with the last as the steps tell, unless
the three are in no order. -/
theorem compare?_then_iff (hab : a.compare? b = some o) (ho : o ≠ .gt)
    (hbc : b.compare? c = some o') (ho' : o' ≠ .gt) :
    a.compare? c = some (o.then o') ↔ ¬Blurred a b c := by
  have hexact : a.isExact = true → b.isExact = true → c.isExact = true →
      (a.compare? c = some (o.then o') ↔ ¬Blurred a b c) := fun ha hb hc =>
    iff_of_true (compare?_then ha hb hc hab ho hbc ho') (not_blurred_of_isExact ha hb hc)
  -- what compares with a number is a number
  cases b with
  | null => cases hbc
  | bool q =>
    cases a with
    | bool p =>
      cases c with
      | bool r => exact hexact rfl rfl rfl
      | _ => cases hbc
    | _ => cases hab
  | text q =>
    cases a with
    | text p =>
      cases c with
      | text r => exact hexact rfl rfl rfl
      | _ => cases hbc
    | _ => cases hab
  | int j =>
    cases a with
    | int i =>
      cases c with
      | int k => exact hexact rfl rfl rfl
      | float z =>
        obtain rfl := Option.some.inj hab
        exact compare?_then_float ho hbc ho'
      | _ => cases hbc
    | float x =>
      cases c with
      | int k =>
        obtain rfl := Option.some.inj hbc
        exact compare?_float_then hab ho ho'
      | float z => exact iff_of_true (Decimal.compare_then hab ho hbc ho') id
      | _ => cases hbc
    | _ => cases hab
  | float y =>
    cases a with
    | int i =>
      cases c with
      | int k => exact Option.some_inj.trans (compare?_over_float hab ho hbc ho')
      | float z => exact iff_of_true (Decimal.compare_then hab ho hbc ho') id
      | _ => cases hbc
    | float x =>
      cases c with
      | int k => exact iff_of_true (Decimal.compare_then hab ho hbc ho') id
      | float z => exact iff_of_true (Decimal.compare_then hab ho hbc ho') id
      | _ => cases hbc
    | _ => cases hab

/-- Three values are in order if the integers among them fit a mantissa. -/
theorem not_blurred_of_fitsMantissa
    (h : ∀ i, int i ∈ [a, b, c] → FitsMantissa i.toInt.natAbs) : ¬Blurred a b c := by
  intro hblurred
  cases a with
  | int i =>
    have hi := h i (by simp)
    cases b with
    | int j =>
      cases c with
      | float x => exact not_equalsBoth hi (h j (by simp)) hblurred
      | _ => exact hblurred
    | float x =>
      cases c with
      | int j => exact not_equalsBoth hi (h j (by simp)) hblurred
      | _ => exact hblurred
    | _ => exact hblurred
  | float x =>
    cases b with
    | int i =>
      cases c with
      | int j => exact not_equalsBoth (h i (by simp)) (h j (by simp)) hblurred
      | _ => exact hblurred
    | _ => exact hblurred
  | _ => exact hblurred

/-- **One order of all values**: exchanged values compare the other way round, and of
three values in a row the first compares with the last as the two steps tell, unless two
different integers among them equal the third, a double. Integers that fit a mantissa
never do. -/
theorem compare?_coherent (a b c : Datum) :
    b.compare? a = (a.compare? b).map Ordering.swap ∧
      (∀ o o', a.compare? b = some o → b.compare? c = some o' → o ≠ .gt → o' ≠ .gt →
        (a.compare? c = some (o.then o') ↔ ¬Blurred a b c)) ∧
      ((∀ i, int i ∈ [a, b, c] → FitsMantissa i.toInt.natAbs) → ¬Blurred a b c) :=
  ⟨compare?_exchange a b, fun _ _ hab hbc ho ho' => compare?_then_iff hab ho hbc ho',
    not_blurred_of_fitsMantissa⟩

/-- Two great integers in order with a double between them, of which it equals one. The
greater is rounded to meet it; of two that fit a mantissa neither is. -/
theorem compare?_coherent_great :
    (int 9007199254740991).compare? (float 9007199254740992) = some .lt ∧
      (float 9007199254740992).compare? (int 9007199254740993) = some .eq ∧
      (int 9007199254740991).compare? (int 9007199254740993) = some .lt ∧
      ¬Blurred (int 9007199254740991) (float 9007199254740992) (int 9007199254740992) := by
  have hab : (int 9007199254740991).compare? (float 9007199254740992) = some .lt := by
    decide +kernel
  have hbc : (float 9007199254740992).compare? (int 9007199254740993) = some .eq := by
    decide +kernel
  have hapart : ¬Blurred (int 9007199254740991) (float 9007199254740992)
      (int 9007199254740993) := fun h => absurd h.2.1 (by decide +kernel)
  refine ⟨hab, hbc, ((compare?_coherent _ _ _).2.1 _ _ hab hbc (by decide) (by decide)).2 hapart,
    (compare?_coherent _ _ _).2.2 fun i hi => ?_⟩
  obtain rfl | rfl : i = 9007199254740991 ∨ i = 9007199254740992 := by simpa using hi
  · exact Decimal.fitsMantissa_of_lt (by decide)
  · exact ⟨1, 53, by decide, by decide⟩

/-- A double that equals two integers, of which one is less than the other. -/
theorem compare?_incoherent :
    (float 9007199254740992).compare? (int 9007199254740992) = some .eq ∧
      (int 9007199254740992).compare? (int 9007199254740993) = some .lt ∧
      (float 9007199254740992).compare? (int 9007199254740993) = some .eq := by
  decide +kernel

end Datum

end WhatIf
