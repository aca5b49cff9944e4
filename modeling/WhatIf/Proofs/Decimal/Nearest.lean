import WhatIf.Proofs.Decimal.Order
import WhatIf.Proofs.Decimal.Whole
/-!
# Decimal — the nearest double is monotone

A number that does not fit a mantissa is rounded to a mantissa nearest to it
(`NearestMantissa`). Of two numbers the greater one is therefore never rounded below
the smaller one, and the doubles nearest to two integers are in the order of the
integers, or equal (`compare_ofInt64`).
-/

namespace WhatIf

namespace Decimal

open Float.Model (Format UnpackedFloat)
open Float.Model.UnpackedFloat

variable {n n' r r' k : Nat} {i j : Int64} {a : ExtendedMantissa}

/-! ## Rounding to the nearest -/

/-- **A number shifted over `k` digits**: what is left of it, whether the digits dropped
make at least a half, and whether they are more than nothing and not just a half. -/
structure Shifted (n k : Nat) (a : ExtendedMantissa) : Prop where
  mantissa : a.mantissa = n / 2 ^ k
  roundBit : a.roundBit = true ↔ 2 ^ k ≤ 2 * (n % 2 ^ k)
  stickyBit : a.stickyBit = false → 2 * (n % 2 ^ k) = 0 ∨ 2 * (n % 2 ^ k) = 2 ^ k

/-- One more digit is dropped. -/
theorem Shifted.succ (h : Shifted n k a) : Shifted n (k + 1) a.shiftRightOne := by
  have hlt : n % 2 ^ k < 2 ^ k := Nat.mod_lt _ (Nat.two_pow_pos k)
  have hmod : n % 2 ^ (k + 1) = n % 2 ^ k + 2 ^ k * (n / 2 ^ k % 2) := Nat.mod_pow_succ
  have hdigit : n / 2 ^ k % 2 = 0 ∨ n / 2 ^ k % 2 = 1 := Nat.mod_two_eq_zero_or_one _
  have hpower : 2 ^ (k + 1) = 2 * 2 ^ k := Nat.pow_succ'
  refine ⟨?_, ?_, ?_⟩
  · change a.mantissa / 2 = n / 2 ^ (k + 1)
    rw [h.mantissa, Nat.div_div_eq_div_mul, ← Nat.pow_succ]
  · change (a.mantissa % 2 != 0) = true ↔ _
    rw [h.mantissa, hmod, hpower, bne_iff_ne]
    rcases hdigit with hd | hd
    · rw [hd]
      omega
    · rw [hd]
      omega
  · intro hsticky
    obtain ⟨hround, hrest⟩ := Bool.or_eq_false_iff.1 hsticky
    have hless : ¬ 2 ^ k ≤ 2 * (n % 2 ^ k) := fun hle => by
      rw [h.roundBit.2 hle] at hround
      cases hround
    -- less than a half and not more than nothing is nothing
    have hnothing : n % 2 ^ k = 0 := by
      rcases h.stickyBit hrest with hz | hhalf
      · omega
      · omega
    rw [hmod, hpower, hnothing]
    rcases hdigit with hd | hd
    · exact Or.inl (by rw [hd, Nat.mul_zero, Nat.mul_zero])
    · exact Or.inr (by rw [hd, Nat.mul_one, Nat.zero_add])

theorem shifted (n k : Nat) : Shifted n k (ExtendedMantissa.ofMantissaAndAccuracy n .exact >>> k) := by
  induction k with
  | zero =>
    refine ⟨(Nat.div_one n).symm, ?_, fun _ => Or.inl ?_⟩
    · change false = true ↔ 2 ^ 0 ≤ 2 * (n % 2 ^ 0)
      rw [Nat.pow_zero, Nat.mod_one]
      exact ⟨fun h => (Bool.false_ne_true h).elim, by omega⟩
    · rw [Nat.pow_zero, Nat.mod_one]
  | succ k ih => exact ih.succ

/-- **A shifted number is rounded** to one of those nearest to it. -/
theorem Shifted.nearest (h : Shifted n k a) :
    2 * (a.roundedMantissa * 2 ^ k) ≤ 2 * n + 2 ^ k ∧
      2 * n ≤ 2 * (a.roundedMantissa * 2 ^ k) + 2 ^ k := by
  have hlt : n % 2 ^ k < 2 ^ k := Nat.mod_lt _ (Nat.two_pow_pos k)
  have hsplit : a.mantissa * 2 ^ k + n % 2 ^ k = n := by
    rw [h.mantissa]
    exact Nat.div_add_mod' n (2 ^ k)
  have hup : (a.mantissa + 1) * 2 ^ k = a.mantissa * 2 ^ k + 2 ^ k := Nat.succ_mul _ _
  rcases a with ⟨m, _ | _, s⟩
  · -- less than a half is dropped
    have hless : ¬ 2 ^ k ≤ 2 * (n % 2 ^ k) := fun hle => Bool.false_ne_true (h.roundBit.2 hle)
    have hr : ExtendedMantissa.roundedMantissa ⟨m, false, s⟩ = m := by cases s <;> rfl
    rw [hr]
    dsimp only at hsplit
    omega
  · have hhalf := h.roundBit.1 rfl
    rcases roundedMantissa_cases ⟨m, true, s⟩ with hr | hr
    · -- a half that is dropped is just a half
      have hs : s = false := by
        cases s with
        | false => rfl
        | true =>
          change m + 1 = m at hr
          omega
      have hequal := h.stickyBit hs
      rw [hr]
      dsimp only at hsplit ⊢
      omega
    · rw [hr, hup]
      dsimp only at hsplit ⊢
      omega

/-! ## The nearest mantissa -/

/-- **A mantissa nearest to a number**, where the leading digit of the number is that of
the mantissa, or of the power of two that the mantissa has come to. -/
structure NearestMantissa (n r : Nat) : Prop where
  lower : 2 ^ 52 ≤ r
  upper : r ≤ 2 ^ 53
  above : 2 * (r * 2 ^ n.log2) ≤ 2 * (n * 2 ^ 52) + 2 ^ n.log2
  below : 2 * (n * 2 ^ 52) ≤ 2 * (r * 2 ^ n.log2) + 2 ^ n.log2

/-- The double nearest to a number is packed from a nearest mantissa. -/
theorem exists_unpack_ofNat (hpos : n ≠ 0) (hlt : n < 2 ^ 64) :
    ∃ r, NearestMantissa n r ∧ ∃ h : IsNormal (carried r (n.log2 - 52)).1 (carried r (n.log2 - 52)).2,
      (Float.ofNat n).toModel.unpack =
        .finite .positive (carried r (n.log2 - 52)).1 (carried r (n.log2 - 52)).2 h.pos := by
  by_cases hshort : n < 2 ^ 53
  · have h := isNormal_of_lt hpos hshort
    have hlog := (Nat.log2_lt hpos).2 hshort
    have hexact : n * 2 ^ (52 - n.log2) * 2 ^ n.log2 = n * 2 ^ 52 := by
      rw [Nat.mul_assoc, ← Nat.pow_add, show 52 - n.log2 + n.log2 = 52 by omega]
    have hcarried : carried (n * 2 ^ (52 - n.log2)) (n.log2 - 52) =
        (n * 2 ^ (52 - n.log2), (-(52 - n.log2 : Nat) : Int)) := by
      rw [carried_of_ne (Nat.ne_of_lt h.upper)]
      congr 1
      omega
    refine ⟨n * 2 ^ (52 - n.log2), ⟨h.lower, Nat.le_of_lt h.upper, ?_, ?_⟩, ?_⟩
    · rw [hexact]
      exact Nat.le_add_right _ _
    · rw [hexact]
      exact Nat.le_add_right _ _
    · rw [hcarried]
      exact ⟨h, unpack_ofNat_short hpos hshort⟩
  · have hge := Nat.le_of_not_lt hshort
    have hlog := (Nat.log2_lt hpos).2 hlt
    have hlower : 53 ≤ n.log2 := (Nat.le_log2 hpos).2 hge
    obtain ⟨c, hc⟩ := Nat.exists_eq_add_of_le (show 52 ≤ n.log2 by omega)
    have hscaledLower : 2 ^ (52 + (c + 53)) ≤ n * 2 ^ 53 := by
      rw [show 52 + (c + 53) = n.log2 + 53 by omega, Nat.pow_add]
      exact Nat.mul_le_mul_right _ (Nat.log2_self_le hpos)
    have hscaledUpper : n * 2 ^ 53 < 2 ^ (53 + (c + 53)) := by
      rw [show 53 + (c + 53) = n.log2 + 1 + 53 by omega, Nat.pow_add]
      exact Nat.mul_lt_mul_of_pos_right Nat.lt_log2_self (Nat.two_pow_pos 53)
    obtain ⟨h, hround, hrange⟩ := roundWithAccuracy_long (t := c) hscaledLower hscaledUpper
      (by omega) (by omega) .positive rfl
    have hnear := (shifted (n * 2 ^ 53) (c + 53)).nearest
    generalize ExtendedMantissa.roundedMantissa _ = r at h hround hrange hnear
    have hexponent : (c : Int) - ((c + 53 : Nat) : Int) = -53 := by omega
    have htarget : (n.log2 : Int) - 52 = c := by omega
    rw [hexponent] at hround
    -- the number was rounded with 53 zeros after it, one more than it is compared with
    have hpower : 2 ^ (c + 53) = 2 * 2 ^ n.log2 := by
      rw [show c + 53 = n.log2 + 1 by omega, Nat.pow_succ']
    have hdouble : ∀ m : Nat, m * (2 * 2 ^ n.log2) = 2 * (m * 2 ^ n.log2) := fun m =>
      Nat.mul_left_comm m 2 _
    rw [hpower, hdouble] at hnear
    refine ⟨r, ⟨hrange.1, hrange.2, by omega, by omega⟩, ?_⟩
    rw [htarget]
    refine ⟨h, ?_⟩
    rw [toModel_ofNat_of_ge hge, hround, h.unpack_pack]

/-! ## Monotone rounding -/

/-- Of two numbers of one length, the greater is not rounded below the smaller. -/
theorem NearestMantissa.le (h : NearestMantissa n r) (h' : NearestMantissa n' r') (hlt : n < n')
    (hlog : n.log2 = n'.log2) : r ≤ r' := by
  by_contra hgt
  have hstep : r' * 2 ^ n.log2 + 2 ^ n.log2 ≤ r * 2 ^ n.log2 := by
    rw [← Nat.succ_mul]
    exact Nat.mul_le_mul_right _ (Nat.lt_of_not_le hgt)
  have habove := h.above
  have hbelow := h'.below
  rw [← hlog] at hbelow
  omega

/-- **Rounding is monotone**, in the order of exponents and mantissas. -/
theorem NearestMantissa.carried_le (h : NearestMantissa n r) (h' : NearestMantissa n' r')
    (hlt : n < n') :
    (carried r (n.log2 - 52)).2 < (carried r' (n'.log2 - 52)).2 ∨
      (carried r (n.log2 - 52)).2 = (carried r' (n'.log2 - 52)).2 ∧
        (carried r (n.log2 - 52)).1 ≤ (carried r' (n'.log2 - 52)).1 := by
  have hlogs : n.log2 ≤ n'.log2 := by
    rw [Nat.log2_eq_log_two, Nat.log2_eq_log_two]
    exact Nat.log_mono_right hlt.le
  have hlower := h'.lower
  have hupper := h.upper
  rcases Nat.lt_or_eq_of_le hlogs with hless | hsame
  · -- the shorter one is at most carried to the exponent of the longer one
    rw [carried, carried]
    split
    · split
      · exact Or.inl (by dsimp only; omega)
      · dsimp only
        omega
    · split
      · exact Or.inl (by dsimp only; omega)
      · exact Or.inl (by dsimp only; omega)
  · have hle := h.le h' hlt hsame
    have hupper' := h'.upper
    rw [carried, carried, hsame]
    split
    · rename_i hr
      have hr' : r' = 2 ^ 53 := by omega
      rw [if_pos hr']
      exact Or.inr ⟨rfl, Nat.le_refl _⟩
    · split
      · exact Or.inl (by dsimp only; omega)
      · exact Or.inr ⟨rfl, hle⟩

/-! ## The places of integers -/

theorem place?_ofInt64_zero (hi : i.toInt = 0) : place? (ofInt64 i) = some (.at 0 0 0) := by
  rw [ofInt64, hi]
  rfl

theorem exists_place_ofInt64_pos (hi : 0 < i.toInt) : ∃ r, NearestMantissa i.toInt.natAbs r ∧
    place? (ofInt64 i) = some (.at 1 (carried r (i.toInt.natAbs.log2 - 52)).2
      (carried r (i.toInt.natAbs.log2 - 52)).1) := by
  have hle := natAbs_toInt_le i
  obtain ⟨r, hr, h, hx⟩ := exists_unpack_ofNat (n := i.toInt.natAbs) (by omega) (by omega)
  refine ⟨r, hr, ?_⟩
  have hsame : ofInt64 i = Float.ofNat i.toInt.natAbs := by
    rw [ofInt64]
    cases hz : i.toInt with
    | ofNat n => rfl
    | negSucc n =>
      rw [hz] at hi
      exact absurd hi (Int.not_lt.2 (Int.negSucc_lt_zero n).le)
  rw [place?, hsame, hx]
  rfl

theorem exists_place_ofInt64_neg (hi : i.toInt < 0) : ∃ r, NearestMantissa i.toInt.natAbs r ∧
    place? (ofInt64 i) = some (.at (-1) (-(carried r (i.toInt.natAbs.log2 - 52)).2)
      (-(carried r (i.toInt.natAbs.log2 - 52)).1)) := by
  have hle := natAbs_toInt_le i
  obtain ⟨r, hr, h, hx⟩ := exists_unpack_ofNat (n := i.toInt.natAbs) (by omega) (by omega)
  refine ⟨r, hr, ?_⟩
  have hsame : ofInt64 i = Float.neg (Float.ofNat i.toInt.natAbs) := by
    rw [ofInt64]
    cases hz : i.toInt with
    | ofNat n =>
      rw [hz] at hi
      exact absurd hi (Int.not_lt.2 (Int.natCast_nonneg n))
    | negSucc n => rfl
  rw [place?, hsame, unpack_neg h hx]
  rfl

/-- **The places of integers are in their order**, or the same. -/
theorem exists_places_ofInt64 (hlt : i.toInt < j.toInt) :
    ∃ p q, place? (ofInt64 i) = some p ∧ place? (ofInt64 j) = some q ∧ p ≤ q := by
  rcases lt_trichotomy i.toInt 0 with hi | hi | hi
  · obtain ⟨r, hr, hp⟩ := exists_place_ofInt64_neg hi
    rcases lt_trichotomy j.toInt 0 with hj | hj | hj
    · -- below zero the greater integer is nearer to it
      obtain ⟨r', hr', hq⟩ := exists_place_ofInt64_neg hj
      have hcarried := hr'.carried_le hr (by omega)
      exact ⟨_, _, hp, hq, at_le_iff.2 (Or.inr ⟨rfl, by omega⟩)⟩
    · exact ⟨_, _, hp, place?_ofInt64_zero hj, at_le_iff.2 (Or.inl (by decide))⟩
    · obtain ⟨r', -, hq⟩ := exists_place_ofInt64_pos hj
      exact ⟨_, _, hp, hq, at_le_iff.2 (Or.inl (by decide))⟩
  · obtain ⟨r', -, hq⟩ := exists_place_ofInt64_pos (i := j) (by omega)
    exact ⟨_, _, place?_ofInt64_zero hi, hq, at_le_iff.2 (Or.inl (by decide))⟩
  · obtain ⟨r, hr, hp⟩ := exists_place_ofInt64_pos hi
    obtain ⟨r', hr', hq⟩ := exists_place_ofInt64_pos (i := j) (by omega)
    have hcarried := hr.carried_le hr' (by omega)
    exact ⟨_, _, hp, hq, at_le_iff.2 (Or.inr ⟨rfl, by omega⟩)⟩

/-- The double nearest to an integer is a number. -/
theorem compare_ofInt64_self (i : Int64) : compare (ofInt64 i) (ofInt64 i) = some .eq := by
  have hplace : ∃ p, place? (ofInt64 i) = some p := by
    rcases lt_trichotomy i.toInt 0 with hi | hi | hi
    · obtain ⟨r, -, hp⟩ := exists_place_ofInt64_neg hi
      exact ⟨_, hp⟩
    · exact ⟨_, place?_ofInt64_zero hi⟩
    · obtain ⟨r, -, hp⟩ := exists_place_ofInt64_pos hi
      exact ⟨_, hp⟩
  obtain ⟨p, hp⟩ := hplace
  rw [compare_eq, hp]
  exact congrArg some (compare_eq_iff_eq.2 rfl)

/-- **The doubles nearest to two integers** compare as the integers do, or are equal. -/
theorem compare_ofInt64 (h : i < j) :
    compare (ofInt64 i) (ofInt64 j) = some .lt ∨ compare (ofInt64 i) (ofInt64 j) = some .eq := by
  obtain ⟨p, q, hp, hq, hle⟩ := exists_places_ofInt64 (Int64.lt_iff_toInt_lt.1 h)
  rw [compare_eq, hp, hq]
  rcases hle.lt_or_eq with hless | rfl
  · exact Or.inl (congrArg some (compare_lt_iff_lt.2 hless))
  · exact Or.inr (congrArg some (compare_eq_iff_eq.2 rfl))

end Decimal

end WhatIf
