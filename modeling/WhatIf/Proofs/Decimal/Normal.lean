import WhatIf.Proofs.Decimal.Unpacked
/-!
# Decimal — normal doubles

A normal double has a mantissa of 53 bits. It is unpacked into what it was packed
from (`IsNormal.unpack_pack`), and rounding loses nothing of a number that has such
a mantissa, whatever number of zeros follows it (`IsNormal.roundWithAccuracy`). A
longer number is rounded to a normal double of its own length, or to the power of
two next to it (`exists_roundWithAccuracy`).
-/

namespace WhatIf

namespace Decimal

open Float.Model (Format UnpackedFloat totalExponent)
open Float.Model.UnpackedFloat

variable {m n k : Nat} {e t : Int}

/-! ## Normal doubles -/

/-- **A normal double**: a mantissa of 53 bits, with an exponent within the range of
the format. -/
structure IsNormal (m : Nat) (e : Int) : Prop where
  lower : 2 ^ 52 ≤ m
  upper : m < 2 ^ 53
  least : -1074 ≤ e
  greatest : e ≤ 971

namespace IsNormal

variable (h : IsNormal m e)

include h

theorem pos : 0 < m := by
  have := h.lower
  omega

theorem log2 : m.log2 = 52 :=
  (Nat.log2_eq_iff (Nat.ne_of_gt h.pos)).2 ⟨h.lower, h.upper⟩

theorem log2_mul_two_pow (k : Nat) : (m * 2 ^ k).log2 = 52 + k := by
  have hpower : 2 ^ (52 + k) = 2 ^ 52 * 2 ^ k := Nat.pow_add 2 52 k
  have hnext : 2 ^ (52 + k + 1) = 2 ^ 53 * 2 ^ k := by
    rw [show 52 + k + 1 = 53 + k by omega, Nat.pow_add]
  refine (Nat.log2_eq_iff ?_).2 ⟨?_, ?_⟩
  · exact Nat.ne_of_gt (Nat.mul_pos h.pos (Nat.two_pow_pos k))
  · rw [hpower]
    exact Nat.mul_le_mul_right _ h.lower
  · rw [hnext]
    exact Nat.mul_lt_mul_of_pos_right h.upper (Nat.two_pow_pos k)

/-- The field in which the exponent of a normal double is packed. -/
theorem field_toNat :
    (BitVec.ofNat 11 (e + 1075).toNat).toNat = (e + 1075).toNat ∧
      0 < (e + 1075).toNat ∧ (e + 1075).toNat < 2047 := by
  have hleast := h.least
  have hgreatest := h.greatest
  refine ⟨?_, by omega, by omega⟩
  rw [BitVec.toNat_ofNat]
  exact Nat.mod_eq_of_lt (by omega)

/-- The fields of a normal double. -/
theorem pack_eq (s : Sign) : pack Format.binary64 (.finite s m e h.pos) =
    packComponents Format.binary64 s (BitVec.ofNat 11 (e + 1075).toNat) (BitVec.ofNat 52 m) := by
  obtain ⟨-, -, hfield⟩ := h.field_toNat
  have hbias : e + (Format.binary64.exponentBias : Int) +
      (Format.binary64.mantissaBitsWithoutImplicit : Int) = e + 1075 := by
    change e + 1023 + 52 = e + 1075
    omega
  have hinfinite : ¬ 2 ^ Format.binary64.exponentBits ≤ (e + 1075).toNat + 1 := by
    change ¬ 2048 ≤ (e + 1075).toNat + 1
    omega
  have hwidth : 52 + 1 = Format.binary64.mantissaBits := rfl
  rw [pack]
  dsimp only
  rw [hbias, h.log2, if_neg hinfinite, if_pos hwidth]

/-- The fraction of a normal double, with the leading bit before it, is the
mantissa. -/
theorem toNat_fraction : (1#1 ++ BitVec.ofNat 52 m).toNat = m := by
  have hlower := h.lower
  have hupper := h.upper
  rw [toNat_implicit, BitVec.toNat_ofNat]
  omega

/-- **A normal double is unpacked** into what it was packed from. -/
theorem unpack_pack (s : Sign) : (Float.Model.pack (.finite s m e h.pos)).unpack =
    .finite s m e h.pos := by
  obtain ⟨hfield, hpos, hlt⟩ := h.field_toNat
  have hnonmax : BitVec.ofNat 11 (e + 1075).toNat ≠ -1#11 := by
    intro heq
    rw [heq] at hfield
    change 2047 = _ at hfield
    omega
  have hnonzero : BitVec.ofNat 11 (e + 1075).toNat ≠ 0#11 := by
    intro heq
    rw [heq, BitVec.toNat_zero] at hfield
    omega
  have hexponent : ((BitVec.ofNat 11 (e + 1075).toNat).toNat : Int) -
      ((Format.binary64.exponentBias : Int) +
        (Format.binary64.mantissaBitsWithoutImplicit : Int)) = e := by
    rw [hfield]
    change ((e + 1075).toNat : Int) - (1023 + 52) = e
    omega
  change unpack Format.binary64 (pack Format.binary64 (.finite s m e h.pos)) = _
  rw [h.pack_eq, unpack]
  dsimp only
  simp only [unpackExponent_packComponents, unpackMantissa_packComponents]
  rw [if_neg hnonmax, if_neg hnonzero, unpackSign_packComponents, Sign.ofBitVec_toBitVec, hexponent]
  congr 1
  exact h.toNat_fraction

end IsNormal

/-! ## The exponent to round to -/

theorem targetExponent_eq (n : Nat) (e : Int) :
    Format.binary64.targetExponent (totalExponent n e) = max (n.log2 + e - 52) (-1074) := by
  have hmin : Format.binary64.minExponent = -1074 := rfl
  have hbits : Format.binary64.mantissaBits = 53 := rfl
  rw [Format.targetExponent, totalExponent, hmin, hbits]
  omega

/-- A number is shifted by as many places as its exponent is short of the one to round
to. -/
theorem shiftToTargetExponent_eq
    (htarget : Format.binary64.targetExponent (totalExponent n (t - k)) = t) :
    shiftToTargetExponent Format.binary64 n (t - k) .exact =
      (ExtendedMantissa.ofMantissaAndAccuracy n .exact >>> k, t) := by
  have hamount : (t - (t - (k : Int))).toNat = k := by omega
  have hexponent : t - (k : Int) + (k : Int) = t := by omega
  rw [shiftToTargetExponent, htarget, shiftToExponent, hamount, hexponent]

/-! ## Rounding what is a double -/

/-- A mantissa with zeros after it is shifted over them with nothing lost. -/
theorem shiftRight_mul_two_pow (m k : Nat) :
    ExtendedMantissa.ofMantissaAndAccuracy (m * 2 ^ k) .exact >>> k =
      ExtendedMantissa.ofMantissaAndAccuracy m .exact := by
  -- the last shift is the one outside: the mantissa before it is twice the one after
  induction k generalizing m with
  | zero => rw [Nat.pow_zero, Nat.mul_one]; rfl
  | succ k ih =>
    change ExtendedMantissa.shiftRightOne
      (ExtendedMantissa.ofMantissaAndAccuracy (m * 2 ^ (k + 1)) .exact >>> k) = _
    rw [Nat.pow_succ', ← Nat.mul_assoc, ih]
    simp [ExtendedMantissa.shiftRightOne, ExtendedMantissa.ofMantissaAndAccuracy]

namespace IsNormal

variable (h : IsNormal m e)

include h

theorem shiftToTargetExponent (k : Nat) :
    shiftToTargetExponent Format.binary64 (m * 2 ^ k) (e - k) .exact =
      (⟨m, false, false⟩, e) := by
  have hleast := h.least
  have htarget : Format.binary64.targetExponent (totalExponent (m * 2 ^ k) (e - k)) = e := by
    rw [targetExponent_eq, h.log2_mul_two_pow]
    omega
  rw [shiftToTargetExponent_eq htarget, shiftRight_mul_two_pow]
  rfl

/-- Of the two shifts of a rounding, the second takes off the zeros of a mantissa that
was rounded up to a longer one. -/
theorem roundWithAccuracy_of_first {f : Int} {a : ExtendedMantissa}
    (hfirst : UnpackedFloat.shiftToTargetExponent Format.binary64 n f .exact = (a, t))
    (hrounded : a.roundedMantissa = m * 2 ^ k) (he : t = e - k) (s : Sign) :
    UnpackedFloat.roundWithAccuracy Format.binary64 s n f .exact = .finite s m e h.pos := by
  rw [UnpackedFloat.roundWithAccuracy, hfirst]
  dsimp only
  rw [hrounded, he, h.shiftToTargetExponent]
  exact dif_neg (Nat.ne_of_gt h.pos)

/-- **Rounding loses nothing** of a normal double with zeros after its mantissa. -/
theorem roundWithAccuracy (s : Sign) (k : Nat) :
    roundWithAccuracy Format.binary64 s (m * 2 ^ k) (e - k) .exact = .finite s m e h.pos := by
  have hrounded : ExtendedMantissa.roundedMantissa ⟨m, false, false⟩ = m * 2 ^ 0 :=
    (Nat.mul_one m).symm
  exact h.roundWithAccuracy_of_first (h.shiftToTargetExponent k) hrounded (Int.sub_zero e).symm s

end IsNormal

/-! ## Rounding what is longer -/

/-- A shifted mantissa is divided by a power of two. -/
theorem mantissa_shiftRight (a : ExtendedMantissa) (k : Nat) :
    (a >>> k).mantissa = a.mantissa / 2 ^ k := by
  induction k with
  | zero => exact (Nat.div_one a.mantissa).symm
  | succ k ih =>
    change (a >>> k).mantissa / 2 = a.mantissa / 2 ^ (k + 1)
    rw [ih, Nat.div_div_eq_div_mul, ← Nat.pow_succ]

/-- A mantissa is rounded to itself or to the next one. -/
theorem roundedMantissa_cases (a : ExtendedMantissa) :
    a.roundedMantissa = a.mantissa ∨ a.roundedMantissa = a.mantissa + 1 := by
  rw [ExtendedMantissa.roundedMantissa]
  cases a.accuracy with
  | exact => exact Or.inl rfl
  | inexact o =>
    cases o with
    | lt => exact Or.inl rfl
    | gt => exact Or.inr rfl
    | eq =>
      change a.mantissa + a.mantissa % 2 = _ ∨ a.mantissa + a.mantissa % 2 = _
      omega

/-- The mantissa and the exponent a rounded mantissa comes to: it may have become
one bit longer, and is then the next power of two. -/
def carried (r : Nat) (t : Int) : Nat × Int := if r = 2 ^ 53 then (2 ^ 52, t + 1) else (r, t)

theorem carried_of_ne {r : Nat} (h : r ≠ 2 ^ 53) : carried r t = (r, t) := if_neg h

theorem isNormal_carried {r : Nat} (hlower : 2 ^ 52 ≤ r) (hupper : r ≤ 2 ^ 53)
    (hleast : -1074 ≤ t) (hgreatest : t ≤ 970) : IsNormal (carried r t).1 (carried r t).2 := by
  rw [carried]
  split
  · exact ⟨Nat.le_refl (2 ^ 52), Nat.pow_lt_pow_succ (by decide), by dsimp only; omega,
      by dsimp only; omega⟩
  · exact ⟨hlower, by dsimp only; omega, hleast, by dsimp only; omega⟩

/-- **What a long number is rounded to**: its shifted mantissa, rounded. -/
theorem roundWithAccuracy_long (hlower : 2 ^ (52 + k) ≤ n) (hupper : n < 2 ^ (53 + k))
    (hleast : -1074 ≤ t) (hgreatest : t ≤ 970) (s : Sign) {r : Nat}
    (hr : (ExtendedMantissa.ofMantissaAndAccuracy n .exact >>> k).roundedMantissa = r) :
    ∃ h : IsNormal (carried r t).1 (carried r t).2,
      roundWithAccuracy Format.binary64 s n (t - k) .exact =
          .finite s (carried r t).1 (carried r t).2 h.pos ∧
        2 ^ 52 ≤ r ∧ r ≤ 2 ^ 53 := by
  have hpos : n ≠ 0 := Nat.ne_of_gt (Nat.lt_of_lt_of_le (Nat.two_pow_pos (52 + k)) hlower)
  have hlog : n.log2 = 52 + k :=
    (Nat.log2_eq_iff hpos).2 ⟨hlower, by rwa [show 52 + k + 1 = 53 + k by omega]⟩
  have htarget : Format.binary64.targetExponent (totalExponent n (t - k)) = t := by
    rw [targetExponent_eq, hlog]
    omega
  have hfirst := shiftToTargetExponent_eq htarget
  let a := ExtendedMantissa.ofMantissaAndAccuracy n .exact >>> k
  have ha : a.mantissa = n / 2 ^ k := mantissa_shiftRight _ k
  have halower : 2 ^ 52 ≤ a.mantissa := by
    rw [ha, Nat.le_div_iff_mul_le (Nat.two_pow_pos k), ← Nat.pow_add]
    exact hlower
  have haupper : a.mantissa < 2 ^ 53 := by
    rw [ha, Nat.div_lt_iff_lt_mul (Nat.two_pow_pos k), ← Nat.pow_add]
    exact hupper
  have hrange : 2 ^ 52 ≤ r ∧ r ≤ 2 ^ 53 := by
    change a.roundedMantissa = r at hr
    rcases roundedMantissa_cases a with ha' | ha'
    · exact ⟨by omega, by omega⟩
    · exact ⟨by omega, by omega⟩
  have h := isNormal_carried hrange.1 hrange.2 hleast hgreatest
  refine ⟨h, ?_, hrange⟩
  -- the mantissa overflows only when it is rounded up to the next power of two
  by_cases hover : r = 2 ^ 53
  · refine h.roundWithAccuracy_of_first hfirst (k := 1) ?_ ?_ s
    · rw [hr, hover]
      rfl
    · rw [carried, if_pos hover]
      dsimp only
      omega
  · refine h.roundWithAccuracy_of_first hfirst (k := 0) ?_ ?_ s
    · rw [hr, carried_of_ne hover]
      exact (Nat.mul_one _).symm
    · rw [carried_of_ne hover]
      exact (Int.sub_zero t).symm

/-- It is a normal double of the same length, or else the least one that is
longer. -/
theorem exists_roundWithAccuracy (hlower : 2 ^ (52 + k) ≤ n) (hupper : n < 2 ^ (53 + k))
    (hleast : -1074 ≤ t) (hgreatest : t ≤ 970) (s : Sign) :
    ∃ m e, ∃ h : IsNormal m e,
      roundWithAccuracy Format.binary64 s n (t - k) .exact = .finite s m e h.pos ∧
        (e = t ∨ m = 2 ^ 52 ∧ e = t + 1) := by
  obtain ⟨h, hround, -⟩ := roundWithAccuracy_long hlower hupper hleast hgreatest s rfl
  refine ⟨_, _, h, hround, ?_⟩
  rw [carried]
  split
  · exact Or.inr ⟨rfl, rfl⟩
  · exact Or.inl rfl

end Decimal

end WhatIf
