import WhatIf.Decimal.Binary64
import Mathlib
/-!
# Decimal — doubles, unpacked

A double computes as a sign, a mantissa and an exponent, into which its bits are
unpacked and out of which they are packed again. What is decoded from the bits is
the same (`decode_eq`), so what a computation comes to can be decoded without a
look at its bits. Doubles that compare as equal are the same, or are both zeros
(`sameNumber_of_compare`).
-/

namespace WhatIf

namespace Decimal

open Float.Model (Format UnpackedFloat)
open Float.Model.UnpackedFloat

variable {x y : Float}

/-! ## Decoding -/

/-- Whether a sign is that of the negative numbers. -/
def isMinus : Sign → Bool
  | .negative => true
  | .positive => false

/-- What an unpacked double denotes. -/
def Binary64.ofUnpacked : UnpackedFloat → Binary64
  | .notANumber => .nan
  | .infinity s => .infinite (isMinus s)
  | .zero s => .finite (isMinus s) 0 (-1074)
  | .finite s m e _ => .finite (isMinus s) m e

section

variable (b : BitVec 64)

theorem toNat_unpackMantissa : (@unpackMantissa Format.binary64 b).toNat = b.toNat % 2 ^ 52 := by
  rw [unpackMantissa, BitVec.toNat_cast, BitVec.extractLsb_toNat]
  rfl

theorem toNat_unpackExponent :
    (@unpackExponent Format.binary64 b).toNat = b.toNat / 2 ^ 52 % 2 ^ 11 := by
  rw [unpackExponent, BitVec.toNat_cast, BitVec.extractLsb_toNat, Nat.shiftRight_eq_div_pow]
  rfl

theorem toNat_unpackSign : (@unpackSign Format.binary64 b).toNat = b.toNat / 2 ^ 63 := by
  have hlt : b.toNat / 2 ^ 63 < 2 ^ 1 := by
    have := b.isLt
    omega
  rw [unpackSign, BitVec.toNat_cast, BitVec.extractLsb_toNat, Nat.shiftRight_eq_div_pow]
  exact Nat.mod_eq_of_lt hlt

end

theorem isMinus_unpackSign (x : Float) :
    isMinus (.ofBitVec (@unpackSign Format.binary64 x.toBits.toBitVec)) = isNegative x := by
  have hsign := toNat_unpackSign x.toBits.toBitVec
  have hbits : x.toBits.toBitVec.toNat = x.toBits.toNat := rfl
  have hpower : twoTo 63 = 2 ^ 63 := rfl
  rw [Sign.ofBitVec, isNegative]
  by_cases hneg : 2 ^ 63 ≤ x.toBits.toNat
  · have hne : @unpackSign Format.binary64 x.toBits.toBitVec ≠ 0#1 := by
      intro heq
      rw [heq, hbits, BitVec.toNat_zero] at hsign
      omega
    rw [if_neg hne]
    simpa [isMinus, hpower] using hneg
  · have heq : @unpackSign Format.binary64 x.toBits.toBitVec = 0#1 := by
      apply BitVec.eq_of_toNat_eq
      rw [hsign, hbits, BitVec.toNat_zero]
      omega
    rw [if_pos heq]
    simpa [isMinus, hpower] using hneg

/-- The leading bit of a mantissa stands before its fraction. -/
theorem toNat_implicit (f : BitVec 52) : (1#1 ++ f).toNat = 2 ^ 52 + f.toNat := by
  rw [BitVec.toNat_append, ← Nat.shiftLeft_add_eq_or_of_lt f.isLt, Nat.shiftLeft_eq]
  rfl

/-- **What is decoded from the bits** of a double is what they are unpacked into. -/
theorem decode_eq (x : Float) : decode x = .ofUnpacked x.toModel.unpack := by
  have hfraction : x.toBits.toNat % twoTo 52 =
      (@unpackMantissa Format.binary64 x.toBits.toBitVec).toNat :=
    (toNat_unpackMantissa x.toBits.toBitVec).symm
  have hfield : x.toBits.toNat / twoTo 52 % 2048 =
      (@unpackExponent Format.binary64 x.toBits.toBitVec).toNat :=
    (toNat_unpackExponent x.toBits.toBitVec).symm
  have hunpack : x.toModel.unpack = unpack Format.binary64 x.toBits.toBitVec := rfl
  have hzero : ∀ {n : Nat} (f : BitVec n), f.toNat = 0 ↔ f = 0#n := fun f => by
    rw [← BitVec.toNat_inj, BitVec.toNat_zero]
  have hgreatest : ∀ f : BitVec 11, f.toNat = 2047 ↔ f = -1#11 := fun f => by
    rw [← BitVec.toNat_inj]
    rfl
  rw [hunpack, unpack, decode, ← isMinus_unpackSign]
  dsimp only
  rw [hfraction, hfield]
  by_cases hmax : @unpackExponent Format.binary64 x.toBits.toBitVec = -1#11
  · rw [if_pos hmax, if_pos ((hgreatest _).2 hmax)]
    by_cases hf : @unpackMantissa Format.binary64 x.toBits.toBitVec = 0#52
    · rw [if_pos hf, if_pos ((hzero _).2 hf)]
      rfl
    · rw [if_neg hf, if_neg fun h => hf ((hzero _).1 h)]
      rfl
  rw [if_neg hmax, if_neg fun h => hmax ((hgreatest _).1 h)]
  by_cases hmin : @unpackExponent Format.binary64 x.toBits.toBitVec = 0#11
  · rw [if_pos hmin, if_pos ((hzero _).2 hmin)]
    by_cases hf : @unpackMantissa Format.binary64 x.toBits.toBitVec = 0#52
    · rw [dif_pos hf, (hzero _).2 hf]
      rfl
    · rw [dif_neg hf, (hzero _).2 hmin]
      rfl
  · rw [if_neg hmin, if_neg fun h => hmin ((hzero _).1 h), Binary64.ofUnpacked, toNat_implicit]
    rfl

/-! ## Equal doubles -/

/-- Whether two doubles are one number: they are the same, or both are zeros. -/
def SameNumber (x y : Float) : Prop := x = y ∨ (x = 0 ∧ y = -0) ∨ (x = -0 ∧ y = 0)

theorem SameNumber.symm (h : SameNumber x y) : SameNumber y x := by
  rcases h with rfl | ⟨rfl, rfl⟩ | ⟨rfl, rfl⟩
  · exact Or.inl rfl
  · exact Or.inr (Or.inr ⟨rfl, rfl⟩)
  · exact Or.inr (Or.inl ⟨rfl, rfl⟩)

/-- **Doubles that compare as equal** are one number. -/
theorem sameNumber_of_compare (h : compare x y = some .eq) : SameNumber x y := by
  have hbeq : (x == y) = true := by
    rw [compare] at h
    split at h
    · cases h
    split at h
    · cases h
    split at h
    · assumption
    · cases h
  obtain ⟨-, -, hsame⟩ := Float.beq_iff_ne_nan_and_eq.1 hbeq
  exact hsame

end Decimal

end WhatIf
