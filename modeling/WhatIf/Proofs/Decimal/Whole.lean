import WhatIf.Proofs.Decimal.Normal
/-!
# Decimal — whole doubles

An integer is a double if 53 bits hold what stands before its last zeros
(`FitsMantissa`). Such an integer is the one its double is read back as
(`int64?_ofInt64`), and no other integer is (`SameNumber.int64?_eq_some_iff`): the
nearest double is then another integer, or `2^63`, which 64 bits with a sign do not
hold (`toBits_ofInt64`).
-/

namespace WhatIf

namespace Decimal

open Float.Model (Format UnpackedFloat totalExponent)
open Float.Model.UnpackedFloat

variable {x y : Float} {i : Int64} {m n : Nat} {e : Int} {s : Bool}

/-! ## Numbers that fit a mantissa -/

/-- **A natural number that fits a mantissa**: 53 bits, and zeros after them. -/
def FitsMantissa (n : Nat) : Prop := ∃ m k, m < 2 ^ 53 ∧ n = m * 2 ^ k

theorem fitsMantissa_of_lt (h : n < 2 ^ 53) : FitsMantissa n := ⟨n, 0, h, (Nat.mul_one n).symm⟩

theorem lt_two_pow_of_log2 (n : Nat) : n < 2 ^ (53 + (n.log2 - 52)) :=
  Nat.lt_of_lt_of_le Nat.lt_log2_self (Nat.pow_le_pow_right (by decide) (by omega))

theorem div_two_pow_lt (n : Nat) : n / 2 ^ (n.log2 - 52) < 2 ^ 53 := by
  rw [Nat.div_lt_iff_lt_mul (Nat.two_pow_pos _), ← Nat.pow_add]
  exact lt_two_pow_of_log2 n

theorem fitsMantissa_iff : FitsMantissa n ↔ n % 2 ^ (n.log2 - 52) = 0 := by
  constructor
  · rintro ⟨m, k, hm, rfl⟩
    by_cases hzero : m * 2 ^ k = 0
    · rw [hzero, Nat.zero_mod]
    have hlt : m * 2 ^ k < 2 ^ (53 + k) := by
      rw [Nat.pow_add]
      exact Nat.mul_lt_mul_of_pos_right hm (Nat.two_pow_pos k)
    have hlog := (Nat.log2_lt hzero).2 hlt
    have hdvd : 2 ^ ((m * 2 ^ k).log2 - 52) ∣ 2 ^ k := Nat.pow_dvd_pow 2 (by omega)
    exact Nat.mod_eq_zero_of_dvd (Nat.dvd_trans hdvd (Nat.dvd_mul_left _ m))
  · intro h
    exact ⟨n / 2 ^ (n.log2 - 52), n.log2 - 52, div_two_pow_lt n,
      (Nat.div_mul_cancel (Nat.dvd_of_mod_eq_zero h)).symm⟩

instance : Decidable (FitsMantissa n) := decidable_of_iff _ fitsMantissa_iff.symm

/-- A long number that fits a mantissa is a normal double. -/
theorem FitsMantissa.exists_isNormal (h : FitsMantissa n) (hge : 2 ^ 53 ≤ n) (hlt : n < 2 ^ 64) :
    ∃ m k : Nat, IsNormal m k ∧ n = m * 2 ^ k := by
  have hpos : n ≠ 0 := by omega
  have hlog := (Nat.log2_lt hpos).2 hlt
  have hself := Nat.log2_self_le hpos
  have hlower : 53 ≤ n.log2 := (Nat.le_log2 hpos).2 hge
  refine ⟨n / 2 ^ (n.log2 - 52), n.log2 - 52, ⟨?_, div_two_pow_lt n, by omega, by omega⟩, ?_⟩
  · rw [Nat.le_div_iff_mul_le (Nat.two_pow_pos _), ← Nat.pow_add,
      show 52 + (n.log2 - 52) = n.log2 by omega]
    exact hself
  · exact (Nat.div_mul_cancel (Nat.dvd_of_mod_eq_zero (fitsMantissa_iff.1 h))).symm

/-! ## The magnitude of a whole double -/

/-- Zeros that a negative exponent takes off again. -/
theorem wholeMagnitude?_mul_two_pow (n k : Nat) : wholeMagnitude? (n * 2 ^ k) (-k) = some n := by
  have hpower : ∀ j, twoTo j = 2 ^ j := fun _ => rfl
  cases k with
  | zero => exact congrArg some (by rw [hpower, Nat.pow_zero, Nat.mul_one, Nat.mul_one])
  | succ k =>
    change (if n * 2 ^ (k + 1) % twoTo (k + 1) = 0 then some (n * 2 ^ (k + 1) / twoTo (k + 1))
      else none) = some n
    rw [hpower, if_pos (Nat.mul_mod_left n _), Nat.mul_div_cancel n (Nat.two_pow_pos _)]

theorem fitsMantissa_of_wholeMagnitude? (hm : m < 2 ^ 53) (h : wholeMagnitude? m e = some n) :
    FitsMantissa n := by
  cases e with
  | ofNat k => exact ⟨m, k, hm, (Option.some.inj h).symm⟩
  | negSucc k =>
    rw [wholeMagnitude?] at h
    split at h
    · have hn : m / twoTo (k + 1) = n := Option.some.inj h
      rw [← hn]
      exact fitsMantissa_of_lt (Nat.lt_of_le_of_lt (Nat.div_le_self m _) hm)
    · cases h

/-- The mantissa of a double has at most 53 bits. -/
theorem mantissa_lt_of_decode (h : decode x = .finite s m e) : m < 2 ^ 53 := by
  have hpower : twoTo 52 = 2 ^ 52 := rfl
  have hfraction : x.toBits.toNat % 2 ^ 52 < 2 ^ 52 := Nat.mod_lt _ (Nat.two_pow_pos 52)
  rw [decode, hpower] at h
  split at h
  · split at h <;> cases h
  · split at h
    · cases h
      omega
    · cases h
      omega

/-! ## The double nearest to a natural number -/

/-- Zeros after a short number make a mantissa of 53 bits. -/
theorem isNormal_of_lt (hpos : n ≠ 0) (hlt : n < 2 ^ 53) :
    IsNormal (n * 2 ^ (52 - n.log2)) (-(52 - n.log2 : Nat)) := by
  have hlog := (Nat.log2_lt hpos).2 hlt
  have hlower := Nat.mul_le_mul_right (2 ^ (52 - n.log2)) (Nat.log2_self_le hpos)
  have hupper := Nat.mul_lt_mul_of_pos_right (Nat.lt_log2_self (n := n))
    (Nat.two_pow_pos (52 - n.log2))
  rw [← Nat.pow_add] at hlower hupper
  rw [show n.log2 + (52 - n.log2) = 52 by omega] at hlower
  rw [show n.log2 + 1 + (52 - n.log2) = 53 by omega] at hupper
  exact ⟨hlower, hupper, by omega, by omega⟩

theorem round_of_lt (hpos : n ≠ 0) (hlt : n < 2 ^ 53) (s : Sign) :
    UnpackedFloat.round Format.binary64 s n 0 =
      .finite s (n * 2 ^ (52 - n.log2)) (-(52 - n.log2 : Nat)) (isNormal_of_lt hpos hlt).pos := by
  have hlog := (Nat.log2_lt hpos).2 hlt
  have htarget : Format.binary64.targetExponent (totalExponent n 0) = -(52 - n.log2 : Nat) := by
    rw [targetExponent_eq]
    omega
  have hshift : ((0 : Int) - -((52 - n.log2 : Nat) : Int)).toNat = 52 - n.log2 := by omega
  have hexact := (isNormal_of_lt hpos hlt).roundWithAccuracy s 0
  rw [Nat.pow_zero, Nat.mul_one, Int.natCast_zero, Int.sub_zero] at hexact
  rw [UnpackedFloat.round, htarget, decreaseExponent, hshift, Nat.shiftLeft_eq, Int.zero_sub]
  exact hexact

theorem unpack_toFloat_of_lt (hpos : n ≠ 0) (hlt : n < 2 ^ 53) :
    n.toUInt64.toFloat.toModel.unpack = .finite .positive (n * 2 ^ (52 - n.log2))
      (-(52 - n.log2 : Nat)) (isNormal_of_lt hpos hlt).pos := by
  have hword : n.toUInt64.toNat = n := Nat.mod_eq_of_lt (Nat.lt_trans hlt (by decide))
  have hcompare : Ord.compare (n : Int) 0 = .gt := Int.compare_eq_gt.2 (by omega)
  change (Float.Model.pack (UnpackedFloat.normalize Format.binary64 (n.toUInt64.toNat : Int) 0
    .positive)).unpack = _
  rw [hword, UnpackedFloat.normalize, hcompare]
  dsimp only
  rw [Int.toNat_natCast, round_of_lt hpos hlt, (isNormal_of_lt hpos hlt).unpack_pack]

/-- A product with one changes no normal double. -/
theorem IsNormal.unpack_mul_one {e : Int} (h : IsNormal m e)
    (hx : x.toModel.unpack = .finite .positive m e h.pos) :
    (x * Float.ofBits 0x3FF0000000000000).toModel.unpack = .finite .positive m e h.pos := by
  have hone : (Float.ofBits 0x3FF0000000000000).toModel.unpack =
      .finite .positive (2 ^ 52) (-52) (by decide) := rfl
  change (Float.Model.pack (UnpackedFloat.mul Format.binary64 x.toModel.unpack
    (Float.ofBits 0x3FF0000000000000).toModel.unpack)).unpack = _
  rw [hx, hone]
  change (Float.Model.pack (UnpackedFloat.roundWithAccuracy Format.binary64 .positive
    (m * 2 ^ 52) (e - (52 : Nat)) .exact)).unpack = _
  rw [h.roundWithAccuracy, h.unpack_pack]

/-- Up to 53 bits, a number is converted as a word, and multiplied by one. -/
theorem unpack_ofNat_short (hpos : n ≠ 0) (hlt : n < 2 ^ 53) :
    (Float.ofNat n).toModel.unpack = .finite .positive (n * 2 ^ (52 - n.log2))
      (-(52 - n.log2 : Nat)) (isNormal_of_lt hpos hlt).pos := by
  have hproduct : Float.ofNat n = n.toUInt64.toFloat * Float.ofBits 0x3FF0000000000000 := by
    change Float.ofScientific n false 0 = _
    rw [Float.ofScientific, dif_pos ⟨hlt, by omega⟩]
    rfl
  rw [hproduct]
  exact (isNormal_of_lt hpos hlt).unpack_mul_one (unpack_toFloat_of_lt hpos hlt)

theorem unpack_ofNat_of_lt (hpos : n ≠ 0) (hlt : n < 2 ^ 53) :
    ∃ m e, ∃ h : IsNormal m e,
      (Float.ofNat n).toModel.unpack = .finite .positive m e h.pos ∧
        wholeMagnitude? m e = some n :=
  ⟨_, _, isNormal_of_lt hpos hlt, unpack_ofNat_short hpos hlt, wholeMagnitude?_mul_two_pow n _⟩

/-- From 53 bits on, a number is rounded once, with 53 zeros after it. -/
theorem toModel_ofNat_of_ge (hge : 2 ^ 53 ≤ n) :
    (Float.ofNat n).toModel =
      .pack (roundWithAccuracy Format.binary64 .positive (n * 2 ^ 53) (-53) .exact) := by
  have hpos : n ≠ 0 := by omega
  have hslow : (Float.ofNat n).toModel = Float.Model.ofScientific n 0 := by
    change (Float.ofScientific n false 0).toModel = _
    rw [Float.ofScientific, dif_neg fun h => by omega]
    rfl
  have hleast : ¬ (0 : Int) < -((2 ^ Format.binary64.exponentBits : Int) + n.log2) := by
    change ¬ (0 : Int) < -(2048 + n.log2)
    omega
  rw [hslow, Float.Model.ofScientific, UnpackedFloat.ofScientific, dif_neg hpos,
    if_neg (by decide), if_neg hleast, if_pos (by decide), UnpackedFloat.mul]
  change Float.Model.pack (roundWithAccuracy Format.binary64 .positive (n <<< 53 * 1) (-53)
    .exact) = _
  rw [Nat.mul_one, Nat.shiftLeft_eq]

theorem unpack_ofNat_of_ge (hge : 2 ^ 53 ≤ n) (hlt : n < 2 ^ 64) (hfits : FitsMantissa n) :
    ∃ m e, ∃ h : IsNormal m e,
      (Float.ofNat n).toModel.unpack = .finite .positive m e h.pos ∧
        wholeMagnitude? m e = some n := by
  obtain ⟨m, k, h, rfl⟩ := hfits.exists_isNormal hge hlt
  refine ⟨m, k, h, ?_, rfl⟩
  have hround := h.roundWithAccuracy .positive (k + 53)
  have hexponent : (k : Int) - ((k + 53 : Nat) : Int) = -53 := by omega
  rw [Nat.pow_add, ← Nat.mul_assoc, hexponent] at hround
  rw [toModel_ofNat_of_ge hge, hround, h.unpack_pack]

/-- **A number that does not fit** is rounded to a normal double that is a multiple of
two, and no longer than the number unless it is a power of two. -/
theorem toModel_ofNat_of_not_fits (hfits : ¬ FitsMantissa n) (hlt : n < 2 ^ 63) :
    ∃ m k : Nat, ∃ h : IsNormal m k,
      (Float.ofNat n).toModel = .pack (.finite .positive m k h.pos) ∧
        (k ≤ 10 ∨ m = 2 ^ 52 ∧ k = 11) := by
  have hge : 2 ^ 53 ≤ n := Nat.le_of_not_lt fun h => hfits (fitsMantissa_of_lt h)
  have hpos : n ≠ 0 := by omega
  have hlog := (Nat.log2_lt hpos).2 hlt
  have hlower : 53 ≤ n.log2 := (Nat.le_log2 hpos).2 hge
  have hself := Nat.log2_self_le hpos
  let c := n.log2 - 52
  have hscaledLower : 2 ^ (52 + (c + 53)) ≤ n * 2 ^ 53 := by
    rw [show 52 + (c + 53) = n.log2 + 53 by omega, Nat.pow_add]
    exact Nat.mul_le_mul_right _ hself
  have hscaledUpper : n * 2 ^ 53 < 2 ^ (53 + (c + 53)) := by
    rw [← Nat.add_assoc, Nat.pow_add]
    exact Nat.mul_lt_mul_of_pos_right (lt_two_pow_of_log2 n) (Nat.two_pow_pos 53)
  obtain ⟨m, e, h, hround, he⟩ := exists_roundWithAccuracy hscaledLower hscaledUpper
    (t := c) (by omega) (by omega) .positive
  rw [show (c : Int) - ((c + 53 : Nat) : Int) = -53 by omega] at hround
  obtain ⟨k, rfl⟩ : ∃ k : Nat, e = k := ⟨e.toNat, by omega⟩
  refine ⟨m, k, h, ?_, by omega⟩
  rw [toModel_ofNat_of_ge hge, hround]

/-! ## The double nearest to a 64-bit integer -/

theorem unpack_neg {m : Nat} {e : Int} (h : IsNormal m e) {s : Sign}
    (hx : x.toModel.unpack = .finite s m e h.pos) :
    (Float.neg x).toModel.unpack = .finite (-s) m e h.pos := by
  change (Float.Model.pack x.toModel.unpack.neg).unpack = _
  rw [hx]
  exact h.unpack_pack (-s)

/-- The double nearest to an integer has the sign of the integer. -/
theorem decode_ofInt64 (h : IsNormal m e)
    (hx : (Float.ofNat i.toInt.natAbs).toModel.unpack = .finite .positive m e h.pos) :
    decode (ofInt64 i) = .finite (decide (i.toInt < 0)) m e := by
  rw [ofInt64, decode_eq]
  cases hi : i.toInt with
  | ofNat n =>
    rw [hi] at hx
    change Binary64.ofUnpacked (Float.ofNat n).toModel.unpack = _
    rw [show Float.ofNat n = Float.ofNat (Int.ofNat n).natAbs from rfl, hx]
    rfl
  | negSucc n =>
    rw [hi] at hx
    change Binary64.ofUnpacked (Float.neg (Float.ofNat (Int.negSucc n).natAbs)).toModel.unpack = _
    rw [unpack_neg h hx, decide_eq_true (Int.negSucc_lt_zero n)]
    rfl

theorem natAbs_toInt_le (i : Int64) : i.toInt.natAbs ≤ 2 ^ 63 := by
  have hlower := i.le_toInt
  have hupper := i.toInt_lt
  omega

/-! ## Reading an integer back -/

theorem isInt64_iff {z : Int} : isInt64 z = true ↔ -2 ^ 63 ≤ z ∧ z < 2 ^ 63 := by
  have hpower : Int.ofNat (twoTo 63) = 2 ^ 63 := rfl
  rw [isInt64, hpower, Bool.and_eq_true, decide_eq_true_iff, decide_eq_true_iff]

theorem int64?_eq_some : int64? x = some i ↔ whole? x = some i.toInt := by
  rw [int64?]
  cases whole? x with
  | none => simp
  | some z =>
    dsimp only
    by_cases hz : isInt64 z = true
    · obtain ⟨hlower, hupper⟩ := isInt64_iff.1 hz
      have hback : (Int64.ofInt z).toInt = z := Int64.toInt_ofInt_of_le hlower hupper
      rw [if_pos hz, Option.some.injEq, Option.some.injEq]
      constructor
      · rintro rfl
        exact hback.symm
      · rintro rfl
        exact Int64.ofInt_toInt i
    · rw [if_neg hz]
      constructor
      · intro h
        cases h
      · intro h
        cases h
        exact absurd (isInt64_iff.2 ⟨i.le_toInt, i.toInt_lt⟩) hz

theorem int64?_ne_none {z : Int} (hz : whole? x = some z) (hlower : -2 ^ 63 ≤ z)
    (hupper : z < 2 ^ 63) : int64? x ≠ none := by
  rw [int64?, hz]
  dsimp only
  rw [if_pos (isInt64_iff.2 ⟨hlower, hupper⟩)]
  exact Option.some_ne_none _

theorem whole?_of_decode (h : decode x = .finite s m e) :
    whole? x = (wholeMagnitude? m e).map fun n => if s then -Int.ofNat n else Int.ofNat n := by
  rw [whole?, h]

/-- **An integer that fits a mantissa** is the one its double is read back as. -/
theorem int64?_ofInt64 (h : FitsMantissa i.toInt.natAbs) : int64? (ofInt64 i) = some i := by
  rw [int64?_eq_some]
  by_cases hzero : i.toInt.natAbs = 0
  · have hi : i.toInt = 0 := Int.natAbs_eq_zero.1 hzero
    rw [ofInt64, hi]
    decide +kernel
  have hle := natAbs_toInt_le i
  have hnormal : ∃ m e, ∃ h : IsNormal m e,
      (Float.ofNat i.toInt.natAbs).toModel.unpack = .finite .positive m e h.pos ∧
        wholeMagnitude? m e = some i.toInt.natAbs := by
    by_cases hlt : i.toInt.natAbs < 2 ^ 53
    · exact unpack_ofNat_of_lt hzero hlt
    · exact unpack_ofNat_of_ge (Nat.le_of_not_lt hlt) (by omega) h
  obtain ⟨m, e, hnormal, hx, hn⟩ := hnormal
  rw [whole?_of_decode (decode_ofInt64 hnormal hx), hn, Option.map_some, Int.ofNat_eq_natCast]
  by_cases hneg : i.toInt < 0
  · rw [decide_eq_true hneg, if_pos rfl]
    exact congrArg some (by omega)
  · rw [decide_eq_false hneg, if_neg (by decide)]
    exact congrArg some (by omega)

/-- A double that is an integer fits a mantissa. -/
theorem fitsMantissa_of_int64? (h : int64? x = some i) : FitsMantissa i.toInt.natAbs := by
  have hwhole := int64?_eq_some.1 h
  cases hx : decode x with
  | finite s m e =>
    rw [whole?_of_decode hx] at hwhole
    obtain ⟨n, hn, hi⟩ := Option.map_eq_some_iff.1 hwhole
    have habs : i.toInt.natAbs = n := by
      rw [← hi]
      cases s
      · exact Int.natAbs_natCast n
      · exact Int.natAbs_neg n
    rw [habs]
    exact fitsMantissa_of_wholeMagnitude? (mantissa_lt_of_decode hx) hn
  | nan => rw [whole?, hx] at hwhole; cases hwhole
  | infinite => rw [whole?, hx] at hwhole; cases hwhole

/-- One number is read back as one integer. -/
theorem SameNumber.int64?_eq (h : SameNumber x y) : int64? x = int64? y := by
  rcases h with rfl | ⟨rfl, rfl⟩ | ⟨rfl, rfl⟩
  · rfl
  · decide +kernel
  · decide +kernel

/-- **The integer a double is read back as** is the one it was nearest to if, and only
if, that one fits a mantissa. -/
theorem SameNumber.int64?_eq_some_iff (h : SameNumber (ofInt64 i) x) :
    int64? x = some i ↔ FitsMantissa i.toInt.natAbs := by
  constructor
  · exact fitsMantissa_of_int64?
  · intro hfits
    rw [← h.int64?_eq]
    exact int64?_ofInt64 hfits

/-- An integer whose nearest double is not a 64-bit integer has `2^63` for it. -/
theorem toBits_ofInt64 (hnone : int64? (ofInt64 i) = none) :
    (ofInt64 i).toBits = 1086 * 2 ^ 52 := by
  have hfits : ¬ FitsMantissa i.toInt.natAbs := by
    intro hfits
    rw [int64?_ofInt64 hfits] at hnone
    cases hnone
  have hlt : i.toInt.natAbs < 2 ^ 63 := by
    have hle := natAbs_toInt_le i
    have hne : i.toInt.natAbs ≠ 2 ^ 63 := fun heq => hfits ⟨1, 63, by decide, by omega⟩
    omega
  obtain ⟨m, k, hnormal, hmodel, hk⟩ := toModel_ofNat_of_not_fits hfits hlt
  have hwhole : whole? (ofInt64 i) = some (if decide (i.toInt < 0) then -((m * 2 ^ k : Nat) : Int)
      else ((m * 2 ^ k : Nat) : Int)) :=
    whole?_of_decode (decode_ofInt64 hnormal (by rw [hmodel, hnormal.unpack_pack]))
  rcases hk with hk | ⟨rfl, rfl⟩
  · have hsmall : m * 2 ^ k < 2 ^ 63 := by
      have hpower : 2 ^ k ≤ 2 ^ 10 := Nat.pow_le_pow_right (by decide) hk
      have hupper := hnormal.upper
      calc m * 2 ^ k ≤ m * 2 ^ 10 := Nat.mul_le_mul_left m hpower
        _ < 2 ^ 63 := by omega
    refine absurd hnone (int64?_ne_none hwhole ?_ ?_)
    · split <;> omega
    · split <;> omega
  · cases hi : i.toInt with
    | ofNat n =>
      rw [hi] at hmodel
      rw [ofInt64, hi]
      change (Float.ofNat (Int.ofNat n).natAbs).toModel.toBits = _
      rw [hmodel]
      rfl
    | negSucc n =>
      rw [hi, decide_eq_true (Int.negSucc_lt_zero n)] at hwhole
      exact absurd hnone (int64?_ne_none hwhole (by decide) (by decide))

end Decimal

end WhatIf
