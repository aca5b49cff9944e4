import WhatIf.Proofs.Datum
import WhatIf.Proofs.Decimal.Whole
import WhatIf.Partition.Bound
/-!
# Partition — equal values and their hashes

Hash partitioning should not tell apart what compares as equal. Values of one kind
it does not: equal doubles are hashed as one integer or have the same bits, and both
zeros are hashed as `0`. An integer meets a double as the double nearest to it, and
there it must be that double (`MeetsExactly`): the two are hashed as the same bytes
if, and only if, it is (`hashBytes_eq_iff`). An integer beyond 53 bits may compare as
equal to a double that is another integer, and go to another partition.
-/

namespace WhatIf

namespace Checksum

variable {v w : UInt64}

theorem byte_eq (h : bytesOfWord v = bytesOfWord w) {i : Nat} (hi : i < 8) :
    v.toNat / 2 ^ (8 * i) % 256 = w.toNat / 2 ^ (8 * i) % 256 := by
  have heq := congrArg UInt8.toNat (List.map_inj_left.1 h i (List.mem_range.2 hi))
  have hshift : (8 * i).toUInt64.toNat % 64 = 8 * i := by
    change 8 * i % 2 ^ 64 % 64 = 8 * i
    omega
  rw [UInt64.toNat_toUInt8, UInt64.toNat_toUInt8, UInt64.toNat_shiftRight,
    UInt64.toNat_shiftRight, hshift, Nat.shiftRight_eq_div_pow, Nat.shiftRight_eq_div_pow] at heq
  exact heq

/-- The highest bytes are the same number, however many are taken. -/
theorem high_eq (h : bytesOfWord v = bytesOfWord w) (k : Nat) (hk : k ≤ 8) :
    v.toNat / 2 ^ (8 * (8 - k)) = w.toNat / 2 ^ (8 * (8 - k)) := by
  induction k with
  | zero => rw [Nat.div_eq_of_lt v.toNat_lt, Nat.div_eq_of_lt w.toNat_lt]
  | succ k ih =>
    have hrest := ih (Nat.le_of_succ_le hk)
    have hnext := byte_eq h (show 8 - (k + 1) < 8 by omega)
    have hpower : 8 * (8 - k) = 8 * (8 - (k + 1)) + 8 := by omega
    rw [hpower, Nat.pow_add, ← Nat.div_div_eq_div_mul, ← Nat.div_div_eq_div_mul] at hrest
    omega

/-- **The bytes of a word determine it.** -/
theorem bytesOfWord_inj (h : bytesOfWord v = bytesOfWord w) : v = w := by
  have hwhole := high_eq h 8 (Nat.le_refl 8)
  rw [Nat.sub_self, Nat.mul_zero, Nat.pow_zero, Nat.div_one, Nat.div_one] at hwhole
  exact UInt64.toNat_inj.1 hwhole

end Checksum

namespace Datum

open Decimal (FitsMantissa SameNumber)

variable {a b : Datum} {i j : Int64} {x y : Float} {row row' : List Datum}

/-- Whether an integer meets a double as the integer it is, and is not rounded. Values
of one kind always do. -/
def MeetsExactly : Datum → Datum → Prop
  | int i, float _ => FitsMantissa i.toInt.natAbs
  | float _, int i => FitsMantissa i.toInt.natAbs
  | _, _ => True

/-! ## The bytes of equal values -/

theorem intBytes_inj (h : intBytes i = intBytes j) : i = j :=
  congrArg Int64.ofUInt64 (Checksum.bytesOfWord_inj h)

/-- Equal doubles are hashed as the same bytes. -/
theorem hashBytes_float_eq (h : SameNumber x y) : (float x).hashBytes = (float y).hashBytes := by
  rcases h with rfl | ⟨rfl, rfl⟩ | ⟨rfl, rfl⟩
  · rfl
  · decide +kernel
  · decide +kernel

/-- An integer and the double nearest to it are hashed as the same bytes if, and only
if, the integer fits a mantissa. -/
theorem hashBytes_int_eq_iff (h : SameNumber (Decimal.ofInt64 i) x) :
    (int i).hashBytes = (float x).hashBytes ↔ FitsMantissa i.toInt.natAbs := by
  rw [← h.int64?_eq_some_iff, hashBytes, hashBytes]
  cases hx : Decimal.int64? x with
  | some j =>
    dsimp only
    constructor
    · intro heq
      rw [intBytes_inj heq]
    · intro heq
      rw [Option.some.inj heq]
  | none =>
    constructor
    · intro heq
      have hword : i.toUInt64 = x.toBits := Checksum.bytesOfWord_inj heq
      rcases h with rfl | ⟨-, rfl⟩ | ⟨-, rfl⟩
      · -- the double is then `2^63`, whose bits are those of an integer that fits
        have hi : i = Int64.ofUInt64 (1086 * 2 ^ 52) := by
          rw [← Decimal.toBits_ofInt64 hx, ← hword]
        have hfits : FitsMantissa i.toInt.natAbs := by
          rw [hi]
          decide +kernel
        rw [← hx]
        exact Decimal.int64?_ofInt64 hfits
      · exact absurd hx (by decide +kernel)
      · exact absurd hx (by decide +kernel)
    · intro heq
      cases heq

/-- **Equal values are hashed as the same bytes** if, and only if, no integer among
them is rounded to meet a double. -/
theorem hashBytes_eq_iff (h : a.compare? b = some .eq) :
    a.hashBytes = b.hashBytes ↔ a.MeetsExactly b := by
  cases a with
  | float x =>
    cases b with
    | float y => exact iff_of_true (hashBytes_float_eq (Decimal.sameNumber_of_compare h)) trivial
    | int i =>
      rw [eq_comm]
      exact hashBytes_int_eq_iff (Decimal.sameNumber_of_compare h).symm
    | _ => cases h
  | int i =>
    cases b with
    | float y => exact hashBytes_int_eq_iff (Decimal.sameNumber_of_compare h)
    | int j =>
      rw [eq_of_compare?_eq rfl rfl h]
      exact iff_of_true rfl trivial
    | _ => cases h
  | null => cases h
  | bool p =>
    cases b with
    | bool q =>
      rw [eq_of_compare?_eq rfl rfl h]
      exact iff_of_true rfl trivial
    | _ => cases h
  | text p =>
    cases b with
    | text q =>
      rw [eq_of_compare?_eq rfl rfl h]
      exact iff_of_true rfl trivial
    | _ => cases h

/-! ## Rows -/

/-- The hash of a row depends on the hashes of its values alone. -/
theorem rowHash_congr (h : row.map partitionHash = row'.map partitionHash) :
    rowHash row = rowHash row' := by
  have hmap : ∀ r : List Datum, rowHash r = (r.map partitionHash).foldl (· * 31 + ·) 0 := by
    intro r
    rw [List.foldl_map]
    rfl
  rw [hmap, hmap, h]

end Datum

/-- **Hash partitions** route rows by their hashes alone. -/
theorem PartitionDesc.route?_congr {d : PartitionDesc} {row row' : List Datum}
    (hd : ∀ b ∈ d.bounds, b.strategy? = some .hash ∨ b.isDefault = true)
    (h : Datum.rowHash row = Datum.rowHash row') : d.route? row = d.route? row' := by
  have hcontains : ∀ b ∈ d.bounds, b.contains row = b.contains row' := by
    intro b hb
    cases b with
    | hash modulus remainder => rw [Bound.contains, Bound.contains, h]
    | default => rfl
    | range => rcases hd _ hb with hk | hk <;> cases hk
    | list => rcases hd _ hb with hk | hk <;> cases hk
  -- the first bound that contains the row is the first true among the answers of all
  have hfind : ∀ r : List Datum, d.bounds.findIdx? (fun b => b.contains r) =
      (d.bounds.map fun b => b.contains r).findIdx? id := fun r =>
    (List.findIdx?_map (p := id) (f := fun b : Bound => b.contains r)).symm
  rw [route?, route?, hfind, hfind, List.map_congr_left hcontains]

/-! ## Equal values -/

namespace Datum

open Decimal (FitsMantissa)

variable {a b : Datum}

/-- **Values that compare as equal** are hashed as the same bytes if, and only if, no
integer among them is rounded to meet a double; and then they have the same hash, and
in the key of any row hash partitions do not tell them apart. -/
theorem hashed_alike_of_compare? (h : a.compare? b = some .eq) :
    (a.hashBytes = b.hashBytes ↔ a.MeetsExactly b) ∧
      (a.MeetsExactly b → a.partitionHash = b.partitionHash ∧
        ∀ (d : PartitionDesc) (before after : List Datum),
          (∀ c ∈ d.bounds, c.strategy? = some .hash ∨ c.isDefault = true) →
          d.route? (before ++ a :: after) = d.route? (before ++ b :: after)) := by
  refine ⟨hashBytes_eq_iff h, fun hexact => ?_⟩
  have hhash : a.partitionHash = b.partitionHash :=
    congrArg Checksum.crc32 ((hashBytes_eq_iff h).2 hexact)
  refine ⟨hhash, fun d before after hd => PartitionDesc.route?_congr hd (rowHash_congr ?_)⟩
  rw [List.map_append, List.map_append, List.map_cons, List.map_cons, hhash]

/-- `2^53` is one number as an integer and as a double, and so are the two zeros. -/
theorem hashed_alike_int_float :
    (int 9007199254740992).compare? (float 9007199254740992) = some .eq ∧
      (int 9007199254740992).partitionHash = (float 9007199254740992).partitionHash ∧
      (float (-0.0)).compare? (float 0) = some .eq ∧
      (float (-0.0)).partitionHash = (float 0).partitionHash := by
  have hint : (int 9007199254740992).compare? (float 9007199254740992) = some .eq := by
    decide +kernel
  have hzero : (float (-0.0)).compare? (float 0) = some .eq := by decide +kernel
  have hfits : FitsMantissa (9007199254740992 : Int64).toInt.natAbs := by decide +kernel
  exact ⟨hint, ((hashed_alike_of_compare? hint).2 hfits).1, hzero,
    ((hashed_alike_of_compare? hzero).2 trivial).1⟩

/-- **An integer beyond 53 bits** is equal to a double that is another integer, has
another hash, and goes to another of three hash partitions. -/
theorem hashed_apart :
    (int 9007199254740993).compare? (float 9007199254740992) = some .eq ∧
      (int 9007199254740993).partitionHash ≠ (float 9007199254740992).partitionHash ∧
      (PartitionDesc.ofParts [(⟨1⟩, .hash 3 0), (⟨2⟩, .hash 3 1), (⟨3⟩, .hash 3 2)]).route?
        [int 9007199254740993] = some 0 ∧
      (PartitionDesc.ofParts [(⟨1⟩, .hash 3 0), (⟨2⟩, .hash 3 1), (⟨3⟩, .hash 3 2)]).route?
        [float 9007199254740992] = some 2 := by
  decide +kernel

end Datum

end WhatIf
