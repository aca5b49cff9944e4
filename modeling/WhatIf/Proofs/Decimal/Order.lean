import WhatIf.Proofs.Datum
import WhatIf.Proofs.Decimal.Unpacked
/-!
# Decimal — the order of doubles

What a double is unpacked into has a place among all numbers: by its sign, then by
its exponent, then by its mantissa (`place?`). Two doubles compare as their places
do (`compare_eq`), and what is not a number has none. So the order of doubles turns
round when they are exchanged and is transitive.
-/

namespace WhatIf

namespace Decimal

open Float.Model (UnpackedFloat)
open Float.Model.UnpackedFloat

variable {x y z : Float} {o o' : Ordering}

/-! ## Places -/

/-- A place among the numbers: zero is in the middle, the finite numbers are around
it, and the infinite ones are at both ends. -/
abbrev Place : Type := ℤ ×ₗ ℤ ×ₗ ℤ

/-- The place with the given parts, the first of which counts most. -/
def Place.at (side exponent mantissa : ℤ) : Place := toLex (side, toLex (exponent, mantissa))

/-- The place of an unpacked double; what is not a number has none. -/
def unpackedPlace? : UnpackedFloat → Option Place
  | .notANumber => none
  | .infinity .negative => some (.at (-2) 0 0)
  | .finite .negative m e _ => some (.at (-1) (-e) (-m))
  | .zero _ => some (.at 0 0 0)
  | .finite .positive m e _ => some (.at 1 e m)
  | .infinity .positive => some (.at 2 0 0)

/-- The place of a double. -/
def place? (x : Float) : Option Place := unpackedPlace? x.toModel.unpack

section Place

variable {s s' e e' m m' : ℤ}

theorem at_le_iff : Place.at s e m ≤ .at s' e' m' ↔
    s < s' ∨ s = s' ∧ (e < e' ∨ e = e' ∧ m ≤ m') := by
  rw [Place.at, Place.at, Prod.Lex.toLex_le_toLex, Prod.Lex.toLex_le_toLex]

theorem compare_at : Ord.compare (Place.at s e m) (.at s' e' m') =
    (Ord.compare s s').then ((Ord.compare e e').then (Ord.compare m m')) := by
  rw [Place.at, Place.at, Prod.Lex.compare_def, compareLex]
  change (Ord.compare s s').then (Ord.compare (toLex (e, m)) (toLex (e', m'))) = _
  rw [Prod.Lex.compare_def]
  rfl

theorem compare_neg (a b : ℤ) : Ord.compare (-a) (-b) = (Ord.compare a b).swap := by
  rcases lt_trichotomy a b with h | rfl | h
  · rw [Int.compare_eq_lt.2 h, Int.compare_eq_gt.2 (Int.neg_lt_neg h)]
    rfl
  · rw [Int.compare_eq_eq.2 rfl, Int.compare_eq_eq.2 rfl]
    rfl
  · rw [Int.compare_eq_gt.2 h, Int.compare_eq_lt.2 (Int.neg_lt_neg h)]
    rfl

theorem compare_natCast (a b : ℕ) : Ord.compare (a : ℤ) b = Ord.compare a b := by
  rcases lt_trichotomy a b with h | rfl | h
  · rw [Nat.compare_eq_lt.2 h, Int.compare_eq_lt.2 (Int.ofNat_lt.2 h)]
  · rw [Nat.compare_eq_eq.2 rfl, Int.compare_eq_eq.2 rfl]
  · rw [Nat.compare_eq_gt.2 h, Int.compare_eq_gt.2 (Int.ofNat_lt.2 h)]

end Place

/-- Unpacked doubles compare as their places do. -/
theorem compare_unpacked (a b : UnpackedFloat) : a.compare b =
    (unpackedPlace? a).bind fun p => (unpackedPlace? b).map fun q => Ord.compare p q := by
  have hside : ∀ (s e e' m m' : ℤ), Ord.compare (Place.at s e m) (.at s e' m') =
      (Ord.compare e e').then (Ord.compare m m') := by
    intro s e e' m m'
    rw [compare_at, Int.compare_eq_eq.2 rfl]
    rfl
  -- the sides decide, unless both are finite and of one sign
  rcases a with (_ | _) | _ | _ | ⟨_ | _, m, e, hm⟩ <;>
    rcases b with (_ | _) | _ | _ | ⟨_ | _, m', e', hm'⟩ <;> try rfl
  case finite.negative.finite.negative =>
    change some ((Ord.compare e e').then (Ord.compare m m')).swap =
      some (Ord.compare (Place.at (-1) (-e) (-m)) (.at (-1) (-e') (-m')))
    rw [hside, compare_neg, compare_neg, compare_natCast, Ordering.swap_then]
  case finite.positive.finite.positive =>
    change some ((Ord.compare e e').then (Ord.compare m m')) =
      some (Ord.compare (Place.at 1 e m) (.at 1 e' m'))
    rw [hside, compare_natCast]

/-! ## The order -/

theorem lt_iff : x < y ↔ x.toModel.unpack.compare y.toModel.unpack = some .lt := by
  change decide (x.toModel < y.toModel) = true ↔ _
  rw [decide_eq_true_iff]
  exact beq_iff_eq

theorem beq_iff : (x == y) = true ↔ x.toModel.unpack.compare y.toModel.unpack = some .eq := by
  change (x.toModel.unpack.compare y.toModel.unpack == some .eq) = true ↔ _
  exact beq_iff_eq

/-- Places that may be missing compare the other way when they are exchanged. -/
theorem bind_compare_swap (p q : Option Place) :
    (q.bind fun q => p.map fun p => Ord.compare q p) =
      (p.bind fun p => q.map fun q => Ord.compare p q).map Ordering.swap := by
  rcases p with _ | p
  · rcases q with _ | q <;> rfl
  rcases q with _ | q
  · rfl
  · exact congrArg some Std.OrientedCmp.eq_swap

/-- **Doubles compare as their places do.** -/
theorem compare_eq (x y : Float) :
    compare x y = (place? x).bind fun p => (place? y).map fun q => Ord.compare p q := by
  have hback : y.toModel.unpack.compare x.toModel.unpack =
      (x.toModel.unpack.compare y.toModel.unpack).map Ordering.swap := by
    rw [compare_unpacked, compare_unpacked]
    exact bind_compare_swap _ _
  rw [place?, place?, ← compare_unpacked, compare]
  simp only [lt_iff, beq_iff, hback]
  rcases x.toModel.unpack.compare y.toModel.unpack with _ | _ | _ | _ <;> rfl

theorem exists_places (h : compare x y = some o) :
    ∃ p q, place? x = some p ∧ place? y = some q ∧ Ord.compare p q = o := by
  rw [compare_eq] at h
  obtain ⟨p, hp, h⟩ := Option.bind_eq_some_iff.1 h
  obtain ⟨q, hq, h⟩ := Option.map_eq_some_iff.1 h
  exact ⟨p, q, hp, hq, h⟩

/-- **The other way round**, two doubles compare the other way. -/
theorem compare_swap (x y : Float) : compare y x = (compare x y).map Ordering.swap := by
  rw [compare_eq, compare_eq]
  exact bind_compare_swap _ _

/-- **The order of doubles is transitive**, and strict where one step is. -/
theorem compare_then (hxy : compare x y = some o) (ho : o ≠ .gt) (hyz : compare y z = some o')
    (ho' : o' ≠ .gt) : compare x z = some (o.then o') := by
  obtain ⟨p, q, hp, hq, rfl⟩ := exists_places hxy
  obtain ⟨q', r, hq', hr, rfl⟩ := exists_places hyz
  obtain rfl := Option.some.inj (hq.symm.trans hq')
  rw [compare_eq, hp, hr]
  exact congrArg some (Datum.compare_then ho ho')

end Decimal

end WhatIf
