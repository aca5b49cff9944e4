import WhatIf.Partition.Bound
import WhatIf.Proofs.Datum
import Mathlib.Data.List.Basic
/-!
# Partition — the order of ends

The ends of ranges are compared column by column, a value with values of its
own kind, and with both extremes. Among ends that hold no doubles this is an
order: it answers for any two ends along the same columns, it is transitive,
strictly so where one step is strict, it turns round when the ends are exchanged,
and only the same ends are equal in it (`compareEnds?_total`).
-/

namespace WhatIf

namespace RangeDatum

/-- Whether the end may stand over a column of the given type. -/
def isEndOf (e : RangeDatum) (t : DataType) : Bool :=
  match e with
  | value v => !v.isNull && v.fits t
  | _ => true

/-- Whether the end is no double. -/
def isExact : RangeDatum → Bool
  | value v => v.isExact
  | _ => true

variable {x y z : RangeDatum} {o o' : Ordering} {xs ys zs : List RangeDatum}

theorem isExact_of_isEndOf {t : DataType} (h : x.isEndOf t = true) (ht : t ≠ .float8) :
    x.isExact = true := by
  cases x with
  | value v => exact Datum.isExact_of_fits (Bool.and_eq_true_iff.1 h).2 ht
  | _ => rfl

/-- What is not above something not above is not above, and it is below if
either of the two is below. -/
theorem compare?_then (hx : x.isExact = true) (hy : y.isExact = true) (hz : z.isExact = true)
    (hxy : x.compare? y = some o) (ho : o ≠ .gt) (hyz : y.compare? z = some o') (ho' : o' ≠ .gt) :
    x.compare? z = some (o.then o') := by
  cases x <;> cases y <;> cases z <;>
    first
    | exact Datum.compare?_then hx hy hz hxy ho hyz ho'
    | cases o <;> cases o' <;> simp_all [compare?]

/-- The other way round, two ends compare the other way. -/
theorem compare?_swap (hx : x.isExact = true) (hy : y.isExact = true)
    (h : x.compare? y = some o) : y.compare? x = some o.swap := by
  cases x <;> cases y <;>
    first
    | exact Datum.compare?_swap hx hy h
    | (cases h; rfl)

/-- Two ends that compare as equal are the same. -/
theorem eq_of_compare?_eq (hx : x.isExact = true) (hy : y.isExact = true)
    (h : x.compare? y = some .eq) : x = y := by
  cases x <;> cases y <;>
    first
    | exact congrArg value (Datum.eq_of_compare?_eq hx hy h)
    | rfl
    | cases h

/-- Two ends of one column compare. -/
theorem exists_compare? {t : DataType} (hx : x.isEndOf t = true) (hy : y.isEndOf t = true)
    (ht : t ≠ .float8) : ∃ o, x.compare? y = some o := by
  cases x with
  | value v =>
    cases y with
    | value w =>
      obtain ⟨hv, hvt⟩ := Bool.and_eq_true_iff.1 hx
      obtain ⟨hw, hwt⟩ := Bool.and_eq_true_iff.1 hy
      exact Datum.exists_compare? hvt hwt (by simpa using hv) (by simpa using hw) ht
    | _ => exact ⟨_, rfl⟩
  | _ => cases y <;> exact ⟨_, rfl⟩

/-- The first column decides, unless the two ends agree there. -/
theorem compareEnds?_cons (h : compareEnds? (x :: xs) (y :: ys) = some o) :
    ∃ first, x.compare? y = some first ∧
      ((first = .eq ∧ compareEnds? xs ys = some o) ∨ (first ≠ .eq ∧ o = first)) := by
  rw [compareEnds?] at h
  split at h
  · rename_i heq
    exact ⟨.eq, heq, Or.inl ⟨rfl, h⟩⟩
  · rename_i hne
    exact ⟨o, h, Or.inr ⟨fun ho => hne (ho ▸ h), rfl⟩⟩

/-- **The order of ends is transitive**, and strict where one step is. -/
theorem compareEnds?_then (hxs : ∀ x ∈ xs, x.isExact = true) (hys : ∀ y ∈ ys, y.isExact = true)
    (hzs : ∀ z ∈ zs, z.isExact = true) (hxy : compareEnds? xs ys = some o) (ho : o ≠ .gt)
    (hyz : compareEnds? ys zs = some o') (ho' : o' ≠ .gt) :
    compareEnds? xs zs = some (o.then o') := by
  induction xs generalizing ys zs o o' with
  | nil =>
    cases ys with
    | nil =>
      obtain rfl := Option.some.inj hxy
      exact hyz
    | cons y ys =>
      obtain rfl := Option.some.inj hxy
      cases zs with
      | nil => exact absurd (Option.some.inj hyz).symm ho'
      | cons z zs => rfl
  | cons x xs ih =>
    rcases ys with _ | ⟨y, ys⟩
    · exact absurd (Option.some.inj hxy).symm ho
    rcases zs with _ | ⟨z, zs⟩
    · exact absurd (Option.some.inj hyz).symm ho'
    obtain ⟨p, hp, hrest⟩ := compareEnds?_cons hxy
    obtain ⟨p', hp', hrest'⟩ := compareEnds?_cons hyz
    have hle : p ≠ .gt := by
      rcases hrest with ⟨rfl, -⟩ | ⟨-, rfl⟩
      · decide
      · exact ho
    have hle' : p' ≠ .gt := by
      rcases hrest' with ⟨rfl, -⟩ | ⟨-, rfl⟩
      · decide
      · exact ho'
    rw [List.forall_mem_cons] at hxs hys hzs
    have hfirst := compare?_then hxs.1 hys.1 hzs.1 hp hle hp' hle'
    rw [compareEnds?, hfirst]
    rcases hrest with ⟨rfl, hxy⟩ | ⟨hne, rfl⟩
    · rcases hrest' with ⟨rfl, hyz⟩ | ⟨hne', rfl⟩
      · exact ih hxs.2 hys.2 hzs.2 hxy ho hyz ho'
      · have hlt : o' = .lt := by
          cases o' with
          | lt => rfl
          | eq => exact absurd rfl hne'
          | gt => exact absurd rfl ho'
        subst hlt
        cases o with
        | gt => exact absurd rfl ho
        | _ => rfl
    · have hlt : o = .lt := by
        cases o with
        | lt => rfl
        | eq => exact absurd rfl hne
        | gt => exact absurd rfl ho
      rw [hlt]
      rfl

/-- The other way round, two ends of a range compare the other way. -/
theorem compareEnds?_swap (hxs : ∀ x ∈ xs, x.isExact = true) (hys : ∀ y ∈ ys, y.isExact = true)
    (h : compareEnds? xs ys = some o) : compareEnds? ys xs = some o.swap := by
  induction xs generalizing ys with
  | nil =>
    cases ys with
    | _ => rw [← Option.some.inj h]; rfl
  | cons x xs ih =>
    rcases ys with _ | ⟨y, ys⟩
    · rw [← Option.some.inj h]
      rfl
    obtain ⟨p, hp, hrest⟩ := compareEnds?_cons h
    rw [List.forall_mem_cons] at hxs hys
    rw [compareEnds?, compare?_swap hxs.1 hys.1 hp]
    rcases hrest with ⟨rfl, h⟩ | ⟨hne, rfl⟩
    · exact ih hxs.2 hys.2 h
    · cases o with
      | eq => exact absurd rfl hne
      | _ => rfl

/-- Ends that compare as equal are the same. -/
theorem eq_of_compareEnds?_eq (hxs : ∀ x ∈ xs, x.isExact = true) (hys : ∀ y ∈ ys, y.isExact = true)
    (h : compareEnds? xs ys = some .eq) : xs = ys := by
  induction xs generalizing ys with
  | nil =>
    cases ys with
    | nil => rfl
    | cons y ys => cases h
  | cons x xs ih =>
    rcases ys with _ | ⟨y, ys⟩
    · cases h
    rw [List.forall_mem_cons] at hxs hys
    obtain ⟨p, hp, ⟨rfl, hrest⟩ | ⟨hne, heq⟩⟩ := compareEnds?_cons h
    · rw [eq_of_compare?_eq hxs.1 hys.1 hp, ih hxs.2 hys.2 hrest]
    · exact absurd heq.symm hne

/-- What compares with itself is equal to itself. -/
theorem eq_of_compareEnds?_self (hxs : ∀ x ∈ xs, x.isExact = true)
    (h : compareEnds? xs xs = some o) : o = .eq := by
  have hswap := compareEnds?_swap hxs hxs h
  rw [h] at hswap
  cases o with
  | eq => rfl
  | _ => cases hswap

/-! ## Ends along columns -/

/-- **Ends that stand along columns**: each over a column of its own type, however
many there are. -/
def Along (types : Nat → DataType) (xs : List RangeDatum) : Prop :=
  ∀ (i : Nat) (x : RangeDatum), xs[i]? = some x → x.isEndOf (types i) = true

variable {types : Nat → DataType}

theorem along_nil : Along types [] := fun _ _ hx => by cases hx

theorem along_cons :
    Along types (x :: xs) ↔ x.isEndOf (types 0) = true ∧ Along (fun i => types (i + 1)) xs := by
  constructor
  · exact fun h => ⟨h 0 x rfl, fun i y hy => h (i + 1) y hy⟩
  · rintro ⟨hx, hxs⟩ (_ | i) y hy
    · obtain rfl := Option.some.inj hy
      exact hx
    · exact hxs i y hy

/-- The ends of a key stand along its columns. -/
theorem along_of_forall₂ {types : List DataType}
    (h : List.Forall₂ (fun x t => x.isEndOf t = true) xs types) :
    Along (fun i => types.getD i .bool) xs := by
  induction h with
  | nil => exact along_nil
  | cons hx _ ih => exact along_cons.2 ⟨hx, ih⟩

theorem Along.isExact (h : Along types xs) (htypes : ∀ i, types i ≠ .float8) :
    ∀ x ∈ xs, x.isExact = true := by
  intro x hx
  obtain ⟨i, hi⟩ := List.getElem?_of_mem hx
  exact isExact_of_isEndOf (h i x hi) (htypes i)

/-- **Two ends along the same columns compare**, also where one reaches further. -/
theorem Along.exists_compareEnds? (hxs : Along types xs) (hys : Along types ys)
    (htypes : ∀ i, types i ≠ .float8) : ∃ o, compareEnds? xs ys = some o := by
  induction xs generalizing ys types with
  | nil =>
    cases ys with
    | nil => exact ⟨.eq, rfl⟩
    | cons y ys => exact ⟨.lt, rfl⟩
  | cons x xs ih =>
    rcases ys with _ | ⟨y, ys⟩
    · exact ⟨.gt, rfl⟩
    obtain ⟨hx, hxs⟩ := along_cons.1 hxs
    obtain ⟨hy, hys⟩ := along_cons.1 hys
    obtain ⟨p, hp⟩ := exists_compare? hx hy (htypes 0)
    obtain ⟨o, ho⟩ := ih hxs hys fun i => htypes (i + 1)
    rw [compareEnds?, hp]
    cases p with
    | eq => exact ⟨o, ho⟩
    | _ => exact ⟨_, rfl⟩

/-- Two ends of one key compare. -/
theorem exists_compareEnds? {types : List DataType} (htypes : ∀ t ∈ types, t ≠ .float8)
    (hxs : List.Forall₂ (fun x t => x.isEndOf t = true) xs types)
    (hys : List.Forall₂ (fun y t => y.isEndOf t = true) ys types) :
    ∃ o, compareEnds? xs ys = some o := by
  refine (along_of_forall₂ hxs).exists_compareEnds? (along_of_forall₂ hys) fun i => ?_
  rw [List.getD_eq_getElem?_getD]
  cases ht : types[i]? with
  | none => decide
  | some t => exact htypes t (List.mem_of_getElem? ht)

/-- **Ends are totally ordered.** Any ends along columns without doubles, of whatever
lengths, compare; exchanged they compare the other way round; they compare as equal
if and only if they are the same; and two steps that do not go both ways make one. -/
theorem compareEnds?_total (htypes : ∀ i, types i ≠ .float8) (hxs : Along types xs)
    (hys : Along types ys) (hzs : Along types zs) :
    ∃ o o', compareEnds? xs ys = some o ∧ compareEnds? ys xs = some o.swap ∧
      (o = .eq ↔ xs = ys) ∧ compareEnds? ys zs = some o' ∧
        (o ≠ .gt ∧ o' ≠ .gt ∨ o ≠ .lt ∧ o' ≠ .lt → compareEnds? xs zs = some (o.then o')) := by
  have hx := hxs.isExact htypes
  have hy := hys.isExact htypes
  have hz := hzs.isExact htypes
  obtain ⟨o, ho⟩ := hxs.exists_compareEnds? hys htypes
  obtain ⟨o', ho'⟩ := hys.exists_compareEnds? hzs htypes
  refine ⟨o, o', ho, compareEnds?_swap hx hy ho, ⟨?_, ?_⟩, ho', ?_⟩
  · rintro rfl
    exact eq_of_compareEnds?_eq hx hy ho
  · rintro rfl
    exact eq_of_compareEnds?_self hx ho
  · rintro (⟨hle, hle'⟩ | ⟨hge, hge'⟩)
    · exact compareEnds?_then hx hy hz ho hle ho' hle'
    · -- a descent is a rise the other way round
      have hback := compareEnds?_then hz hy hx (compareEnds?_swap hy hz ho')
        (fun h => hge' (Ordering.swap_eq_gt.1 h)) (compareEnds?_swap hx hy ho)
        (fun h => hge (Ordering.swap_eq_gt.1 h))
      rw [compareEnds?_swap hz hx hback]
      cases o <;> cases o' <;> simp_all

/-- The types of a year and a site. -/
def yearThenSite : Nat → DataType
  | 0 => .int4
  | _ => .text

/-- Three ends of different lengths in a row. -/
theorem compareEnds?_total_yearThenSite :
    (∀ i, yearThenSite i ≠ .float8) ∧
      Along yearThenSite [.minValue, .value (.text "north")] ∧
      Along yearThenSite [.value (.int 2000)] ∧
      Along yearThenSite [.value (.int 2000), .minValue] ∧
      compareEnds? [.minValue, .value (.text "north")] [.value (.int 2000), .minValue] =
        some .lt := by
  have htypes : ∀ i, yearThenSite i ≠ .float8 := by
    rintro (_ | i)
    · decide
    · exact DataType.noConfusion
  have hxs : Along yearThenSite [.minValue, .value (.text "north")] :=
    along_cons.2 ⟨rfl, along_cons.2 ⟨rfl, along_nil⟩⟩
  have hys : Along yearThenSite [.value (.int 2000)] := along_cons.2 ⟨rfl, along_nil⟩
  have hzs : Along yearThenSite [.value (.int 2000), .minValue] :=
    along_cons.2 ⟨rfl, along_cons.2 ⟨rfl, along_nil⟩⟩
  obtain ⟨o, o', ho, -, -, ho', hthen⟩ := compareEnds?_total htypes hxs hys hzs
  obtain rfl : .lt = o := Option.some.inj ho
  obtain rfl : .lt = o' := Option.some.inj ho'
  exact ⟨htypes, hxs, hys, hzs, hthen (Or.inl ⟨by decide, by decide⟩)⟩

end RangeDatum

end WhatIf
