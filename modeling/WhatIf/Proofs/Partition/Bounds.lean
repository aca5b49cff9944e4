import WhatIf.Partition.Validity
import WhatIf.Proofs.Constraint.Soundness
import Mathlib.Logic.Function.Basic
/-!
# Partition — bounds and the rows within them

A row within a bound satisfies the constraints that follow from the bound. That
the constraints also speak of the row as it is, without doubles and with the
types of its columns, takes a bound that suits the key (`Bound.Suits`), which
validation sees to.
-/

namespace WhatIf

/-- On a list without repetition a function may have any values. -/
theorem exists_map_eq {α β : Type} [DecidableEq α] (d : β) {xs : List α} {ys : List β}
    (hdistinct : xs.Nodup) (hlength : ys.length = xs.length) : ∃ f : α → β, xs.map f = ys := by
  induction xs generalizing ys with
  | nil => exact ⟨fun _ => d, (List.length_eq_zero_iff.1 hlength).symm⟩
  | cons x xs ih =>
    obtain ⟨hnew, hdistinct⟩ := List.nodup_cons.1 hdistinct
    rcases ys with _ | ⟨y, ys⟩
    · cases hlength
    obtain ⟨f, hf⟩ := ih hdistinct (Nat.succ.inj hlength)
    have hothers : ∀ z ∈ xs, Function.update f x y z = f z := by
      intro z hz
      refine Function.update_of_ne ?_ _ _
      rintro rfl
      exact hnew hz
    exact ⟨Function.update f x y, by
      rw [List.map_cons, Function.update_self, List.map_congr_left hothers, hf]⟩

/-- **A row of a relation**: each column holds `NULL` or a value of its type,
and there is nothing elsewhere. -/
structure Relation.Row (r : Relation) where
  /-- The value of a column. -/
  value : AttNum → Datum
  typed : ∀ c ∈ r.columns, (value c.attnum).isOf c.type = true
  absent : ∀ a, (∀ c ∈ r.columns, c.attnum ≠ a) → value a = .null

/-- That no column of a relation is of doubles. -/
def Relation.IsExact (r : Relation) : Prop := ∀ c ∈ r.columns, c.type ≠ .float8

instance (r : Relation) : Decidable r.IsExact :=
  inferInstanceAs (Decidable (∀ c ∈ r.columns, c.type ≠ .float8))

/-- The rows of a relation without doubles hold none. -/
theorem Relation.Row.isExact {r : Relation} (row : r.Row) (hr : r.IsExact) (a : AttNum) :
    (row.value a).isExact = true := by
  by_cases hmem : ∃ c ∈ r.columns, c.attnum = a
  · obtain ⟨c, hc, rfl⟩ := hmem
    exact Datum.isExact_of_isOf (row.typed c hc) (hr c hc)
  · rw [row.absent a fun c hc heq => hmem ⟨c, hc, heq⟩]
    rfl

/-! ## Keys -/

namespace PartitionKey

/-- That a key is made of columns of a relation. -/
def IsKeyOf (key : PartitionKey) (r : Relation) : Prop :=
  ∃ columns : List Column, columns ≠ [] ∧ (∀ c ∈ columns, c ∈ r.columns) ∧
    key.attnums = columns.map (fun c => c.attnum) ∧ key.types = columns.map (fun c => c.type) ∧
    key.names = columns.map fun c => c.name

variable {key : PartitionKey} {r : Relation}

theorem IsKeyOf.type_ne (h : key.IsKeyOf r) (hr : r.IsExact) : ∀ t ∈ key.types, t ≠ .float8 := by
  obtain ⟨columns, -, hcolumns, -, htypes, -⟩ := h
  intro t ht
  rw [htypes] at ht
  obtain ⟨c, hc, rfl⟩ := List.mem_map.1 ht
  exact hr c (hcolumns c hc)

/-- The leading column is the first of the key. -/
theorem leading?_eq_some {column : AttNum × String} (h : key.leading? = some column) :
    ∃ attnums names, key.attnums = column.1 :: attnums ∧ key.names = column.2 :: names := by
  unfold leading? at h
  split at h
  · rename_i a as n ns hattnums hnames
    obtain rfl := Option.some.inj h
    exact ⟨as, ns, hattnums, hnames⟩
  · cases h

/-- The key values of a row are of the types of the key. -/
theorem IsKeyOf.typed (h : key.IsKeyOf r) (row : r.Row) :
    ∀ p ∈ key.attnums.zip key.types, (row.value p.1).isOf p.2 = true := by
  obtain ⟨columns, -, hcolumns, hattnums, htypes, -⟩ := h
  intro p hp
  rw [hattnums, htypes, List.zip_map', List.mem_map] at hp
  obtain ⟨c, hc, rfl⟩ := hp
  exact row.typed c (hcolumns c hc)

end PartitionKey

theorem Layout.resolveColumns_ok {r : Relation} {names : List String} {found columns : List Column}
    (h : resolveColumns r names found = .ok columns) (hfound : ∀ c ∈ found, c ∈ r.columns) :
    (∀ c ∈ columns, c ∈ r.columns) ∧ columns.length = found.length + names.length := by
  induction names generalizing found with
  | nil =>
    obtain rfl := Except.ok.inj h
    exact ⟨hfound, rfl⟩
  | cons name names ih =>
    rw [resolveColumns] at h
    split at h
    · cases h
    · rename_i c hc
      split at h
      · cases h
      · obtain ⟨hcolumns, hlength⟩ := ih h fun d hd => by
          rcases List.mem_append.1 hd with hd | hd
          · exact hfound d hd
          · rw [List.mem_singleton.1 hd]
            exact List.mem_of_find?_eq_some hc
        refine ⟨hcolumns, hlength.trans ?_⟩
        simp only [List.length_append, List.length_cons, List.length_nil]
        omega

theorem Layout.resolveColumns_nodup {r : Relation} {names : List String}
    {found columns : List Column} (h : resolveColumns r names found = .ok columns)
    (hfound : (found.map fun c => c.attnum).Nodup) : (columns.map fun c => c.attnum).Nodup := by
  induction names generalizing found with
  | nil =>
    obtain rfl := Except.ok.inj h
    exact hfound
  | cons name names ih =>
    rw [resolveColumns] at h
    split at h
    · cases h
    · rename_i c hc
      split at h
      · cases h
      · rename_i hnew
        refine ih h ?_
        have hnot : c.attnum ∉ found.map fun c => c.attnum := by simpa using hnew
        rw [List.map_append, List.map_singleton, List.nodup_append]
        refine ⟨hfound, by simp, fun a ha b hb heq => hnot ?_⟩
        rw [← List.mem_singleton.1 hb, ← heq]
        exact ha

/-- **A resolved key is one of the relation.** -/
theorem Layout.resolveKey_ok {r : Relation} {strategy : Strategy} {names : List String}
    {key : PartitionKey} (h : resolveKey r strategy names = .ok key) : key.IsKeyOf r := by
  unfold resolveKey at h
  split at h
  · cases h
  rename_i hnames
  split at h
  · cases h
  rcases hcolumns : resolveColumns r names [] with e | columns
  · rw [hcolumns] at h
    cases h
  rw [hcolumns] at h
  obtain ⟨hmem, hlength⟩ := resolveColumns_ok hcolumns (by simp)
  refine ⟨columns, ?_, hmem, ?_⟩
  · rintro rfl
    have hzero : names.length = 0 := by simpa using hlength.symm
    exact hnames (List.isEmpty_iff.2 (List.length_eq_zero_iff.1 hzero))
  · rw [← Except.ok.inj h]
    exact ⟨rfl, rfl, rfl⟩

section

variable {r : Relation} {strategy : Strategy} {names : List String} {key : PartitionKey}

/-- The columns of a resolved key are distinct. -/
theorem Layout.resolveKey_nodup (h : resolveKey r strategy names = .ok key) :
    key.attnums.Nodup := by
  unfold resolveKey at h
  split at h
  · cases h
  split at h
  · cases h
  rcases hcolumns : resolveColumns r names [] with e | columns
  · rw [hcolumns] at h
    cases h
  · rw [hcolumns] at h
    rw [← Except.ok.inj h]
    exact resolveColumns_nodup hcolumns List.nodup_nil

/-- The key of a list has one column. -/
theorem Layout.resolveKey_arity (h : resolveKey r .list names = .ok key) : key.arity = 1 := by
  unfold resolveKey at h
  split at h
  · cases h
  split at h
  · cases h
  rename_i hwide
  rcases hcolumns : resolveColumns r names [] with e | columns
  · rw [hcolumns] at h
    cases h
  · rw [hcolumns] at h
    obtain ⟨-, hlength⟩ := resolveColumns_ok hcolumns (by simp)
    rw [← Except.ok.inj h, PartitionKey.arity, List.length_map, hlength, List.length_nil,
      Nat.zero_add]
    exact not_ne_iff.1 fun hne => hwide ⟨rfl, hne⟩

/-- A key of one column. -/
theorem PartitionKey.IsKeyOf.exists_of_arity (h : key.IsKeyOf r) (harity : key.arity = 1) :
    ∃ strategy a type name, key = ⟨strategy, [a], [type], [name]⟩ := by
  obtain ⟨columns, -, -, hattnums, htypes, hnames⟩ := h
  rw [arity, hattnums, List.length_map] at harity
  obtain ⟨c, rfl⟩ := List.length_eq_one_iff.1 harity
  obtain ⟨strategy, attnums, types, names⟩ := key
  dsimp only at hattnums htypes hnames
  exact ⟨strategy, c.attnum, c.type, c.name, by rw [hattnums, htypes, hnames]; rfl⟩

end

namespace Bound

variable {b : Bound} {key : PartitionKey} {r : Relation}

/-- **A bound that suits a key**: the ends of a range have a place for each key
column, and every value fits the type of one. -/
def Suits (b : Bound) (key : PartitionKey) : Prop :=
  match b with
  | range lower upper => lower.length = key.arity ∧ upper.length = key.arity ∧
    ∀ v, .value v ∈ lower ++ upper → ∃ t ∈ key.types, v.fits t = true
  | list values => ∀ v ∈ values, ∃ t ∈ key.types, v.fits t = true
  | _ => True

/-! ## Rows within a bound -/

section Contains

variable {row : AttNum → Datum} {column : AttNum × String}

/-- A value of the list, or `NULL` where it is listed. -/
theorem holdsOf_listConstraint {values : List Datum}
    (h : (if (row column.1).isNull then values.any Datum.isNull
      else values.any (row column.1).equals) = true) :
    (listConstraint column values).HoldsOf row := by
  have hin : (row column.1).isNull = false →
      (ColumnTest.isIn (values.filter fun v => !v.isNull)).evaluate (row column.1) = some true := by
    intro hnull
    rw [hnull, if_neg Bool.false_ne_true] at h
    obtain ⟨v, hv, hequals⟩ := List.any_eq_true.1 h
    have hnot := (Datum.isNull_of_compare? (beq_iff_eq.1 hequals)).2
    have hany : (values.filter fun v => !v.isNull).any (row column.1).equals = true :=
      List.any_eq_true.2 ⟨v, List.mem_filter.2 ⟨hv, by rw [hnot]; rfl⟩, hequals⟩
    rw [ColumnTest.evaluate, hnull, if_neg Bool.false_ne_true, if_pos hany]
  unfold listConstraint
  dsimp only
  by_cases hnull : (row column.1).isNull = true
  · rw [if_pos hnull] at h
    rw [if_pos h]
    exact ⟨.isNull, List.mem_cons_self, congrArg some hnull⟩
  · have hnot : (row column.1).isNull = false := by simpa using hnull
    split
    · exact ⟨_, List.mem_cons_of_mem _ (List.mem_singleton_self _), hin hnot⟩
    · exact hin hnot

/-- A value of the leading column that is not below the lower end. -/
theorem holdsOf_lowerConstraint {lower ends : List RangeDatum} {o : Ordering}
    (h : RangeDatum.compareEnds? (.value (row column.1) :: ends) lower = some o) (ho : o ≠ .lt) :
    ∀ c ∈ lowerConstraint column lower, c.HoldsOf row := by
  rcases lower with _ | ⟨_ | low | _, lower⟩
  · simp [lowerConstraint]
  · simp [lowerConstraint]
  · intro c hc
    rw [List.mem_singleton.1 hc]
    show Option.map _ ((row column.1).compare? low) = some true
    rw [RangeDatum.compareEnds?, RangeDatum.compare?] at h
    rcases hcompare : (row column.1).compare? low with _ | o'
    · rw [hcompare] at h
      cases h
    · rw [hcompare] at h
      cases o' with
      | lt => exact absurd (Option.some.inj h).symm ho
      | _ => rfl
  · simp [lowerConstraint]

/-- No value is less than an end that is `MINVALUE` in every column. -/
theorem compareEnds?_minValues {ends : List Datum} {limits : List RangeDatum}
    (hlength : ends.length = limits.length) (hall : limits.all (· == .minValue) = true) :
    RangeDatum.compareEnds? (ends.map .value) limits ≠ some .lt := by
  rcases ends with _ | ⟨v, ends⟩
  · rw [List.length_eq_zero_iff.1 hlength.symm]
    decide
  · rcases limits with _ | ⟨_ | limit | _, limits⟩
    · cases hlength
    · intro h
      cases h
    · cases hall
    · cases hall

/-- A value of the leading column that is not above the upper end, and below
it if that leaves nothing to the other columns. -/
theorem holdsOf_upperConstraint {upper : List RangeDatum} {ends : List Datum}
    (hlength : ends.length + 1 = upper.length)
    (h : RangeDatum.compareEnds? (.value (row column.1) :: ends.map .value) upper = some .lt) :
    ∀ c ∈ upperConstraint column upper, c.HoldsOf row := by
  rcases upper with _ | ⟨_ | high | _, upper⟩
  · simp [upperConstraint]
  · simp [upperConstraint]
  · intro c hc
    rw [List.mem_singleton.1 hc]
    show Option.map _ ((row column.1).compare? high) = some true
    rw [RangeDatum.compareEnds?, RangeDatum.compare?] at h
    rcases hcompare : (row column.1).compare? high with _ | o
    · rw [hcompare] at h
      cases h
    · rw [hcompare] at h
      cases o with
      | lt =>
        split
        · rfl
        · rfl
      | eq =>
        rw [if_neg fun hall => compareEnds?_minValues (Nat.succ.inj hlength) hall h]
        rfl
      | gt => cases h
  · simp [upperConstraint]

end Contains

/-! ## The constraints of a bound -/

/-- **What a constraint of a bound can be.** -/
theorem mem_constraints {c : Constraint} (hc : c ∈ b.constraints key) :
    (∃ modulus remainder, b = hash modulus remainder ∧
      c = .hash key.attnums key.types modulus remainder) ∨
    ∃ column, key.leading? = some column ∧
      ((∃ values, b = list values ∧ c = listConstraint column values) ∨
      ∃ lower upper, b = range lower upper ∧
        ((∃ p ∈ key.attnums.zip key.names, c = .column ⟨p.1, p.2, .isNotNull⟩) ∨
          c ∈ lowerConstraint column lower ∨ c ∈ upperConstraint column upper)) := by
  unfold constraints at hc
  cases b with
  | default => cases hc
  | hash modulus remainder =>
    exact Or.inl ⟨modulus, remainder, rfl, List.mem_singleton.1 hc⟩
  | list values =>
    dsimp only at hc
    split at hc
    · cases hc
    · rename_i column hcolumn
      exact Or.inr ⟨column, hcolumn, Or.inl ⟨values, rfl, List.mem_singleton.1 hc⟩⟩
  | range lower upper =>
    dsimp only at hc
    split at hc
    · cases hc
    · rename_i column hcolumn
      refine Or.inr ⟨column, hcolumn, Or.inr ⟨lower, upper, rfl, ?_⟩⟩
      rcases List.mem_append.1 hc with hc | hc
      · rcases List.mem_append.1 hc with hc | hc
        · obtain ⟨p, hp, rfl⟩ := List.mem_map.1 hc
          exact Or.inl ⟨p, hp, rfl⟩
        · exact Or.inr (Or.inl hc)
      · exact Or.inr (Or.inr hc)

/-- The constraint of an end compares with a value of the end. -/
theorem mem_endConstraint {column : AttNum × String} {lower upper : List RangeDatum}
    {c : Constraint} (hc : c ∈ lowerConstraint column lower ∨ c ∈ upperConstraint column upper) :
    ∃ op v, .value v ∈ lower ++ upper ∧ c = .column ⟨column.1, column.2, .compare op v⟩ := by
  rcases hc with hc | hc
  · rcases lower with _ | ⟨_ | low | _, lower⟩
    · cases hc
    · cases hc
    · exact ⟨_, low, List.mem_cons_self, List.mem_singleton.1 hc⟩
    · cases hc
  · rcases upper with _ | ⟨_ | high | _, upper⟩
    · cases hc
    · cases hc
    · exact ⟨_, high, List.mem_append_right _ List.mem_cons_self, List.mem_singleton.1 hc⟩
    · cases hc

/-- **A row within a bound satisfies its constraints.** -/
theorem holdsOf_of_contains {row : AttNum → Datum}
    (harity : ∀ lower upper, b = range lower upper → upper.length = key.arity)
    (h : b.contains (key.attnums.map row) = true) : ∀ c ∈ b.constraints key, c.HoldsOf row := by
  intro c hc
  rcases mem_constraints hc with ⟨modulus, remainder, rfl, rfl⟩ | ⟨column, hcolumn, hrest⟩
  · exact beq_iff_eq.1 (Bool.and_eq_true_iff.1 h).2
  -- apart from a hash, constraints are on the leading column
  obtain ⟨attnums, names, hattnums, hnames⟩ := PartitionKey.leading?_eq_some hcolumn
  rw [hattnums] at h
  rcases hrest with ⟨values, rfl, rfl⟩ | ⟨lower, upper, rfl, hrest⟩
  · exact holdsOf_listConstraint h
  unfold contains at h
  dsimp only at h
  split at h
  · cases h
  rename_i hnull
  obtain ⟨hlower, hupper⟩ := Bool.and_eq_true_iff.1 h
  rcases hrest with ⟨p, hp, rfl⟩ | hc | hc
  · -- no key column is `NULL`
    rw [hattnums] at hp
    have hmem : row p.1 ∈ (column.1 :: attnums).map row := List.mem_map_of_mem (List.of_mem_zip hp).1
    have hnot : (row p.1).isNull = false := by
      simpa using List.any_eq_false.1 (by simpa using hnull) _ hmem
    show some (!(row p.1).isNull) = some true
    rw [hnot]
    rfl
  · -- the key values are not below the lower end, nor is the leading one
    rw [List.map_cons, List.map_cons] at hlower
    split at hlower
    · rename_i hgt
      exact holdsOf_lowerConstraint hgt (by decide) c hc
    · rename_i heq
      exact holdsOf_lowerConstraint heq (by decide) c hc
    · cases hlower
  · -- they are below the upper end; the leading one may be equal to it
    have hlength : (attnums.map row).length + 1 = upper.length := by
      rw [harity lower upper rfl, PartitionKey.arity, hattnums, List.length_map, List.length_cons]
    rw [List.map_cons, List.map_cons] at hupper
    exact holdsOf_upperConstraint hlength (beq_iff_eq.1 hupper) c hc

/-- The constraints of a suitable bound mention no double. -/
theorem Suits.isExact (h : b.Suits key) (hkey : key.IsKeyOf r) (hr : r.IsExact) :
    ∀ c ∈ b.constraints key, c.isExact = true := by
  have hfits : ∀ {v : Datum}, (∃ t ∈ key.types, v.fits t = true) → v.isExact = true := by
    rintro v ⟨t, ht, hv⟩
    exact Datum.isExact_of_fits hv (hkey.type_ne hr t ht)
  intro c hc
  rcases mem_constraints hc with ⟨modulus, remainder, rfl, rfl⟩ | ⟨column, -, ⟨values, rfl, rfl⟩ |
    ⟨lower, upper, rfl, ⟨p, -, rfl⟩ | hend⟩⟩
  · rfl
  · have hall : (ColumnTest.isIn (values.filter fun v => !v.isNull)).isExact = true :=
      List.all_eq_true.2 fun v hv => hfits (h v (List.mem_filter.1 hv).1)
    unfold listConstraint
    dsimp only
    split
    · refine List.all_eq_true.2 fun t ht => ?_
      rcases List.mem_cons.1 ht with rfl | ht
      · rfl
      · rw [List.mem_singleton.1 ht]
        exact hall
    · exact hall
  · rfl
  · obtain ⟨op, v, hv, rfl⟩ := mem_endConstraint hend
    exact hfits (h.2.2 v hv)

/-- The constraints of a bound are typed as the rows of the relation are. -/
theorem typed_constraints (hkey : key.IsKeyOf r) (row : r.Row) :
    ∀ c ∈ b.constraints key, c.Typed row.value := by
  intro c hc
  rcases mem_constraints hc with ⟨modulus, remainder, rfl, rfl⟩ | ⟨column, -, ⟨values, rfl, rfl⟩ |
    ⟨lower, upper, rfl, ⟨p, -, rfl⟩ | hend⟩⟩
  · exact hkey.typed row
  · unfold listConstraint
    dsimp only
    split
    · trivial
    · trivial
  · trivial
  · obtain ⟨op, v, -, rfl⟩ := mem_endConstraint hend
    trivial

/-- **A row is bound by the constraints of the bound it lies within**, or of a
default bound. -/
theorem Suits.binds (h : b.Suits key) (hkey : key.IsKeyOf r) (hr : r.IsExact) {row : r.Row}
    (hrow : b.contains (key.attnums.map row.value) = true ∨ b.isDefault = true) :
    ∀ c ∈ b.constraints key, c.Binds row.value := by
  intro c hc
  refine ⟨h.isExact hkey hr c hc, typed_constraints hkey row c hc, ?_⟩
  rcases hrow with hcontains | hdefault
  · refine holdsOf_of_contains ?_ hcontains c hc
    rintro lower upper rfl
    exact h.2.1
  · cases b with
    | default => cases hc
    | _ => cases hdefault

/-! ## Key values -/

/-- **A bound of an arity**: the ends of a range have as many places. -/
def HasArity (b : Bound) (arity : Nat) : Prop :=
  match b with
  | range lower upper => lower.length = arity ∧ upper.length = arity
  | _ => True

/-- **The constraints of a bound are no stronger than the bound.** Key values that
a bound contains, of whatever kinds, are those of some row, and for every row that
has them all constraints of the bound hold, with a modulus that is not zero. -/
theorem constraints_hold_of_contains {values : List Datum} (hdistinct : key.attnums.Nodup)
    (harity : b.HasArity key.arity) (hlength : values.length = key.arity)
    (h : b.contains values = true) :
    (∃ row : AttNum → Datum, key.attnums.map row = values) ∧
      (∀ row : AttNum → Datum, key.attnums.map row = values →
        ∀ c ∈ b.constraints key, c.HoldsOf row) ∧
      ∀ attnums types modulus remainder,
        Constraint.hash attnums types modulus remainder ∈ b.constraints key → modulus ≠ 0 := by
  refine ⟨exists_map_eq .null hdistinct hlength, ?_, ?_⟩
  · rintro row rfl
    refine holdsOf_of_contains ?_ h
    rintro lower upper rfl
    exact harity.2
  · intro attnums types modulus remainder hc
    rcases mem_constraints hc with ⟨modulus, remainder, rfl, heq⟩ | ⟨column, -, ⟨values, -, heq⟩ |
      ⟨lower, upper, -, ⟨p, -, heq⟩ | hend⟩⟩
    · -- a modulus of zero contains nothing
      obtain ⟨-, -, rfl, -⟩ := Constraint.hash.inj heq
      rintro rfl
      cases h
    · unfold listConstraint at heq
      dsimp only at heq
      split at heq
      · cases heq
      · cases heq
    · cases heq
    · obtain ⟨op, v, -, heq⟩ := mem_endConstraint hend
      cases heq

/-- A key of a number and a double. -/
def numbered : PartitionKey := ⟨.range, [⟨2⟩, ⟨1⟩], [.int4, .float8], ["number", "share"]⟩

/-- From 10 up to 20 with a share below zero. -/
def numberedRange : Bound :=
  .range [.value (.int 10), .minValue] [.value (.int 20), .value (.float 0)]

/-- Just below the upper end, where the leading column is at it; and with a share
that is not a number, which is never looked at. -/
theorem constraints_hold_numberedRange :
    (∀ row : AttNum → Datum, numbered.attnums.map row = [.int 20, .float (-1.5)] →
      ∀ c ∈ numberedRange.constraints numbered, c.HoldsOf row) ∧
      ∀ row : AttNum → Datum, numbered.attnums.map row = [.int 10, .float (0.0 / 0.0)] →
        ∀ c ∈ numberedRange.constraints numbered, c.HoldsOf row := by
  have harity : numberedRange.HasArity numbered.arity := ⟨rfl, rfl⟩
  constructor
  · exact (constraints_hold_of_contains (by decide) harity rfl (by decide +kernel)).2.1
  · exact (constraints_hold_of_contains (by decide) harity rfl (by decide +kernel)).2.1

end Bound

end WhatIf
