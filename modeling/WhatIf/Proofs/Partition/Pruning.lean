import WhatIf.Proofs.Constraint.Monotone
import WhatIf.Proofs.Partition.Order
import WhatIf.Proofs.Partition.Checked
/-!
# Partition — pruning by equality is exact

Whether a partition is refuted by its key and whether it contains the key are
decided by different code: one collects the constraints of the bound in a domain,
the other compares with the bound. In a valid level without doubles they are
opposites, where all of the key is known. Over one column this is because a test
for one datum leaves no place but that of the datum, and because over one column
the constraints of a bound are all that the bound says. Over a hash it is because
the restrictions then pin every column, so the hash is computed from the key.
-/

namespace WhatIf

variable {type : DataType} {v : Datum} {p : Place} {a : AttNum} {name : String}

/-! ## One datum -/

namespace ColumnTest

/-- The test for one datum, `NULL` or a value. -/
def only (v : Datum) : ColumnTest := if v.isNull then .isNull else .compare .eq v

theorem isOf_only (hv : v.isOf type = true) : (only v).isOf type = true := by
  unfold only
  split
  · rfl
  · exact hv

/-- No place passes the test for one datum but that of the datum. -/
theorem passes_only_iff (htype : type ≠ .float8) (hp : p.IsOf type) (hv : v.isOf type = true) :
    (only v).passes p = true ↔ p = .ofDatum v := by
  unfold only Place.ofDatum
  split
  · exact Place.isNull_eq_true_iff
  · rename_i hnull
    exact Place.isAt_iff htype hp ⟨Bool.eq_false_iff.2 hnull, hv⟩

end ColumnTest

namespace Constraint

variable {restrictions : List Restriction} {constraints : List Constraint}

/-- What a column is left, at the place of a datum, says that constraints on the
column hold of the datum. -/
theorem holdsOf_of_columnLeaves (htype : type ≠ .float8) (hv : v.isOf type = true)
    (hon : ∀ c ∈ constraints, c.attnum? = some a)
    (hof : ∀ c ∈ constraints, c.isOf (fun _ => type) = true) :
    ((∀ t ∈ constraints.filterMap (testOn? a), t.passes (.ofDatum v) = true) ∧
      ∀ ts ∈ constraints.filterMap (choiceOn? a), ∃ t ∈ ts, t.passes (.ofDatum v) = true) ↔
      ∀ c ∈ constraints, c.HoldsOf fun _ => v := by
  have hpasses : ∀ {t : ColumnTest}, t.isOf type = true →
      (t.passes (.ofDatum v) = true ↔ t.evaluate v = some true) :=
    fun ht => ColumnTest.passes_ofDatum_iff htype ht hv
  constructor
  · rintro ⟨htests, hchoices⟩ c hc
    cases c with
    | column r =>
      have hmem : r.test ∈ constraints.filterMap (testOn? a) :=
        List.mem_filterMap.2 ⟨_, hc, if_pos (Option.some.inj (hon _ hc))⟩
      exact (hpasses (hof _ hc)).1 (htests _ hmem)
    | either b column ts =>
      have hmem : ts ∈ constraints.filterMap (choiceOn? a) :=
        List.mem_filterMap.2 ⟨_, hc, if_pos (Option.some.inj (hon _ hc))⟩
      obtain ⟨t, ht, hpass⟩ := hchoices ts hmem
      exact ⟨t, ht, (hpasses (List.all_eq_true.1 (hof _ hc) t ht)).1 hpass⟩
    | hash attnums types modulus remainder => cases hon _ hc
  · intro h
    constructor
    · intro t ht
      obtain ⟨c, hc, htest⟩ := List.mem_filterMap.1 ht
      obtain ⟨column, rfl⟩ := testOn?_eq_some_iff.1 htest
      exact (hpasses (hof _ hc)).2 (h _ hc)
    · intro ts hts
      obtain ⟨c, hc, hchoice⟩ := List.mem_filterMap.1 hts
      obtain ⟨column, rfl⟩ := choiceOn?_eq_some_iff.1 hchoice
      obtain ⟨t, ht, hholds⟩ := h _ hc
      exact ⟨t, ht, (hpasses (List.all_eq_true.1 (hof _ hc) t ht)).2 hholds⟩

/-- **A test for one datum is refuted by constraints on the column** if and only
if one of them does not hold of the datum. -/
theorem refutedBy_only_iff (htype : type ≠ .float8) (hv : v.isOf type = true)
    (hon : ∀ c ∈ constraints, c.attnum? = some a)
    (hof : ∀ c ∈ constraints, c.isOf (fun _ => type) = true) :
    refutedBy [⟨a, name, .only v⟩] constraints = false ↔
      ∀ c ∈ constraints, c.HoldsOf fun _ => v := by
  have hcolumnOf : ColumnOf [⟨a, name, .only v⟩] constraints a type :=
    columnOf_of_isOf (fun _ => type)
      (List.forall_mem_singleton.2 (ColumnTest.isOf_only hv)) hof a
  have htests : testsOn a [⟨a, name, .only v⟩] = [.only v] := by simp [testsOn]
  -- nothing but the one column is looked at
  have hcolumn : refutedBy [⟨a, name, .only v⟩] constraints =
      columnRefuted [⟨a, name, .only v⟩] constraints a := by
    have hhash : constraints.any (hashRefuted [⟨a, name, .only v⟩]) = false := by
      refine List.any_eq_false.2 fun c hc => ?_
      cases c with
      | hash attnums types modulus remainder => cases hon _ hc
      | _ => exact Bool.false_ne_true
    have hothers : ∀ b ∈ constraints.filterMap attnum?, b = a := by
      intro b hb
      obtain ⟨c, hc, heq⟩ := List.mem_filterMap.1 hb
      exact Option.some.inj (heq.symm.trans (hon c hc))
    rw [refutedBy, hhash, Bool.or_false, List.map_singleton, List.singleton_append, List.any_cons,
      Bool.eq_iff_iff, Bool.or_eq_true]
    refine or_iff_left_of_imp fun hany => ?_
    obtain ⟨b, hb, hrefuted⟩ := List.any_eq_true.1 hany
    exact hothers b hb ▸ hrefuted
  rw [hcolumn, columnRefuted_eq_false_iff htype hcolumnOf,
    ← holdsOf_of_columnLeaves htype hv hon hof]
  constructor
  · rintro ⟨p, hp, hrestrictions, hcolumns, hchoices⟩
    rw [htests, List.forall_mem_singleton, ColumnTest.passes_only_iff htype hp hv] at hrestrictions
    subst hrestrictions
    exact ⟨hcolumns, hchoices⟩
  · rintro ⟨hcolumns, hchoices⟩
    have hp := Place.isOf_ofDatum hv
    refine ⟨.ofDatum v, hp, ?_, hcolumns, hchoices⟩
    rw [htests, List.forall_mem_singleton]
    exact (ColumnTest.passes_only_iff htype hp hv).2 rfl

end Constraint

/-! ## Bounds over one column -/

namespace Bound

variable {strategy : Strategy} {b : Bound} {column : AttNum × String} {low high : RangeDatum}
variable {values : List Datum}

/-- The constraint of a list is all that the list says. -/
theorem holdsOf_listConstraint_iff :
    (listConstraint column values).HoldsOf (fun _ => v) ↔ (list values).contains [v] = true := by
  refine ⟨fun h => ?_, fun h => holdsOf_listConstraint h⟩
  have hin : (ColumnTest.isIn (values.filter fun w => !w.isNull)).evaluate v = some true →
      (list values).contains [v] = true := by
    intro hholds
    rw [ColumnTest.evaluate] at hholds
    split at hholds
    · cases hholds
    rename_i hnull
    split at hholds
    · rename_i hany
      obtain ⟨w, hw, hequals⟩ := List.any_eq_true.1 hany
      rw [contains, if_neg hnull]
      exact List.any_eq_true.2 ⟨w, (List.mem_filter.1 hw).1, hequals⟩
    · split at hholds
      · cases hholds
      · cases hholds
  unfold listConstraint at h
  dsimp only at h
  split at h
  · rename_i hany
    obtain ⟨t, ht, hholds⟩ := h
    rcases List.mem_cons.1 ht with rfl | ht
    · -- `NULL` is listed, and the datum is `NULL`
      have hnull : v.isNull = true := Option.some.inj hholds
      rw [contains, if_pos hnull]
      exact hany
    · rw [List.mem_singleton.1 ht] at hholds
      exact hin hholds
  · exact hin h

/-- The constraint of a lower end is all that the end says, if there is any value
above it. -/
theorem holdsOf_lowerConstraint_iff (hlow : low ≠ .maxValue) :
    (∀ c ∈ lowerConstraint column [low], c.HoldsOf fun _ => v) ↔
      ∃ o, RangeDatum.compareEnds? [.value v] [low] = some o ∧ o ≠ .lt := by
  cases low with
  | minValue => simp [lowerConstraint, RangeDatum.compareEnds?, RangeDatum.compare?]
  | maxValue => exact absurd rfl hlow
  | value w =>
    rw [lowerConstraint, List.forall_mem_singleton, RangeDatum.compareEnds?, RangeDatum.compare?]
    show Option.map _ (v.compare? w) = some true ↔ _
    rcases v.compare? w with _ | _ | _ | _ <;> simp [CompareOp.holds, RangeDatum.compareEnds?]

/-- The constraint of an upper end is all that the end says, if there is any value
below it. -/
theorem holdsOf_upperConstraint_iff (hhigh : high ≠ .minValue) :
    (∀ c ∈ upperConstraint column [high], c.HoldsOf fun _ => v) ↔
      RangeDatum.compareEnds? [.value v] [high] = some .lt := by
  cases high with
  | minValue => exact absurd rfl hhigh
  | maxValue => simp [upperConstraint, RangeDatum.compareEnds?, RangeDatum.compare?]
  | value w =>
    rw [upperConstraint, List.forall_mem_singleton, RangeDatum.compareEnds?, RangeDatum.compare?]
    show Option.map _ (v.compare? w) = some true ↔ _
    rcases v.compare? w with _ | _ | _ | _ <;> simp [CompareOp.holds, RangeDatum.compareEnds?]

/-- Over one column a range has one end on each side, with something between. -/
theorem IsOf.ends {lower upper : List RangeDatum} (h : (range lower upper).IsOf strategy [type]) :
    ∃ low high, lower = [low] ∧ upper = [high] ∧ low.isEndOf type = true ∧
      high.isEndOf type = true ∧ low ≠ .maxValue ∧ high ≠ .minValue := by
  obtain ⟨-, hlower, hupper, hrises⟩ := h
  obtain ⟨low, lows, hlow, hlows, rfl⟩ := List.forall₂_cons_right_iff.1 hlower
  obtain ⟨high, highs, hhigh, hhighs, rfl⟩ := List.forall₂_cons_right_iff.1 hupper
  obtain rfl := List.forall₂_nil_right_iff.1 hlows
  obtain rfl := List.forall₂_nil_right_iff.1 hhighs
  refine ⟨low, high, rfl, rfl, hlow, hhigh, ?_, ?_⟩
  · rintro rfl
    cases high <;> cases hrises
  · rintro rfl
    cases low <;> cases hrises

section

variable (hb : b.IsOf strategy [type]) (hstrategy : strategy ≠ .hash) (hdefault : b ≠ default)

include hb hstrategy hdefault

/-- **Over one column the constraints of a bound are all that the bound says.** -/
theorem holdsOf_constraints_iff :
    (∀ c ∈ b.constraints ⟨strategy, [a], [type], [name]⟩, c.HoldsOf fun _ => v) ↔
      b.contains [v] = true := by
  cases b with
  | default => exact absurd rfl hdefault
  | hash modulus remainder => exact absurd hb.1 hstrategy
  | list values => exact List.forall_mem_singleton.trans holdsOf_listConstraint_iff
  | range lower upper =>
    obtain ⟨low, high, rfl, rfl, -, -, hlow, hhigh⟩ := hb.ends
    have hconstraints : (range [low] [high]).constraints ⟨strategy, [a], [type], [name]⟩ =
        .column ⟨a, name, .isNotNull⟩ :: (lowerConstraint (a, name) [low] ++
          upperConstraint (a, name) [high]) := rfl
    rw [hconstraints, List.forall_mem_cons, List.forall_mem_append,
      holdsOf_lowerConstraint_iff hlow, holdsOf_upperConstraint_iff hhigh]
    constructor
    · rintro ⟨hnull, ⟨o, ho, hne⟩, hbelow⟩
      have hnull : v.isNull = false := by simpa using Option.some.inj hnull
      simp only [contains, List.any_cons, List.any_nil, hnull, Bool.or_false, List.map_cons,
        List.map_nil, ho, hbelow]
      cases o with
      | lt => exact absurd rfl hne
      | _ => rfl
    · intro hin
      obtain ⟨hlower, hupper⟩ := contains_range hin
      refine ⟨?_, hlower, hupper⟩
      show some (!v.isNull) = some true
      cases hnull : v.isNull with
      | false => rfl
      | true => simp [contains, hnull] at hin

/-- The constraints of a bound over one column are on the column. -/
theorem attnum?_of_mem_constraints :
    ∀ c ∈ b.constraints ⟨strategy, [a], [type], [name]⟩, c.attnum? = some a := by
  intro c hc
  rcases mem_constraints hc with ⟨modulus, remainder, rfl, rfl⟩ | ⟨column, hcolumn, ⟨values, -, rfl⟩ |
    ⟨lower, upper, -, ⟨p, hp, rfl⟩ | hend⟩⟩
  · exact absurd hb.1 hstrategy
  · obtain rfl := Option.some.inj hcolumn
    unfold listConstraint
    dsimp only
    split <;> rfl
  · obtain rfl := List.mem_singleton.1 hp
    rfl
  · obtain rfl := Option.some.inj hcolumn
    obtain ⟨op, w, -, rfl⟩ := mem_endConstraint hend
    rfl

/-- The constraints of a bound over one column are of its type. -/
theorem isOf_of_mem_constraints (htype : type ≠ .float8) :
    ∀ c ∈ b.constraints ⟨strategy, [a], [type], [name]⟩, c.isOf (fun _ => type) = true := by
  intro c hc
  rcases mem_constraints hc with ⟨modulus, remainder, rfl, rfl⟩ | ⟨column, -, ⟨values, rfl, rfl⟩ |
    ⟨lower, upper, rfl, ⟨p, -, rfl⟩ | hend⟩⟩
  · exact absurd hb.1 hstrategy
  · obtain ⟨-, -, t, rest, htypes, hfits⟩ := hb
    obtain rfl := (List.cons.inj htypes).1
    have hin : (ColumnTest.isIn (values.filter fun w => !w.isNull)).isOf type = true :=
      List.all_eq_true.2 fun w hw =>
        Datum.isOf_of_fits (hfits w (List.mem_filter.1 hw).1) htype
    unfold listConstraint
    dsimp only
    split
    · exact List.all_eq_true.2 (List.forall_mem_cons.2 ⟨rfl, List.forall_mem_singleton.2 hin⟩)
    · exact hin
  · rfl
  · obtain ⟨low, high, rfl, rfl, hlow, hhigh, -, -⟩ := hb.ends
    obtain ⟨op, w, hw, rfl⟩ := mem_endConstraint hend
    refine Datum.isOf_of_fits ?_ htype
    rcases List.mem_pair.1 hw with rfl | rfl
    · exact (Bool.and_eq_true_iff.1 hlow).2
    · exact (Bool.and_eq_true_iff.1 hhigh).2

/-- **A test for one datum is refuted by a bound over one column** if and only if
the bound does not contain the datum. -/
theorem refutedBy_only_iff (htype : type ≠ .float8) (hv : v.isOf type = true)
    (column : String) :
    Constraint.refutedBy [⟨a, column, .only v⟩] (b.constraints ⟨strategy, [a], [type], [name]⟩) =
      true ↔ b.contains [v] = false := by
  rw [← Bool.not_eq_false,
    Constraint.refutedBy_only_iff htype hv (attnum?_of_mem_constraints hb hstrategy hdefault)
      (isOf_of_mem_constraints hb hstrategy hdefault htype),
    holdsOf_constraints_iff hb hstrategy hdefault, Bool.not_eq_true]

end

end Bound

/-! ## Hashes -/

namespace Constraint

/-- **Restrictions that pin columns to values**: they are the equalities of the
columns with the values, in any order and each any number of times. -/
def Pins (restrictions : List Restriction) (attnums : List AttNum) (values : List Datum) : Prop :=
  ∀ a t, (∃ r ∈ restrictions, r.attnum = a ∧ r.test = t) ↔
    ∃ v, (a, v) ∈ attnums.zip values ∧ t = .compare .eq v

variable {restrictions : List Restriction} {attnums : List AttNum} {row : AttNum → Datum}
variable {kinds : AttNum → DataType} {modulus remainder : UInt32}

theorem mem_zip_map_iff {α β : Type} {f : α → β} {xs : List α} {x : α} {y : β} :
    (x, y) ∈ xs.zip (xs.map f) ↔ x ∈ xs ∧ y = f x := by
  have hzip : xs.zip (xs.map f) = xs.map fun x => (x, f x) := by
    simpa using List.zip_map' (f := id) (g := f) (l := xs)
  rw [hzip, List.mem_map]
  simp only [Prod.mk.injEq]
  constructor
  · rintro ⟨z, hz, rfl, rfl⟩
    exact ⟨hz, rfl⟩
  · rintro ⟨hx, rfl⟩
    exact ⟨x, hx, rfl, rfl⟩

section

variable (hpins : Pins restrictions attnums (attnums.map row))
variable (hvalues : ∀ a ∈ attnums, (row a).IsValueOf (kinds a))

include hpins

/-- Of a pinned column there is one test. -/
theorem Pins.testsOn_iff {t : ColumnTest} :
    t ∈ testsOn a restrictions ↔ a ∈ attnums ∧ t = .compare .eq (row a) := by
  rw [mem_testsOn_iff, hpins a t]
  constructor
  · rintro ⟨v, hv, rfl⟩
    obtain ⟨ha, rfl⟩ := mem_zip_map_iff.1 hv
    exact ⟨ha, rfl⟩
  · rintro ⟨ha, rfl⟩
    exact ⟨row a, mem_zip_map_iff.2 ⟨ha, rfl⟩, rfl⟩

include hvalues

/-- Columns pinned to values of their types leave these values. -/
theorem Pins.columnRefuted_eq_false (hkinds : ∀ a ∈ attnums, kinds a ≠ .float8) (ha : a ∈ attnums)
    {types : List DataType} :
    columnRefuted restrictions [.hash attnums types modulus remainder] a = false := by
  have hvalue := hvalues a ha
  have hof : ColumnOf restrictions [.hash attnums types modulus remainder] a (kinds a) := by
    refine ⟨fun t ht => ?_, fun t ht => (nomatch ht), fun ts hts => (nomatch hts)⟩
    rw [(hpins.testsOn_iff.1 ht).2]
    exact hvalue.isOf
  refine (columnRefuted_eq_false_iff (hkinds a ha) hof).2 ⟨.value (row a), hvalue, ?_⟩
  refine ⟨fun t ht => ?_, fun t ht => (nomatch ht), fun ts hts => (nomatch hts)⟩
  rw [(hpins.testsOn_iff.1 ht).2]
  exact beq_iff_eq.2 (hvalue.compare?_self (hkinds a ha))

/-- A column pinned to a value of its type is found pinned to it. -/
theorem Pins.pinned?_eq_some (ha : a ∈ attnums) :
    pinned? restrictions a (kinds a) = some (row a) := by
  obtain ⟨hnull, hisOf⟩ := hvalues a ha
  have hequal : ∀ r ∈ restrictions.filter (fun r => r.attnum == a),
      r.equalityValue? = some (row a) := by
    intro r hr
    have htest := (hpins.testsOn_iff.1 (List.mem_map_of_mem hr)).2
    rw [Restriction.equalityValue?, htest]
    exact if_neg (by rw [hnull]; exact Bool.false_ne_true)
  have hmem : .compare .eq (row a) ∈ testsOn a restrictions := hpins.testsOn_iff.2 ⟨ha, rfl⟩
  rw [pinned?]
  unfold testsOn at hmem
  rcases hfilter : restrictions.filter (fun r => r.attnum == a) with _ | ⟨r, rest⟩
  · rw [hfilter] at hmem
    cases hmem
  · rw [hfilter, List.findSome?_cons, hequal r (hfilter ▸ List.mem_cons_self)]
    exact Datum.coerce?_of_isOf hisOf

/-- Columns all pinned are found pinned to their values. -/
theorem Pins.mapM_pinned? {columns : List AttNum} (hcolumns : columns ⊆ attnums) :
    ((columns.zip (columns.map kinds)).mapM fun (a, t) => pinned? restrictions a t) =
      some (columns.map row) := by
  induction columns with
  | nil => rfl
  | cons a columns ih =>
    obtain ⟨ha, hrest⟩ := List.cons_subset.1 hcolumns
    rw [List.map_cons, List.zip_cons_cons, List.mapM_cons, ih hrest]
    dsimp only
    rw [hpins.pinned?_eq_some hvalues ha]
    rfl

/-- **Restrictions that pin every column of a hash** are refuted if and only if the
hash of the values leaves another remainder. -/
theorem Pins.refutedBy_iff (hkinds : ∀ a ∈ attnums, kinds a ≠ .float8) (hmodulus : modulus ≠ 0) :
    refutedBy restrictions [.hash attnums (attnums.map kinds) modulus remainder] = true ↔
      Datum.rowHash (attnums.map row) % modulus ≠ remainder := by
  have hcolumns : ∀ a ∈ restrictions.map (fun r => r.attnum), a ∈ attnums := by
    intro a ha
    obtain ⟨r, hr, rfl⟩ := List.mem_map.1 ha
    exact (hpins.testsOn_iff.1 (mem_testsOn_iff.2 ⟨r, hr, rfl, rfl⟩)).1
  have hopen : (restrictions.map (fun r => r.attnum)).any
      (columnRefuted restrictions [.hash attnums (attnums.map kinds) modulus remainder]) = false := by
    refine List.any_eq_false.2 fun a ha => ?_
    rw [hpins.columnRefuted_eq_false hvalues hkinds (hcolumns a ha)]
    exact Bool.false_ne_true
  have hproper : ¬(modulus = 0 ∨ (attnums.map kinds).length ≠ attnums.length) := by
    simp [hmodulus]
  rw [refutedBy, List.filterMap_cons_none rfl, List.filterMap_nil, List.append_nil, hopen,
    Bool.false_or, List.any_cons, List.any_nil, Bool.or_false, hashRefuted, if_neg hproper,
    hpins.mapM_pinned? hvalues (List.Subset.refl _)]
  exact bne_iff_ne

end

end Constraint

/-- **Restrictions that pin every key column** are refuted by a hash bound if and
only if the bound does not contain the values. -/
theorem Bound.refutedBy_pins_iff {key : PartitionKey} {values : List Datum}
    {restrictions : List Restriction} {modulus remainder : UInt32}
    (hdistinct : key.attnums.Nodup) (hlength : key.types.length = key.arity)
    (htypes : ∀ t ∈ key.types, t ≠ .float8)
    (hvalues : List.Forall₂ (fun v t => v.IsValueOf t) values key.types)
    (hpins : Constraint.Pins restrictions key.attnums values) (hmodulus : modulus ≠ 0) :
    Constraint.refutedBy restrictions ((hash modulus remainder).constraints key) = true ↔
      (hash modulus remainder).contains values = false := by
  obtain ⟨kinds, hkinds⟩ := exists_map_eq DataType.bool hdistinct hlength
  obtain ⟨row, rfl⟩ := exists_map_eq Datum.null hdistinct (hvalues.length_eq.trans hlength)
  rw [← hkinds] at htypes hvalues
  have hconstraints : (hash modulus remainder).constraints key =
      [.hash key.attnums (key.attnums.map kinds) modulus remainder] := by rw [constraints, hkinds]
  rw [List.forall₂_map_left_iff, List.forall₂_map_right_iff, List.forall₂_same] at hvalues
  have hexact : ∀ a ∈ key.attnums, kinds a ≠ .float8 := fun a ha =>
    htypes _ (List.mem_map_of_mem ha)
  rw [hconstraints, hpins.refutedBy_iff hvalues hexact hmodulus, contains]
  have hpos : 0 < modulus := UInt32.pos_iff_ne_zero.2 hmodulus
  simp [hpos]

/-! ## Every level -/

variable {r : Relation} {l : Layout}

/-- The bounds of a valid level are bounds over its key. -/
theorem Layout.Level.isOf {m : Layout} (hm : l.Level m) (hvalid : l.validate r = .ok ()) :
    ∃ key, resolveKey r m.strategy m.key = .ok key ∧
      ∀ p ∈ m.partitions, p.bound.IsOf m.strategy key.types := by
  obtain ⟨⟨names, names', hlevel⟩, -⟩ := hm.checked hvalid
  obtain ⟨key, hkey, hfault⟩ := (passes_of_checkLevel hlevel).faultless
  refine ⟨key, hkey, fun p hp => ?_⟩
  rcases boundFault?_of_partitionFault? (hfault p hp) with hdefault | ⟨hown, hnone⟩
  · rw [hdefault]
    trivial
  · exact resolveKey_strategy hkey ▸ Bound.isOf_of_boundFault? (resolveKey_ok hkey) hown hnone

/-- **Pruning by equality agrees with routing.** At each level of a valid layout
whose key has no doubles, restrictions that give the whole key are refuted by the
bound of a partition exactly if the bound does not contain the key: over one
column for every value of its type and for `NULL`, over a hash for all values of
the types of its columns. -/
theorem Layout.pruning_iff_of_validate (hvalid : l.validate r = .ok ()) {m : Layout}
    (hm : l.Level m) :
    ∃ key, resolveKey r m.strategy m.key = .ok key ∧
      ((∀ t ∈ key.types, t ≠ .float8) → ∀ p ∈ m.partitions, p.bound ≠ .default →
        (m.strategy = .list ∨ m.strategy = .range ∧ key.arity = 1 →
          ∃ a type, key.attnums = [a] ∧ key.types = [type] ∧ ∀ name,
            (∀ v : Datum, v.IsValueOf type →
              (Constraint.refutedBy [⟨a, name, .compare .eq v⟩] (p.bound.constraints key) = true ↔
                p.bound.contains [v] = false)) ∧
              (Constraint.refutedBy [⟨a, name, .isNull⟩] (p.bound.constraints key) = true ↔
                p.bound.contains [.null] = false)) ∧
        (m.strategy = .hash → ∀ values,
          List.Forall₂ (fun v t => Datum.IsValueOf v t) values key.types →
            ∀ restrictions, Constraint.Pins restrictions key.attnums values →
              (Constraint.refutedBy restrictions (p.bound.constraints key) = true ↔
                p.bound.contains values = false))) := by
  obtain ⟨key, hkey, hbounds⟩ := hm.isOf hvalid
  refine ⟨key, hkey, fun htypes p hp hdefault => ⟨fun hstrategy => ?_, fun hstrategy => ?_⟩⟩
  · have harity : key.arity = 1 := by
      rcases hstrategy with hlist | ⟨-, harity⟩
      · exact resolveKey_arity (hlist ▸ hkey)
      · exact harity
    have hne : m.strategy ≠ .hash := by
      rcases hstrategy with h | ⟨h, -⟩ <;> simp [h]
    obtain ⟨strategy, a, type, column, rfl⟩ := (resolveKey_ok hkey).exists_of_arity harity
    obtain rfl : strategy = m.strategy := resolveKey_strategy hkey
    have htype : type ≠ .float8 := htypes type (List.mem_singleton_self _)
    refine ⟨a, type, rfl, rfl, fun name => ⟨fun v hv => ?_, ?_⟩⟩
    · have honly : ColumnTest.only v = .compare .eq v := if_neg (by simp [hv.isNull])
      rw [← honly]
      exact Bound.refutedBy_only_iff (hbounds p hp) hne hdefault htype hv.isOf name
    · exact Bound.refutedBy_only_iff (hbounds p hp) hne hdefault htype (v := .null) rfl name
  · intro values hvalues restrictions hpins
    have hkeyOf := resolveKey_ok hkey
    have hlength : key.types.length = key.arity := by
      obtain ⟨columns, -, -, hattnums, htypes, -⟩ := hkeyOf
      rw [PartitionKey.arity, htypes, hattnums, List.length_map, List.length_map]
    have hb := hbounds p hp
    rw [hstrategy] at hb
    obtain ⟨modulus, remainder, hbound⟩ := hb.kind hdefault
    rw [hbound] at hb ⊢
    have hmodulus : modulus ≠ 0 := by
      rintro rfl
      exact absurd hb.2 (by simp)
    exact Bound.refutedBy_pins_iff (resolveKey_nodup hkey) hlength htypes hvalues hpins hmodulus

namespace Layout

/-- Readings by the hash of year and site. -/
def bySite : Layout :=
  (blank .hash ["year", "site"]).add (.ofRemainder "even" 2 0) |>.add (.ofRemainder "odd" 2 1)

/-- The readings that are not loud, by one value and by `NULL`, and the odd hashes,
by site and year. -/
theorem pruning_iff_readings :
    (Constraint.refutedBy [⟨⟨3⟩, "loud", .compare .eq (.bool true)⟩]
      ((Bound.list [.bool false, .null]).constraints ⟨.list, [⟨3⟩], [.bool], ["loud"]⟩) = true ↔
        (Bound.list [.bool false, .null]).contains [.bool true] = false) ∧
      (Constraint.refutedBy [⟨⟨3⟩, "loud", .isNull⟩]
        ((Bound.list [.bool false, .null]).constraints ⟨.list, [⟨3⟩], [.bool], ["loud"]⟩) = true ↔
          (Bound.list [.bool false, .null]).contains [.null] = false) ∧
      (Constraint.refutedBy
        [⟨⟨2⟩, "site", .compare .eq (.text "pier")⟩, ⟨⟨1⟩, "year", .compare .eq (.int 1999)⟩]
        ((Bound.hash 2 1).constraints
          ⟨.hash, [⟨1⟩, ⟨2⟩], [.int4, .text], ["year", "site"]⟩) = true ↔
          (Bound.hash 2 1).contains [.int 1999, .text "pier"] = false) := by
  have hyear : byYear.validate readings = .ok () := by rfl
  have hloudness : byYear.Level byLoudness := .sub .top List.mem_cons_self rfl
  have hsite : bySite.validate readings = .ok () := by rfl
  have hpins : Constraint.Pins
      [⟨⟨2⟩, "site", .compare .eq (.text "pier")⟩, ⟨⟨1⟩, "year", .compare .eq (.int 1999)⟩]
      [⟨1⟩, ⟨2⟩] [.int 1999, .text "pier"] := by
    intro a t
    simp only [List.mem_cons, List.not_mem_nil, or_false, List.zip_cons_cons, List.zip_nil_right,
      Prod.mk.injEq]
    constructor
    · rintro ⟨r, rfl | rfl, rfl, rfl⟩
      · exact ⟨_, Or.inr ⟨rfl, rfl⟩, rfl⟩
      · exact ⟨_, Or.inl ⟨rfl, rfl⟩, rfl⟩
    · rintro ⟨v, ⟨rfl, rfl⟩ | ⟨rfl, rfl⟩, rfl⟩
      · exact ⟨_, Or.inr rfl, rfl, rfl⟩
      · exact ⟨_, Or.inl rfl, rfl, rfl⟩
  obtain ⟨key, hkey, hloud⟩ := pruning_iff_of_validate hyear hloudness
  obtain rfl := Except.ok.inj hkey
  obtain ⟨hother, -⟩ := hloud (by decide) (.ofValues "other" [.bool false, .null])
    (List.mem_cons_of_mem _ List.mem_cons_self) (by simp [Partition.ofValues, Partition.bound])
  obtain ⟨a, type, hattnums, htypes, hpruned⟩ := hother (Or.inl rfl)
  obtain ⟨rfl, -⟩ := List.cons.inj hattnums
  obtain ⟨rfl, -⟩ := List.cons.inj htypes
  obtain ⟨hvalue, hnull⟩ := hpruned "loud"
  refine ⟨hvalue (.bool true) ⟨rfl, rfl⟩, hnull, ?_⟩
  obtain ⟨key, hkey, hpinned⟩ := pruning_iff_of_validate hsite .top
  obtain rfl := Except.ok.inj hkey
  obtain ⟨-, hodd⟩ := hpinned (by decide) (.ofRemainder "odd" 2 1)
    (List.mem_cons_of_mem _ List.mem_cons_self) (by simp [Partition.ofRemainder, Partition.bound])
  exact hodd rfl [.int 1999, .text "pier"] (.cons ⟨rfl, rfl⟩ (.cons ⟨rfl, rfl⟩ .nil)) _ hpins

end Layout

end WhatIf
