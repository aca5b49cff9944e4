import WhatIf.Proofs.Sorting
import WhatIf.Proofs.Partition.Bounds
import WhatIf.Proofs.Partition.Planting
/-!
# Partition — what validation sees to

In a valid layout the key of every level is one of the relation, and every
bound suits the key of its level (`Layout.Sound`). Putting siblings in order
loses none and adds none, so the tree that is planted has suitable bounds all
the way down.
-/

namespace WhatIf

variable {r : Relation} {l : Layout} {key : PartitionKey} {names names' : List String}
variable {p : Partition} {ps : List Partition}

/-- **A partition with suitable bounds below it**, at every level. -/
inductive Partition.Sound (r : Relation) : Partition → Prop
  | leaf {name : String} {bound : Bound} : Sound r (.leaf name bound)
  | split {name : String} {bound : Bound} {strategy : Strategy} {columns : List String}
      {ps : List Partition} {key : PartitionKey}
      (hkey : Layout.resolveKey r strategy columns = .ok key) (hsuits : ∀ p ∈ ps, p.bound.Suits key)
      (hbelow : ∀ p ∈ ps, Sound r p) : Sound r (.split name bound strategy columns ps)

namespace Layout

/-- **A layout with suitable bounds** at every level. -/
structure Sound (r : Relation) (l : Layout) : Prop where
  suits : ∃ key, resolveKey r l.strategy l.key = .ok key ∧ ∀ p ∈ l.partitions, p.bound.Suits key
  below : ∀ p ∈ l.partitions, p.Sound r

/-! ## One level -/

theorem fits_of_badBoundValue? {name : String} {values : List (RangeDatum × DataType)}
    (h : badBoundValue? name values = none) {v : Datum} {t : DataType}
    (hv : (.value v, t) ∈ values) : v.isNull = false ∧ v.fits t = true := by
  induction values with
  | nil => cases hv
  | cons x values ih =>
    rcases x with ⟨_ | w | _, s⟩
    · rcases List.mem_cons.1 hv with heq | hv
      · cases heq
      · exact ih h hv
    · rw [badBoundValue?] at h
      split at h
      · cases h
      · rename_i hfits
        rcases List.mem_cons.1 hv with heq | hv
        · obtain ⟨hvalue, rfl⟩ := Prod.mk.inj heq
          rw [RangeDatum.value.inj hvalue]
          simpa using hfits
        · exact ih h hv
    · rcases List.mem_cons.1 hv with heq | hv
      · cases heq
      · exact ih h hv

/-- The ends of a range without a fault suit the key. -/
theorem suits_of_rangeFault? (hkey : key.IsKeyOf r) {name : String} {lower upper : List RangeDatum}
    (h : rangeFault? name lower upper key = none) : (Bound.range lower upper).Suits key := by
  unfold rangeFault? at h
  split at h
  · cases h
  rename_i harity
  obtain ⟨hlower, hupper⟩ : lower.length = key.arity ∧ upper.length = key.arity := by
    constructor
    · by_contra hne
      exact harity (Or.inl hne)
    · by_contra hne
      exact harity (Or.inr hne)
  obtain ⟨columns, -, -, hattnums, htypes, -⟩ := hkey
  have hlength : key.arity = key.types.length := by
    rw [PartitionKey.arity, hattnums, htypes, List.length_map, List.length_map]
  have hvalues : badBoundValue? name (lower.zip key.types ++ upper.zip key.types) = none := by
    rcases hbad : badBoundValue? name (lower.zip key.types ++ upper.zip key.types) with _ | fault
    · rfl
    · rw [hbad] at h
      cases h
  -- every value of an end stands over the type of its column
  have hzip : ∀ {ends : List RangeDatum} {v : Datum}, ends.length = key.arity → .value v ∈ ends →
      ∃ t, (.value v, t) ∈ ends.zip key.types := by
    intro ends v hends hv
    have hfst : (ends.zip key.types).map Prod.fst = ends :=
      List.map_fst_zip (Nat.le_of_eq (hends.trans hlength))
    rw [← hfst] at hv
    obtain ⟨⟨x, t⟩, hp, rfl⟩ := List.mem_map.1 hv
    exact ⟨t, hp⟩
  refine ⟨hlower, hupper, fun v hv => ?_⟩
  rcases List.mem_append.1 hv with hv | hv
  · obtain ⟨t, ht⟩ := hzip hlower hv
    exact ⟨t, (List.of_mem_zip ht).2, (fits_of_badBoundValue? hvalues (List.mem_append_left _ ht)).2⟩
  · obtain ⟨t, ht⟩ := hzip hupper hv
    exact ⟨t, (List.of_mem_zip ht).2, (fits_of_badBoundValue? hvalues (List.mem_append_right _ ht)).2⟩

/-- A bound without a fault suits the key. -/
theorem suits_of_boundFault? (hkey : key.IsKeyOf r) {name : String} {b : Bound}
    (h : boundFault? name b key = none) : b.Suits key := by
  cases b with
  | range lower upper => exact suits_of_rangeFault? hkey h
  | list values =>
    intro v hv
    rw [boundFault?] at h
    split at h
    · rename_i t ts htypes
      rw [listFault?] at h
      split at h
      · cases h
      · rw [Option.map_eq_none_iff, List.find?_eq_none] at h
        exact ⟨t, htypes ▸ List.mem_cons_self, by simpa using h v hv⟩
    · rename_i htypes
      -- a key has a column, so its types are not empty
      obtain ⟨columns, hne, -, -, hcolumns, -⟩ := hkey
      rw [htypes] at hcolumns
      exact absurd (List.map_eq_nil_iff.1 hcolumns.symm) hne
  | hash modulus remainder => trivial
  | default => trivial

/-- A partition without a fault has a bound that suits the key. -/
theorem suits_of_partitionFault? (hkey : key.IsKeyOf r) {hasDefault : Bool}
    (h : partitionFault? key hasDefault p = none) : p.bound.Suits key := by
  unfold partitionFault? at h
  split at h
  · rename_i hbound
    rw [hbound]
    trivial
  split at h
  · exact suits_of_boundFault? hkey h
  · cases h

/-- Each partition of a list that passes the check has passed on its own. -/
theorem fault_of_checkPartitions {hasDefault : Bool}
    (h : checkPartitions key ps names hasDefault = .ok names') :
    ∀ p ∈ ps, ∃ hasDefault, partitionFault? key hasDefault p = none := by
  induction ps generalizing names hasDefault with
  | nil => simp
  | cons q ps ih =>
    rw [checkPartitions] at h
    split at h
    · cases h
    split at h
    · cases h
    · rename_i hfault
      intro p hp
      rcases List.mem_cons.1 hp with rfl | hp
      · exact ⟨hasDefault, hfault⟩
      · exact ih h p hp

theorem suits_of_checkPartitions (hkey : key.IsKeyOf r) {hasDefault : Bool}
    (h : checkPartitions key ps names hasDefault = .ok names') : ∀ p ∈ ps, p.bound.Suits key := by
  intro p hp
  obtain ⟨hasDefault', hfault⟩ := fault_of_checkPartitions h p hp
  exact suits_of_partitionFault? hkey hfault

/-- **A level that passes the check** has a key of the relation, and bounds that
suit it. -/
theorem suits_of_checkLevel {strategy : Strategy} {columns : List String}
    (h : checkLevel r strategy columns ps names = .ok names') :
    ∃ key, resolveKey r strategy columns = .ok key ∧ ∀ p ∈ ps, p.bound.Suits key := by
  unfold checkLevel at h
  split at h
  · cases h
  rename_i key hkey
  split at h
  · cases h
  split at h
  · cases h
  · rename_i hpartitions
    exact ⟨key, hkey, suits_of_checkPartitions (resolveKey_ok hkey) hpartitions⟩

/-! ## All levels -/

/-- Of several partitions that pass the check below them, each has passed. -/
theorem checkBelow_of_checkAllBelow (h : checkAllBelow r ps names = .ok names') :
    ∀ p ∈ ps, ∃ names names', checkBelow r p names = .ok names' := by
  induction ps generalizing names with
  | nil => simp
  | cons q ps ih =>
    rw [checkAllBelow] at h
    split at h
    · cases h
    · rename_i hq
      intro p hp
      rcases List.mem_cons.1 hp with rfl | hp
      · exact ⟨_, _, hq⟩
      · exact ih h p hp

theorem sound_of_checkBelow (p : Partition) :
    ∀ names names', checkBelow r p names = .ok names' → p.Sound r := by
  induction p using Partition.induct with
  | leaf name bound => exact fun _ _ _ => .leaf
  | split name bound strategy columns ps ih =>
    intro names names' h
    rw [checkBelow] at h
    split at h
    · cases h
    · rename_i hlevel
      obtain ⟨key, hkey, hsuits⟩ := suits_of_checkLevel hlevel
      refine .split hkey hsuits fun p hp => ?_
      obtain ⟨names, names', hp'⟩ := checkBelow_of_checkAllBelow h p hp
      exact ih p hp names names' hp'

/-- **A valid layout has suitable bounds.** -/
theorem sound_of_validate (h : l.validate r = .ok ()) : l.Sound r := by
  unfold validate at h
  split at h
  · cases h
  rename_i hlevel
  refine ⟨suits_of_checkLevel hlevel, ?_⟩
  rcases hbelow : checkAllBelow r l.partitions _ with e | names'
  · rw [hbelow] at h
    cases h
  · intro p hp
    obtain ⟨names, names', hp'⟩ := checkBelow_of_checkAllBelow hbelow p hp
    exact sound_of_checkBelow p names names' hp'

end Layout

/-! ## The tree of a sound layout -/

theorem Partition.bound_ordered (p : Partition) : p.ordered.bound = p.bound := by
  cases p with
  | leaf name bound => rfl
  | split name bound strategy columns ps => rfl

/-- The siblings in order are those there were. -/
theorem Partition.ordered_perm (ps : List Partition) :
    (inBoundOrder (orderedAll ps)).Perm (ps.map ordered) := by
  have hall : ∀ ps : List Partition, orderedAll ps = ps.map ordered := by
    intro ps
    induction ps with
    | nil => rfl
    | cons q ps ih => rw [orderedAll, ih, List.map_cons]
  rw [inBoundOrder, ← hall]
  exact Sorting.sort_perm _ _ _

theorem Partition.mem_ordered : p ∈ inBoundOrder (orderedAll ps) ↔ ∃ q ∈ ps, q.ordered = p := by
  rw [(ordered_perm ps).mem_iff, List.mem_map]

/-- Putting siblings in order adds no partition and loses none, if that holds
below each of them. -/
theorem Partition.numBelowAll_ordered (h : ∀ p ∈ ps, p.ordered.numBelow = p.numBelow) :
    (inBoundOrder (orderedAll ps)).length = ps.length ∧
      numBelowAll (inBoundOrder (orderedAll ps)) = numBelowAll ps := by
  have hperm := ordered_perm ps
  refine ⟨by rw [hperm.length_eq, List.length_map], ?_⟩
  rw [numBelowAll_perm hperm, numBelowAll_map h]

theorem Partition.numBelow_ordered (p : Partition) : p.ordered.numBelow = p.numBelow := by
  induction p using Partition.induct with
  | leaf name bound => rfl
  | split name bound strategy columns ps ih =>
    obtain ⟨hlength, hbelow⟩ := numBelowAll_ordered ih
    rw [ordered, numBelow, numBelow, hlength, hbelow]

theorem Layout.size_ordered (l : Layout) : l.ordered.size = l.size := by
  have hbelow : ∀ p ∈ l.partitions, p.ordered.numBelow = p.numBelow := fun p _ =>
    p.numBelow_ordered
  obtain ⟨hlength, hbelow⟩ := Partition.numBelowAll_ordered hbelow
  rw [size, size, ordered, hlength, hbelow]

theorem Partition.Sound.ordered (p : Partition) : p.Sound r → p.ordered.Sound r := by
  induction p using Partition.induct with
  | leaf name bound => exact fun _ => .leaf
  | split name bound strategy columns ps ih =>
    intro h
    cases h with
    | split hkey hsuits hbelow =>
      refine .split hkey (fun p hp => ?_) fun p hp => ?_
      · obtain ⟨q, hq, rfl⟩ := Partition.mem_ordered.1 hp
        rw [q.bound_ordered]
        exact hsuits q hq
      · obtain ⟨q, hq, rfl⟩ := Partition.mem_ordered.1 hp
        exact ih q hq (hbelow q hq)

theorem Layout.Sound.ordered (h : l.Sound r) : l.ordered.Sound r := by
  obtain ⟨⟨key, hkey, hsuits⟩, hbelow⟩ := h
  refine ⟨⟨key, hkey, fun p hp => ?_⟩, fun p hp => ?_⟩
  · obtain ⟨q, hq, rfl⟩ := Partition.mem_ordered.1 hp
    rw [q.bound_ordered]
    exact hsuits q hq
  · obtain ⟨q, hq, rfl⟩ := Partition.mem_ordered.1 hp
    exact .ordered q (hbelow q hq)

namespace PartitionTree

variable {t s : PartitionTree}

/-- That the bounds directly below a tree suit its key. -/
def SuitedAt (s : PartitionTree) : Prop :=
  ∀ key, s.node.key = some key → ∀ c ∈ s.parts, ∀ b, c.node.bound = some b → b.Suits key

/-- Trees for partitions below a key, whose bounds suit it. -/
theorem suitedAt_of_allGrowInto {site : Layout.Site} (hgrow : Layout.AllGrowInto r site ps s.parts)
    (hkey : s.node.key = some key) (hsuits : ∀ p ∈ ps, p.bound.Suits key) : s.SuitedAt := by
  intro key' hkey' c hc b hb
  obtain rfl := Option.some.inj (hkey.symm.trans hkey')
  obtain ⟨p, hp, hgrows⟩ := hgrow.exists c hc
  rw [hgrows.node.2.2] at hb
  exact Option.some.inj hb ▸ hsuits p hp

theorem suitedAt_of_growsInto (p : Partition) : ∀ {site : Layout.Site} {t : PartitionTree},
    p.Sound r → Layout.GrowsInto r site p t → ∀ s ∈ t.subtrees, s.SuitedAt := by
  induction p using Partition.induct with
  | leaf name bound =>
    intro site t _ h s hs
    rw [Layout.GrowsInto] at h
    rcases mem_subtrees_iff.1 hs with rfl | ⟨c, hc, -⟩
    · rw [h]
      intro key hkey
      cases hkey
    · rw [h] at hc
      cases hc
  | split name bound strategy columns ps ih =>
    intro site t hsound h s hs
    cases hsound with
    | split hkey hsuits hbelow =>
      rw [Layout.GrowsInto] at h
      obtain ⟨⟨resolved, hresolved, hnode⟩, hparts⟩ := h
      rw [hkey] at hresolved
      obtain rfl := Except.ok.inj hresolved
      rcases mem_subtrees_iff.1 hs with rfl | ⟨c, hc, hs⟩
      · exact suitedAt_of_allGrowInto hparts (by rw [hnode]) hsuits
      · obtain ⟨q, hq, hgrows⟩ := hparts.exists c hc
        exact ih q hq (hbelow q hq) hgrows s hs

end PartitionTree

/-- **The tree of a valid layout** has suitable bounds all the way down. -/
theorem Layout.IsTree.suitedAt {t : PartitionTree} (h : l.IsTree r t)
    (hvalid : l.validate r = .ok ()) : ∀ s ∈ t.subtrees, s.SuitedAt := by
  obtain ⟨⟨key, hkey, hsuits⟩, hbelow⟩ := (sound_of_validate hvalid).ordered
  obtain ⟨⟨resolved, hresolved, hnode⟩, hparts⟩ := h
  have hsame : resolved = key := Except.ok.inj (hresolved.symm.trans hkey)
  intro s hs
  rcases PartitionTree.mem_subtrees_iff.1 hs with rfl | ⟨c, hc, hs⟩
  · exact PartitionTree.suitedAt_of_allGrowInto hparts (by rw [hnode, hsame]) hsuits
  · obtain ⟨q, hq, hgrows⟩ := hparts.exists c hc
    exact PartitionTree.suitedAt_of_growsInto q (hbelow q hq) hgrows s hs

end WhatIf
