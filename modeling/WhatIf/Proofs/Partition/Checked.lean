import WhatIf.Proofs.Partition.Disjoint
import Mathlib.Data.List.Nodup
/-!
# Partition — what makes a layout valid

Validation goes through a layout partition by partition and carries along the
names in use and whether a default partition was met. What it comes to can be
said without that: every level passes on its own (`Layout.Passes`), and the
names of the whole layout, lowered, are distinct.
-/

namespace WhatIf

variable {r : Relation} {l : Layout} {key : PartitionKey} {names names' : List String}
variable {p : Partition} {ps : List Partition} {strategy : Strategy} {columns : List String}

namespace Layout

/-- **A level that passes**, but for the names of its partitions. -/
structure Passes (r : Relation) (strategy : Strategy) (columns : List String)
    (ps : List Partition) : Prop where
  faultless : ∃ key, resolveKey r strategy columns = .ok key ∧
    ∀ p ∈ ps, partitionFault? key false p = none
  nonempty : ps ≠ []
  default : ps.countP (fun p => p.bound.isDefault) ≤ 1
  apart : overlap? strategy ps = none

end Layout

namespace Partition

/-- **A partition that is valid below**, but for the names. -/
inductive Valid (r : Relation) : Partition → Prop
  | leaf {name : String} {bound : Bound} : Valid r (.leaf name bound)
  | split {name : String} {bound : Bound} {strategy : Strategy} {columns : List String}
      {ps : List Partition} (hpasses : Layout.Passes r strategy columns ps)
      (hbelow : ∀ p ∈ ps, Valid r p) : Valid r (.split name bound strategy columns ps)

mutual

/-- The lowered names below a partition. -/
def namesBelow : Partition → List String
  | leaf _ _ => []
  | split _ _ _ _ ps => ps.map (fun p => Text.lower p.name) ++ namesBelowAll ps

/-- The lowered names below each of several partitions. -/
def namesBelowAll : List Partition → List String
  | [] => []
  | p :: ps => namesBelow p ++ namesBelowAll ps

end

end Partition

namespace Layout

/-- The layout as that of a partition. -/
def whole (l : Layout) : Partition := .split "" .default l.strategy l.key l.partitions

/-! ## One level -/

/-- A partition that passes where there is a default one passes where there is
none. -/
theorem partitionFault?_false {hasDefault : Bool} (h : partitionFault? key hasDefault p = none) :
    partitionFault? key false p = none := by
  unfold partitionFault? at h ⊢
  split at h
  · split at h
    · cases h
    · rename_i hstrategy
      rw [if_neg hstrategy]
      rfl
  · exact h

theorem partitionFault?_of_false {hasDefault : Bool} (h : partitionFault? key false p = none)
    (hdefault : p.bound.isDefault = true → hasDefault = false) :
    partitionFault? key hasDefault p = none := by
  unfold partitionFault? at h ⊢
  split at h
  · rename_i hbound
    rw [hdefault (by rw [hbound]; rfl)]
    exact h
  · exact h

/-- The names in use after a list that passes are those of the list and those
before it. -/
theorem names_of_checkPartitions {hasDefault : Bool} (hnames : names.Nodup)
    (h : checkPartitions key ps names hasDefault = .ok names') :
    names'.Perm (ps.map (fun p => Text.lower p.name) ++ names) ∧ names'.Nodup := by
  induction ps generalizing names hasDefault with
  | nil =>
    obtain rfl := Except.ok.inj h
    exact ⟨.refl _, hnames⟩
  | cons p ps ih =>
    rw [checkPartitions] at h
    split at h
    · cases h
    rename_i hnew
    split at h
    · cases h
    obtain ⟨hperm, hnodup⟩ := ih (List.nodup_cons.2 ⟨by simpa using hnew, hnames⟩) h
    exact ⟨hperm.trans List.perm_middle, hnodup⟩

/-- Partitions with new names and no faults pass, if there is one default
partition at most. -/
theorem exists_checkPartitions (hasDefault : Bool)
    (hfault : ∀ p ∈ ps, partitionFault? key false p = none)
    (hdefault : ps.countP (fun p => p.bound.isDefault) + hasDefault.toNat ≤ 1)
    (hnames : (ps.map (fun p => Text.lower p.name) ++ names).Nodup) :
    ∃ names', checkPartitions key ps names hasDefault = .ok names' := by
  induction ps generalizing names hasDefault with
  | nil => exact ⟨names, rfl⟩
  | cons p ps ih =>
    obtain ⟨hp, hps⟩ := List.forall_mem_cons.1 hfault
    have hperm : (ps.map (fun p => Text.lower p.name) ++ Text.lower p.name :: names).Perm
        (Text.lower p.name :: (ps.map (fun p => Text.lower p.name) ++ names)) := List.perm_middle
    have hnew : ¬names.contains (Text.lower p.name) = true := by
      rw [List.contains_iff_mem]
      exact fun hmem => (List.nodup_cons.1 hnames).1 (List.mem_append_right _ hmem)
    rw [List.countP_cons] at hdefault
    have hpass : partitionFault? key hasDefault p = none := by
      refine partitionFault?_of_false hp fun hp => ?_
      rw [if_pos hp] at hdefault
      cases hasDefault with
      | false => rfl
      | true => simp at hdefault
    rw [checkPartitions, if_neg hnew, hpass]
    refine ih _ hps ?_ (hperm.nodup_iff.2 hnames)
    by_cases hp : p.bound.isDefault = true
    · rw [if_pos hp] at hdefault
      rw [hp, Bool.or_true, Bool.toNat_true]
      omega
    · rw [if_neg hp] at hdefault
      rw [Bool.eq_false_iff.2 hp, Bool.or_false]
      exact hdefault

/-- **A checked level passes.** -/
theorem passes_of_checkLevel (h : checkLevel r strategy columns ps names = .ok names') :
    Passes r strategy columns ps := by
  have hdefault := countP_isDefault_of_checkLevel h
  unfold checkLevel at h
  split at h
  · cases h
  rename_i key hkey
  split at h
  · cases h
  rename_i hempty
  split at h
  · cases h
  rename_i hpass
  split at h
  · cases h
  rename_i hapart
  refine ⟨⟨key, hkey, fun p hp => ?_⟩, by simpa using hempty, hdefault, hapart⟩
  obtain ⟨_, hnone⟩ := fault_of_checkPartitions hpass p hp
  exact partitionFault?_false hnone

/-- The names of a checked level are in use. -/
theorem names_of_checkLevel (hnames : names.Nodup)
    (h : checkLevel r strategy columns ps names = .ok names') :
    names'.Perm (ps.map (fun p => Text.lower p.name) ++ names) ∧ names'.Nodup := by
  unfold checkLevel at h
  split at h
  · cases h
  split at h
  · cases h
  split at h
  · cases h
  rename_i hpass
  split at h
  · cases h
  · obtain rfl := Except.ok.inj h
    exact names_of_checkPartitions hnames hpass

theorem exists_checkLevel (h : Passes r strategy columns ps)
    (hnames : (ps.map (fun p => Text.lower p.name) ++ names).Nodup) :
    ∃ names', checkLevel r strategy columns ps names = .ok names' := by
  obtain ⟨key, hkey, hfault⟩ := h.faultless
  obtain ⟨names', hpass⟩ :=
    exists_checkPartitions false hfault h.default hnames
  refine ⟨names', ?_⟩
  rw [checkLevel, hkey]
  dsimp only
  rw [if_neg (by simpa using h.nonempty), hpass, h.apart]

/-! ## All levels -/

/-- Checking below a partition finds it valid there, and adds the names below
it to those in use. -/
def ChecksBelow (r : Relation) (p : Partition) : Prop :=
  ∀ {names names' : List String}, names.Nodup → checkBelow r p names = .ok names' →
    p.Valid r ∧ names'.Perm (p.namesBelow ++ names) ∧ names'.Nodup

theorem checksAllBelow (hps : ∀ p ∈ ps, ChecksBelow r p) (hnames : names.Nodup)
    (h : checkAllBelow r ps names = .ok names') :
    (∀ p ∈ ps, p.Valid r) ∧ names'.Perm (Partition.namesBelowAll ps ++ names) ∧ names'.Nodup := by
  induction ps generalizing names with
  | nil =>
    obtain rfl := Except.ok.inj h
    exact ⟨by simp, .refl _, hnames⟩
  | cons p ps ih =>
    rw [checkAllBelow] at h
    split at h
    · cases h
    rename_i hp
    rw [List.forall_mem_cons] at hps
    obtain ⟨hvalid, hperm, hnodup⟩ := hps.1 hnames hp
    obtain ⟨hvalids, hperms, hnodups⟩ := ih hps.2 hnodup h
    refine ⟨List.forall_mem_cons.2 ⟨hvalid, hvalids⟩, hperms.trans ?_, hnodups⟩
    rw [Partition.namesBelowAll]
    refine (hperm.append_left _).trans ?_
    rw [← List.append_assoc]
    exact List.perm_append_comm.append_right names

theorem checksBelow (p : Partition) : ChecksBelow r p := by
  induction p using Partition.induct with
  | leaf name bound =>
    intro names names' hnames h
    obtain rfl := Except.ok.inj h
    exact ⟨.leaf, .refl _, hnames⟩
  | split name bound strategy columns ps ih =>
    intro names names' hnames h
    rw [checkBelow] at h
    split at h
    · cases h
    rename_i hlevel
    obtain ⟨hperm, hnodup⟩ := names_of_checkLevel hnames hlevel
    obtain ⟨hvalid, hperms, hnodups⟩ := checksAllBelow ih hnodup h
    refine ⟨.split (passes_of_checkLevel hlevel) hvalid, hperms.trans ?_, hnodups⟩
    rw [Partition.namesBelow]
    refine (hperm.append_left _).trans ?_
    rw [← List.append_assoc]
    exact List.perm_append_comm.append_right names

theorem exists_checkAllBelow (hps : ∀ p ∈ ps, p.Valid r)
    (hcheck : ∀ p ∈ ps, ∀ names, p.Valid r → (p.namesBelow ++ names).Nodup →
      ∃ names', checkBelow r p names = .ok names')
    (hnames : (Partition.namesBelowAll ps ++ names).Nodup) :
    ∃ names', checkAllBelow r ps names = .ok names' := by
  induction ps generalizing names with
  | nil => exact ⟨names, rfl⟩
  | cons p ps ih =>
    rw [List.forall_mem_cons] at hps hcheck
    rw [Partition.namesBelowAll] at hnames
    have hperm : (Partition.namesBelowAll ps ++ (p.namesBelow ++ names)).Perm
        (p.namesBelow ++ Partition.namesBelowAll ps ++ names) := by
      rw [← List.append_assoc]
      exact List.perm_append_comm.append_right names
    have hnodup := hperm.nodup_iff.2 hnames
    have hown := (List.nodup_append.1 hnodup).2.1
    obtain ⟨names₁, hp⟩ := hcheck.1 names hps.1 hown
    obtain ⟨-, hperm₁, -⟩ := checksBelow p (List.nodup_append.1 hown).2.1 hp
    obtain ⟨names', hrest⟩ :=
      ih hps.2 hcheck.2 ((hperm₁.append_left _).nodup_iff.2 hnodup)
    exact ⟨names', by rw [checkAllBelow, hp]; exact hrest⟩

theorem exists_checkBelow (p : Partition) : ∀ names, p.Valid r → (p.namesBelow ++ names).Nodup →
    ∃ names', checkBelow r p names = .ok names' := by
  induction p using Partition.induct with
  | leaf name bound => exact fun names _ _ => ⟨names, rfl⟩
  | split name bound strategy columns ps ih =>
    intro names hvalid hnames
    cases hvalid with
    | split hpasses hbelow =>
      rw [Partition.namesBelow] at hnames
      have hperm : (Partition.namesBelowAll ps ++
          (ps.map (fun p => Text.lower p.name) ++ names)).Perm
          (ps.map (fun p => Text.lower p.name) ++ Partition.namesBelowAll ps ++ names) := by
        rw [← List.append_assoc]
        exact List.perm_append_comm.append_right names
      have hnodup := hperm.nodup_iff.2 hnames
      have hown := (List.nodup_append.1 hnodup).2.1
      obtain ⟨names₁, hlevel⟩ := exists_checkLevel hpasses hown
      obtain ⟨hperm₁, -⟩ := names_of_checkLevel (List.nodup_append.1 hown).2.1 hlevel
      obtain ⟨names', hrest⟩ :=
        exists_checkAllBelow hbelow ih ((hperm₁.append_left _).nodup_iff.2 hnodup)
      exact ⟨names', by rw [checkBelow, hlevel]; exact hrest⟩

/-- **What validity comes to**: every level passes, and no name of the layout is
that of the relation or of another partition. -/
theorem validate_iff : l.validate r = .ok () ↔
    l.whole.Valid r ∧ (l.whole.namesBelow ++ [Text.lower r.name]).Nodup := by
  have hwhole : l.validate r = (checkBelow r l.whole [Text.lower r.name]).map fun _ => () := by
    rw [validate, whole, checkBelow]
    cases checkLevel r l.strategy l.key l.partitions [Text.lower r.name] <;> rfl
  rw [hwhole]
  constructor
  · intro h
    rcases hbelow : checkBelow r l.whole [Text.lower r.name] with e | names'
    · rw [hbelow] at h
      cases h
    · obtain ⟨hvalid, hperm, hnodup⟩ := checksBelow l.whole (List.nodup_singleton _) hbelow
      exact ⟨hvalid, hperm.nodup_iff.1 hnodup⟩
  · rintro ⟨hvalid, hnodup⟩
    obtain ⟨names', hbelow⟩ := exists_checkBelow l.whole _ hvalid hnodup
    rw [hbelow]
    rfl

end Layout

end WhatIf
