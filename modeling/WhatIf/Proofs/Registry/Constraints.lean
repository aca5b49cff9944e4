import WhatIf.Proofs.Registry.Inventory
import Mathlib.Data.List.Nodup
/-!
# Registry — the constraints of a partition

The registry gathers the constraints of a partition on the way up its tree, for at
most as many levels as it has nodes. No way up is longer than that, in any registry
(`exists_above_lt`), so what stands below a node has the constraints of the node. In
a registry that holds an inventory the way up is that of a tree: the constraints of a
partition are those of its bound, followed by all of the node it is a partition of.
-/

namespace WhatIf

namespace Registry

variable {g : Registry} {n m : Node} {oid low : Oid} {c : Constraint} {fuel j k : Nat}

/-! ## In any registry -/

/-- The node that a node is a partition of. -/
def parent? (g : Registry) (n : Node) : Option Node := n.parent.bind g.exactNode?

/-- The constraints of a node's own bound. -/
def ownConstraints (g : Registry) (n : Node) : List Constraint :=
  match n.bound, (g.parent? n).bind Node.key with
  | some b, some key => b.constraints key
  | _, _ => []

/-- The node that stands so many levels above another one, or is that one. -/
def above (g : Registry) : Nat → Node → Option Node
  | 0, n => some n
  | k + 1, n => (g.parent? n).bind (above g k)

theorem above_add : g.above (j + k) n = (g.above j n).bind (g.above k) := by
  induction j generalizing n with
  | zero => rw [Nat.zero_add, above, Option.bind_some]
  | succ j ih =>
    rw [Nat.succ_add, above, above]
    cases g.parent? n with
    | none => rfl
    | some p => exact ih

theorem exists_exactNode? (hn : g.exactNode? oid = some n) (h : g.above k n = some m) :
    ∃ oid, g.exactNode? oid = some m := by
  induction k generalizing n oid with
  | zero => exact ⟨oid, hn.trans h⟩
  | succ k ih =>
    rw [above] at h
    obtain ⟨p, hp, habove⟩ := Option.bind_eq_some_iff.1 h
    obtain ⟨parent, -, hparent⟩ := Option.bind_eq_some_iff.1 hp
    exact ih hparent habove

/-- What is gathered on the way up are the constraints of all nodes on the way. -/
theorem mem_constraintsUp_iff : c ∈ g.constraintsUp fuel (some n) ↔
    ∃ k, k < fuel ∧ ∃ m, g.above k n = some m ∧ c ∈ g.ownConstraints m := by
  induction fuel generalizing n with
  | zero =>
    constructor
    · intro h
      cases h
    · rintro ⟨k, hk, -⟩
      exact absurd hk (Nat.not_lt_zero k)
  | succ fuel ih =>
    have hnone : g.constraintsUp fuel none = [] := by cases fuel <;> rfl
    have hstep : g.constraintsUp (fuel + 1) (some n) =
        g.ownConstraints n ++ g.constraintsUp fuel (g.parent? n) := rfl
    rw [hstep, List.mem_append]
    constructor
    · rintro (hown | habove)
      · exact ⟨0, Nat.succ_pos fuel, n, rfl, hown⟩
      · cases hp : g.parent? n with
        | none =>
          rw [hp, hnone] at habove
          cases habove
        | some p =>
          rw [hp] at habove
          obtain ⟨k, hk, m, hm, hc⟩ := ih.1 habove
          refine ⟨k + 1, Nat.succ_lt_succ hk, m, ?_, hc⟩
          rw [above, hp, Option.bind_some, hm]
    · rintro ⟨k, hk, m, hm, hc⟩
      cases k with
      | zero =>
        obtain rfl := Option.some.inj hm
        exact Or.inl hc
      | succ k =>
        rw [above] at hm
        obtain ⟨p, hp, hm⟩ := Option.bind_eq_some_iff.1 hm
        rw [hp]
        exact Or.inr (ih.2 ⟨k, Nat.lt_of_succ_lt_succ hk, m, hm, hc⟩)

/-- All nodes on the way up are nodes of the registry. -/
theorem above_subset (hn : g.exactNode? oid = some n) (h : g.above k n = some m) :
    ((List.range (k + 1)).map fun i => g.above i n) ⊆
      g.nodeKeys.map fun e => g.nodes.get? e.2 := by
  intro x hx
  obtain ⟨i, hi, rfl⟩ := List.mem_map.1 hx
  rw [List.mem_range] at hi
  rw [← Nat.add_sub_cancel' (Nat.le_of_lt_succ hi), above_add] at h
  obtain ⟨w, hw, -⟩ := Option.bind_eq_some_iff.1 h
  obtain ⟨name, hname⟩ := exists_exactNode? hn hw
  obtain ⟨key, hfind, hget⟩ := Option.bind_eq_some_iff.1 hname
  exact List.mem_map.2 ⟨(name, key), Keyed.mem_of_find? hfind, hget.trans hw.symm⟩

/-- **No way up is longer than there are nodes**: what stands above a node at all
stands fewer levels above it than the registry has nodes. -/
theorem exists_above_lt (hn : g.exactNode? oid = some n) (h : g.above k n = some m) :
    ∃ j, j < g.nodeKeys.length ∧ g.above j n = some m := by
  induction k using Nat.strong_induction_on with
  | h k ih =>
    by_cases hlt : k < g.nodeKeys.length
    · exact ⟨k, hlt, h⟩
    -- the way comes twice to one node, and does without the part in between
    obtain ⟨i, j, hij, hjk, hsame⟩ : ∃ i j, i < j ∧ j ≤ k ∧ g.above i n = g.above j n := by
      by_contra hnone
      have hnodup : ((List.range (k + 1)).map fun i => g.above i n).Nodup := by
        refine List.Nodup.map_on (fun i hi j hj hsame => ?_) List.nodup_range
        rw [List.mem_range] at hi hj
        rcases Nat.lt_trichotomy i j with hlt | heq | hlt
        · exact absurd ⟨i, j, hlt, Nat.le_of_lt_succ hj, hsame⟩ hnone
        · exact heq
        · exact absurd ⟨j, i, hlt, Nat.le_of_lt_succ hi, hsame.symm⟩ hnone
      have hlength := (List.subperm_of_subset hnodup (above_subset hn h)).length_le
      rw [List.length_map, List.length_map, List.length_range] at hlength
      omega
    have hshort : g.above (i + (k - j)) n = some m := by
      rw [above_add, hsame, ← above_add, Nat.add_sub_cancel' hjk, h]
    exact ih _ (by omega) hshort

/-- **What stands below a node has the constraints of the node**, in any registry. -/
theorem boundConstraints_subset_of_above (hn : g.node? low = some n) (hm : g.node? oid = some m)
    (habove : g.above k n = some m) : g.boundConstraints oid ⊆ g.boundConstraints low := by
  intro c hc
  rw [boundConstraints, hm, mem_constraintsUp_iff] at hc
  obtain ⟨j, -, w, hw, hown⟩ := hc
  have hfar : g.above (k + j) n = some w := by rw [above_add, habove, Option.bind_some, hw]
  obtain ⟨i, hi, hnear⟩ := exists_above_lt hn hfar
  rw [boundConstraints, hn, mem_constraintsUp_iff]
  exact ⟨i, hi, w, hnear, hown⟩

end Registry

/-! ## In a registry that holds an inventory -/

namespace Registry.Holds

variable {g : Registry} {v : Inventory} (h : g.Holds v) {t s u c : PartitionTree}
variable (ht : t ∈ v.trees) {n : Node} {oid low : Oid} {fuel fuel' k : Nat}

include h ht

/-- Beyond the levels above a node it makes no difference how far up the tree the
way may go. -/
theorem constraintsUp_eq (hs : s ∈ t.atDepth k) (hfuel : k < fuel) (hfuel' : k < fuel') :
    g.constraintsUp fuel (some s.node) = g.constraintsUp fuel' (some s.node) := by
  obtain ⟨r, hlinked⟩ := h.linked t ht
  induction k generalizing s fuel fuel' with
  | zero =>
    obtain rfl := List.mem_singleton.1 hs
    obtain ⟨f, rfl⟩ := Nat.exists_eq_succ_of_ne_zero (Nat.ne_of_gt hfuel)
    obtain ⟨f', rfl⟩ := Nat.exists_eq_succ_of_ne_zero (Nat.ne_of_gt hfuel')
    have hnone : ∀ f, g.constraintsUp f none = [] := fun f => by cases f <;> rfl
    rw [constraintsUp, constraintsUp, hlinked.parent, Option.bind_none, hnone, hnone]
  | succ k ih =>
    obtain ⟨u, hu, hpart⟩ := PartitionTree.mem_atDepth_succ_iff.1 hs
    have hmem := PartitionTree.mem_subtrees_of_mem_atDepth hu
    obtain ⟨f, rfl⟩ := Nat.exists_eq_succ_of_ne_zero (Nat.ne_of_gt (Nat.zero_lt_of_lt hfuel))
    obtain ⟨f', rfl⟩ := Nat.exists_eq_succ_of_ne_zero (Nat.ne_of_gt (Nat.zero_lt_of_lt hfuel'))
    rw [constraintsUp, constraintsUp, (hlinked.linkedAt u hmem).parent_of_part s hpart,
      Option.bind_some, h.exactNode?_subtree ht hmem,
      ih hu (Nat.lt_of_succ_lt_succ hfuel) (Nat.lt_of_succ_lt_succ hfuel')]

/-- **The constraints of a partition** are those of its bound, followed by those
of the node that it is a partition of. -/
theorem boundConstraints_of_part (hs : s ∈ t.subtrees) (hc : c ∈ s.parts) :
    ∃ b key, c.node.bound = some b ∧ s.node.key = some key ∧
      g.boundConstraints c.oid = b.constraints key ++ g.boundConstraints s.oid := by
  obtain ⟨r, hlinked⟩ := h.linked t ht
  have hat := hlinked.linkedAt s hs
  obtain ⟨b, hb⟩ := Option.isSome_iff_exists.1 (hat.bound_of_part c hc)
  obtain ⟨key, hkey⟩ : ∃ key, s.node.key = some key := by
    rw [← Option.ne_none_iff_exists']
    intro hnone
    rw [hat.parts_of_no_key hnone] at hc
    cases hc
  refine ⟨b, key, hb, hkey, ?_⟩
  obtain ⟨k, hdepth⟩ := PartitionTree.exists_mem_atDepth hs
  have hdepth' : c ∈ t.atDepth (k + 1) := PartitionTree.mem_atDepth_succ_iff.2 ⟨s, hdepth, hc⟩
  have hlevel : k + 1 < g.nodeKeys.length :=
    (PartitionTree.lt_height_of_mem_atDepth hdepth').trans_le (h.height_le ht t.self_mem_subtrees)
  -- the first step takes the way one level up, and leaves it enough for the rest
  rw [boundConstraints, h.node?_subtree ht (PartitionTree.parts_mem_subtrees hs hc),
    h.constraintsUp_eq ht hdepth' hlevel (Nat.lt_succ_of_lt hlevel), constraintsUp,
    hat.parent_of_part c hc, Option.bind_some, h.exactNode?_subtree ht hs, hb, Option.bind_some,
    hkey, boundConstraints, h.node?_subtree ht hs]

/-- What is below a node has the constraints of the node. -/
theorem boundConstraints_subset (hs : s ∈ t.subtrees) (hu : u ∈ s.subtrees) :
    g.boundConstraints s.oid ⊆ g.boundConstraints u.oid := by
  induction s using PartitionTree.induct with
  | h n ts ih =>
    rcases PartitionTree.mem_subtrees_iff.1 hu with rfl | ⟨c, hc, hu⟩
    · exact List.Subset.refl _
    · obtain ⟨b, key, -, -, heq⟩ := h.boundConstraints_of_part ht hs hc
      have hbelow := ih c hc (PartitionTree.parts_mem_subtrees hs hc) hu
      rw [heq] at hbelow
      exact List.Subset.trans (List.subset_append_right _ _) hbelow

omit ht in
/-- **Every partition below a node has the constraints of the node**, whether the
node goes by its identifier or by the relation it shadows. -/
theorem boundConstraints_subset_of_mem_descendants (hlow : low ∈ g.descendants oid) :
    g.boundConstraints oid ⊆ g.boundConstraints low := by
  obtain ⟨t, ht, s, hs, hnode, u, hu, rfl⟩ := h.exists_of_mem_descendants hlow
  rw [boundConstraints, hnode.trans (h.node?_subtree ht hs).symm]
  exact h.boundConstraints_subset ht hs hu

end Registry.Holds

end WhatIf
