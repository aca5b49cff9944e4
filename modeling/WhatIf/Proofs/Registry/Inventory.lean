import WhatIf.Registry.Basic
import WhatIf.Proofs.Store.Keyed
import WhatIf.Proofs.Partition.Tree
import Mathlib.Data.List.Forall2
/-!
# Registry — what it holds

The registry spreads its objects over two arenas, three keyed lists and two
orders. An `Inventory` is what they amount to: a list of indexes and a list of
partition trees, in order of registration. `Holds` says that a registry is one
way to keep an inventory, and from it every lookup and every listing of the
registry is read off.
-/

namespace WhatIf

/-- The hypothetical objects, in order of registration. -/
structure Inventory where
  /-- The indexes. -/
  indexes : List HypotheticalIndex
  /-- The partition trees. -/
  trees : List PartitionTree

namespace Inventory

/-- No objects. -/
def empty : Inventory := ⟨[], []⟩

/-- The nodes of all trees. -/
def nodes (v : Inventory) : List Node := v.trees.flatMap PartitionTree.nodes

/-- The identifiers of the nodes. -/
def nodeOids (v : Inventory) : List Oid := v.trees.flatMap PartitionTree.oids

/-- The identifiers of all objects. -/
def oids (v : Inventory) : List Oid := (v.indexes.map fun i => i.oid) ++ v.nodeOids

/-- That a relation is shadowed by a tree. -/
def Shadows (v : Inventory) (relid : Oid) : Prop := ∃ t ∈ v.trees, t.node.relid = relid

/-- That an identifier leads to a node: to the one it names, or to the root
over the relation it names. -/
def Resolves (v : Inventory) (oid : Oid) (n : Node) : Prop :=
  ∃ t ∈ v.trees, (n ∈ t.nodes ∧ n.oid = oid) ∨ (n = t.node ∧ t.node.relid = oid)

end Inventory

/-- **A registry that keeps an inventory.** The identifiers of its objects are
distinct, no two trees shadow one relation, and no relation that is shadowed
goes by the identifier of a node. -/
structure Registry.Holds (g : Registry) (v : Inventory) : Prop where
  indexes : Indexed (fun i => i.oid) g.indexes g.indexKeys v.indexes
  indexOrder : List.Forall₂ (fun k i => g.indexes.get? k = some i) g.indexOrder v.indexes
  nodes : Indexed (fun n => n.oid) g.nodes g.nodeKeys v.nodes
  rootOf : ∀ relid oid, Keyed.find? g.rootOf relid = some oid ↔
    ∃ t ∈ v.trees, t.node.relid = relid ∧ t.oid = oid
  roots : g.roots = v.trees.map PartitionTree.oid
  linked : ∀ t ∈ v.trees, ∃ r, t.Linked r
  oids_nodup : v.oids.Nodup
  relids_nodup : (v.trees.map fun t => t.node.relid).Nodup
  apart : ∀ t ∈ v.trees, t.node.relid ∉ v.nodeOids

namespace Inventory

variable {v : Inventory} {t : PartitionTree} {n : Node} {oid : Oid}

theorem mem_nodes_iff : n ∈ v.nodes ↔ ∃ t ∈ v.trees, n ∈ t.nodes := List.mem_flatMap

theorem map_nodes (v : Inventory) : (v.nodes.map fun n => n.oid) = v.nodeOids := by
  rw [nodes, List.map_flatMap]
  rfl

theorem mem_nodeOids_iff : oid ∈ v.nodeOids ↔ ∃ n ∈ v.nodes, n.oid = oid := by
  rw [← map_nodes, List.mem_map]

theorem mem_nodeOids_of_mem (hn : n ∈ v.nodes) : n.oid ∈ v.nodeOids :=
  mem_nodeOids_iff.2 ⟨n, hn, rfl⟩

theorem mem_oids_iff : oid ∈ v.oids ↔ (∃ i ∈ v.indexes, i.oid = oid) ∨ oid ∈ v.nodeOids := by
  rw [oids, List.mem_append, List.mem_map]

end Inventory

namespace Registry.Holds

variable {g : Registry} {v : Inventory} (h : g.Holds v)
variable {t u s : PartitionTree} {n : Node} {i : HypotheticalIndex} {oid relid child low : Oid}

include h

theorem nodeOids_nodup : v.nodeOids.Nodup := (List.nodup_append.1 h.oids_nodup).2.1

/-! ## Indexes -/

/-- **An index is found by its identifier**, and by nothing else. -/
theorem index?_iff : g.index? oid = some i ↔ i ∈ v.indexes ∧ i.oid = oid := h.indexes.lookup_iff

/-- The indexes are listed as registered. -/
theorem indexList : g.indexList = v.indexes := by
  have hmap : ∀ {ks : List ArenaKey} {is : List HypotheticalIndex},
      List.Forall₂ (fun k i => g.indexes.get? k = some i) ks is →
        ks.filterMap g.indexes.get? = is := by
    intro ks is hf
    induction hf with
    | nil => rfl
    | cons hk _ ih => rw [List.filterMap_cons_some hk, ih]
  exact hmap h.indexOrder

theorem indexesOn : g.indexesOn relid = v.indexes.filter fun i => i.relid == relid := by
  rw [Registry.indexesOn, h.indexList]

/-! ## Nodes -/

theorem exactNode?_iff : g.exactNode? oid = some n ↔ n ∈ v.nodes ∧ n.oid = oid :=
  h.nodes.lookup_iff

/-- Two trees over one relation are one. -/
theorem eq_of_relid (ht : t ∈ v.trees) (hu : u ∈ v.trees) (heq : t.node.relid = u.node.relid) :
    t = u :=
  List.inj_on_of_nodup_map h.relids_nodup ht hu heq

/-- A relation without a tree goes by its own identifier. -/
theorem canonical_of_not_shadowed (hno : ¬ v.Shadows relid) : g.canonical relid = relid := by
  have hnone : Keyed.find? g.rootOf relid = none := by
    rw [Option.eq_none_iff_forall_ne_some]
    intro oid hoid
    obtain ⟨t, ht, hrelid, -⟩ := (h.rootOf relid oid).1 hoid
    exact hno ⟨t, ht, hrelid⟩
  rw [canonical, hnone]
  rfl

/-- A shadowed relation goes by the root of its tree. -/
theorem canonical_relid (ht : t ∈ v.trees) : g.canonical t.node.relid = t.oid := by
  rw [canonical, (h.rootOf t.node.relid t.oid).2 ⟨t, ht, rfl, rfl⟩]
  rfl

/-- A node goes by its own identifier. -/
theorem canonical_oid (hn : n ∈ v.nodes) : g.canonical n.oid = n.oid := by
  refine h.canonical_of_not_shadowed ?_
  rintro ⟨t, ht, hrelid⟩
  exact h.apart t ht (hrelid ▸ Inventory.mem_nodeOids_of_mem hn)

theorem node?_oid (hn : n ∈ v.nodes) : g.node? n.oid = some n := by
  rw [node?, h.canonical_oid hn, h.exactNode?_iff]
  exact ⟨hn, rfl⟩

omit h in
theorem node_mem_nodes (ht : t ∈ v.trees) (hs : s ∈ t.subtrees) : s.node ∈ v.nodes :=
  Inventory.mem_nodes_iff.2 ⟨t, ht, PartitionTree.node_mem_nodes hs⟩

theorem node?_subtree (ht : t ∈ v.trees) (hs : s ∈ t.subtrees) : g.node? s.oid = some s.node :=
  h.node?_oid (node_mem_nodes ht hs)

theorem exactNode?_subtree (ht : t ∈ v.trees) (hs : s ∈ t.subtrees) :
    g.exactNode? s.oid = some s.node :=
  h.exactNode?_iff.2 ⟨node_mem_nodes ht hs, rfl⟩

theorem node?_relid (ht : t ∈ v.trees) : g.node? t.node.relid = some t.node := by
  rw [node?, h.canonical_relid ht]
  exact h.exactNode?_subtree ht t.self_mem_subtrees

/-- **What leads to a node**: its identifier, and the relation that a root
shadows. Nothing else does. -/
theorem node?_iff : g.node? oid = some n ↔ v.Resolves oid n := by
  constructor
  · intro hnode
    by_cases hs : v.Shadows oid
    · obtain ⟨t, ht, rfl⟩ := hs
      rw [h.node?_relid ht] at hnode
      exact ⟨t, ht, Or.inr ⟨(Option.some.inj hnode).symm, rfl⟩⟩
    · rw [node?, h.canonical_of_not_shadowed hs, h.exactNode?_iff] at hnode
      obtain ⟨t, ht, hn⟩ := Inventory.mem_nodes_iff.1 hnode.1
      exact ⟨t, ht, Or.inl ⟨hn, hnode.2⟩⟩
  · rintro ⟨t, ht, ⟨hn, rfl⟩ | ⟨rfl, rfl⟩⟩
    · exact h.node?_oid (Inventory.mem_nodes_iff.2 ⟨t, ht, hn⟩)
    · exact h.node?_relid ht

/-- What leads to a node is the identifier of one, or a relation with a tree. -/
theorem exists_subtree (hn : g.node? oid = some n) :
    ∃ t ∈ v.trees, ∃ s ∈ t.subtrees, s.node = n := by
  obtain ⟨t, ht, ⟨hmem, -⟩ | ⟨rfl, -⟩⟩ := h.node?_iff.1 hn
  · obtain ⟨s, hs, rfl⟩ := List.mem_map.1 hmem
    exact ⟨t, ht, s, hs, rfl⟩
  · exact ⟨t, ht, t, t.self_mem_subtrees, rfl⟩

theorem node?_self (hn : g.node? oid = some n) : g.node? n.oid = some n := by
  obtain ⟨t, ht, s, hs, rfl⟩ := h.exists_subtree hn
  exact h.node?_subtree ht hs

theorem isShadowed_iff : g.isShadowed relid = true ↔ v.Shadows relid := by
  rw [isShadowed, Option.isSome_iff_exists]
  constructor
  · rintro ⟨oid, hoid⟩
    obtain ⟨t, ht, hrelid, -⟩ := (h.rootOf relid oid).1 hoid
    exact ⟨t, ht, hrelid⟩
  · rintro ⟨t, ht, hrelid⟩
    exact ⟨t.oid, (h.rootOf relid t.oid).2 ⟨t, ht, hrelid, rfl⟩⟩

/-! ## Levels -/

theorem childrenOf_subtree (ht : t ∈ v.trees) (hs : s ∈ t.subtrees) :
    g.childrenOf s.oid = s.parts.map PartitionTree.oid := by
  obtain ⟨r, hlinked⟩ := h.linked t ht
  rw [childrenOf, h.node?_subtree ht hs]
  exact (hlinked.linkedAt s hs).children

/-- **The children of a node** are nodes over the same relation. -/
theorem exists_of_mem_children (hn : g.node? oid = some n) (hchild : child ∈ n.children) :
    ∃ m, g.node? child = some m ∧ m.oid = child ∧ m.relid = n.relid := by
  obtain ⟨t, ht, s, hs, rfl⟩ := h.exists_subtree hn
  obtain ⟨r, hlinked⟩ := h.linked t ht
  rw [(hlinked.linkedAt s hs).children] at hchild
  obtain ⟨part, hpart, rfl⟩ := List.mem_map.1 hchild
  have hsub := PartitionTree.parts_mem_subtrees hs hpart
  exact ⟨part.node, h.node?_subtree ht hsub, rfl,
    (hlinked.linkedAt part hsub).relid.trans (hlinked.linkedAt s hs).relid.symm⟩

/-- The levels below given trees, with the identifiers in their nodes. -/
theorem levelsFrom_eq {fuel : Nat} {ss : List PartitionTree} (ht : t ∈ v.trees)
    (hss : ∀ s ∈ ss, s ∈ t.subtrees) :
    g.levelsFrom fuel (ss.map PartitionTree.oid) =
      (List.range fuel).flatMap fun k =>
        (ss.flatMap (PartitionTree.atDepth k)).map PartitionTree.oid := by
  induction fuel generalizing ss with
  | zero => rfl
  | succ fuel ih =>
    rw [levelsFrom]
    -- without trees to start from the search stops before its fuel does
    by_cases hnil : ss = []
    · simp [hnil]
    · have hchildren : (ss.map PartitionTree.oid).flatMap g.childrenOf =
          (ss.flatMap PartitionTree.parts).map PartitionTree.oid := by
        rw [List.flatMap_map, List.map_flatMap]
        exact List.flatMap_congr fun s hs => h.childrenOf_subtree ht (hss s hs)
      have hbelow : ∀ c ∈ ss.flatMap PartitionTree.parts, c ∈ t.subtrees := by
        intro c hc
        obtain ⟨s, hs, hc⟩ := List.mem_flatMap.1 hc
        exact PartitionTree.parts_mem_subtrees (hss s hs) hc
      rw [if_neg (by simp [hnil]), hchildren, ih hbelow, List.range_succ_eq_map,
        List.flatMap_cons, List.flatMap_map]
      congr 1
      · simp [PartitionTree.atDepth]
      · exact List.flatMap_congr fun k _ => by rw [List.flatMap_assoc]; rfl

/-- The identifiers of a tree are distinct. -/
theorem oids_nodup_of_mem (ht : t ∈ v.trees) : t.oids.Nodup := by
  refine List.Nodup.sublist ?_ h.nodeOids_nodup
  rw [Inventory.nodeOids, List.flatMap_def]
  exact List.sublist_flatten_of_mem (List.mem_map_of_mem ht)

/-- A tree below a tree goes by its identifier. -/
theorem eq_of_oid (ht : t ∈ v.trees) (hs : s ∈ t.subtrees) (hu : u ∈ t.subtrees)
    (heq : s.oid = u.oid) : s = u := by
  have hnodup := h.oids_nodup_of_mem ht
  rw [PartitionTree.oids_eq] at hnodup
  exact List.inj_on_of_nodup_map hnodup hs hu heq

/-- There are at least as many nodes as a tree has levels. -/
theorem height_le (ht : t ∈ v.trees) (hs : s ∈ t.subtrees) : s.height ≤ g.nodeKeys.length := by
  have hmem : ∀ oid ∈ s.oids, oid ∈ v.nodeOids := by
    intro oid hoid
    rw [PartitionTree.oids_eq] at hoid
    obtain ⟨u, hu, rfl⟩ := List.mem_map.1 hoid
    exact Inventory.mem_nodeOids_of_mem (node_mem_nodes ht (PartitionTree.mem_subtrees_trans hu hs))
  have hnodup : s.oids.Nodup := by
    refine List.Nodup.sublist ?_ (h.oids_nodup_of_mem ht)
    rw [PartitionTree.oids_eq, PartitionTree.oids_eq]
    exact (PartitionTree.subtrees_sublist hs).map _
  have hkey : ∀ oid ∈ s.oids, (Keyed.find? g.nodeKeys oid).isSome := by
    intro oid hoid
    obtain ⟨n, hn, rfl⟩ := Inventory.mem_nodeOids_iff.1 (hmem oid hoid)
    obtain ⟨k, hk⟩ := (h.nodes.live_iff n).2 hn
    rw [(h.nodes.find?_iff n.oid k).2 ⟨n, hk, rfl⟩]
    rfl
  calc s.height ≤ s.subtrees.length := s.height_le_length
    _ = s.oids.length := by rw [PartitionTree.oids_eq, List.length_map]
    _ ≤ g.nodeKeys.length := Keyed.length_le_of_find? hnodup hkey

/-- **A node followed by what is below it**, level by level. -/
theorem descendants_eq (ht : t ∈ v.trees) (hs : s ∈ t.subtrees) :
    s.oid :: g.descendants s.oid = s.levels.map PartitionTree.oid := by
  have hparts : ∀ c ∈ s.parts, c ∈ t.subtrees := fun c hc => PartitionTree.parts_mem_subtrees hs hc
  have hheight : s.height ≤ g.nodeKeys.length + 1 := (h.height_le ht hs).trans (Nat.le_succ _)
  rw [descendants, h.childrenOf_subtree ht hs, h.levelsFrom_eq ht hparts,
    ← PartitionTree.flatMap_atDepth_eq hheight, List.range_succ_eq_map, List.flatMap_cons,
    List.flatMap_map, List.map_append, List.map_flatMap]
  rfl

/-- What is below a node, found through its identifiers. -/
theorem node?_levels (ht : t ∈ v.trees) (hs : s ∈ t.subtrees) :
    (s.levels.map PartitionTree.oid).filterMap g.node? = s.breadthFirst := by
  have hmem : ∀ u ∈ s.levels, u ∈ t.subtrees := fun u hu =>
    PartitionTree.mem_subtrees_trans (s.levels_perm.mem_iff.1 hu) hs
  rw [PartitionTree.breadthFirst, List.filterMap_map, ← List.filterMap_eq_map]
  exact List.filterMap_congr fun u hu => h.node?_subtree ht (hmem u hu)

/-- **What is below an identifier** is below the node it leads to. -/
theorem exists_of_mem_descendants (hlow : low ∈ g.descendants oid) :
    ∃ t ∈ v.trees, ∃ s ∈ t.subtrees, g.node? oid = some s.node ∧ ∃ u ∈ s.subtrees, u.oid = low := by
  rcases hnode : g.node? oid with _ | n
  · -- where there is no node there is nothing below it
    have hchildren : g.childrenOf oid = [] := by rw [childrenOf, hnode]
    have hnone : ∀ f, g.levelsFrom f [] = [] := fun f => by cases f <;> rfl
    rw [descendants, hchildren, hnone] at hlow
    cases hlow
  obtain ⟨t, ht, s, hs, rfl⟩ := h.exists_subtree hnode
  have hsame : g.node? oid = g.node? s.oid := hnode.trans (h.node?_subtree ht hs).symm
  have hbelow : low ∈ s.oid :: g.descendants s.oid := by
    rw [descendants, childrenOf, hsame] at hlow
    exact List.mem_cons_of_mem _ hlow
  rw [h.descendants_eq ht hs] at hbelow
  obtain ⟨u, hu, rfl⟩ := List.mem_map.1 hbelow
  exact ⟨t, ht, s, hs, rfl, u, s.levels_perm.mem_iff.1 hu, rfl⟩

theorem mem_nodeOids_of_mem_descendants (hlow : low ∈ g.descendants oid) : low ∈ v.nodeOids := by
  obtain ⟨t, ht, s, hs, -, u, hu, rfl⟩ := h.exists_of_mem_descendants hlow
  exact Inventory.mem_nodeOids_of_mem (node_mem_nodes ht (PartitionTree.mem_subtrees_trans hu hs))

/-- The roots are listed as registered. -/
theorem rootList : g.rootList = v.trees.map PartitionTree.node := by
  rw [Registry.rootList, h.roots, List.filterMap_map, ← List.filterMap_eq_map]
  exact List.filterMap_congr fun t ht => h.node?_subtree ht t.self_mem_subtrees

end Registry.Holds

end WhatIf
