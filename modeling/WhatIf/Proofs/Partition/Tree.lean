import WhatIf.Partition.Tree
import Mathlib.Data.Multiset.Bind
/-!
# Partition — trees of nodes

The registry holds a tree as loose nodes that name each other by identifier.
`PartitionTree` is the same tree held together: a node above the trees of its
partitions. Its nodes can be listed in preorder (`nodes`) and level by level
(`breadthFirst`), and the two lists hold the same nodes equally often.
`Linked` says that the identifiers inside the nodes are those of the tree.
-/

namespace WhatIf

/-- A node of a partition tree above the trees of its partitions. -/
inductive PartitionTree where
  | mk (node : Node) (parts : List PartitionTree)

namespace PartitionTree

/-- The node on top. -/
def node : PartitionTree → Node
  | mk n _ => n

/-- The trees of its partitions. -/
def parts : PartitionTree → List PartitionTree
  | mk _ ts => ts

/-- The identifier of the node on top. -/
def oid (t : PartitionTree) : Oid := t.node.oid

mutual

/-- The tree itself and every tree below it, each followed by what is below
it. -/
def subtrees : PartitionTree → List PartitionTree
  | mk n ts => mk n ts :: subtreesOfAll ts

/-- The same of each tree of a list. -/
def subtreesOfAll : List PartitionTree → List PartitionTree
  | [] => []
  | t :: ts => subtrees t ++ subtreesOfAll ts

end

mutual

/-- How many levels the tree has. -/
def height : PartitionTree → Nat
  | mk _ ts => heightOfAll ts + 1

/-- How many levels the highest tree of a list has. -/
def heightOfAll : List PartitionTree → Nat
  | [] => 0
  | t :: ts => max (height t) (heightOfAll ts)

end

/-- The nodes of the tree, each followed by those below it. -/
def nodes (t : PartitionTree) : List Node := t.subtrees.map node

/-- The identifiers of the nodes. -/
def oids (t : PartitionTree) : List Oid := t.nodes.map fun n => n.oid

/-- The trees so many levels below the top, from left to right. -/
def atDepth : Nat → PartitionTree → List PartitionTree
  | 0, t => [t]
  | k + 1, t => t.parts.flatMap (atDepth k)

/-- The tree itself and every tree below it, level by level. -/
def levels (t : PartitionTree) : List PartitionTree :=
  (List.range t.height).flatMap fun k => t.atDepth k

/-- The nodes of the tree level by level, the top first. -/
def breadthFirst (t : PartitionTree) : List Node := t.levels.map node

/-! ## Induction, and what is below what -/

/-- What holds of a tree whenever it holds of the trees of its partitions
holds of every tree. -/
theorem induct {P : PartitionTree → Prop} (h : ∀ n ts, (∀ t ∈ ts, P t) → P (mk n ts)) :
    ∀ t, P t :=
  @PartitionTree.rec P (fun ts => ∀ t ∈ ts, P t) h (by simp)
    fun t ts ht hts s hs => by
      rcases List.mem_cons.1 hs with rfl | hs
      · exact ht
      · exact hts s hs

variable {t s u c : PartitionTree} {n : Node} {ts : List PartitionTree} {k : Nat}

@[simp] theorem node_mk : (mk n ts).node = n := rfl

@[simp] theorem parts_mk : (mk n ts).parts = ts := rfl

theorem subtreesOfAll_eq (ts : List PartitionTree) : subtreesOfAll ts = ts.flatMap subtrees := by
  induction ts with
  | nil => rfl
  | cons t ts ih => rw [subtreesOfAll, ih, List.flatMap_cons]

theorem subtrees_eq (t : PartitionTree) : t.subtrees = t :: t.parts.flatMap subtrees := by
  cases t
  rw [subtrees, subtreesOfAll_eq, parts]

theorem mem_subtrees_iff : s ∈ t.subtrees ↔ s = t ∨ ∃ c ∈ t.parts, s ∈ c.subtrees := by
  rw [subtrees_eq, List.mem_cons, List.mem_flatMap]

theorem self_mem_subtrees (t : PartitionTree) : t ∈ t.subtrees := mem_subtrees_iff.2 (Or.inl rfl)

theorem mem_subtrees_of_mem_parts (hc : c ∈ t.parts) (hs : s ∈ c.subtrees) : s ∈ t.subtrees :=
  mem_subtrees_iff.2 (Or.inr ⟨c, hc, hs⟩)

/-- What is below something below a tree is below the tree. -/
theorem mem_subtrees_trans (hu : u ∈ s.subtrees) (hs : s ∈ t.subtrees) : u ∈ t.subtrees := by
  induction t using induct with
  | h n ts ih =>
    rcases mem_subtrees_iff.1 hs with rfl | ⟨c, hc, hs⟩
    · exact hu
    · exact mem_subtrees_of_mem_parts hc (ih c hc hs)

theorem parts_mem_subtrees (hs : s ∈ t.subtrees) (hc : c ∈ s.parts) : c ∈ t.subtrees :=
  mem_subtrees_trans (mem_subtrees_of_mem_parts hc (self_mem_subtrees c)) hs

/-- Everything in a tree but the tree itself is directly below something in
it. -/
theorem eq_or_mem_parts (hs : s ∈ t.subtrees) : s = t ∨ ∃ u ∈ t.subtrees, s ∈ u.parts := by
  induction t using induct with
  | h n ts ih =>
    rcases mem_subtrees_iff.1 hs with rfl | ⟨c, hc, hs⟩
    · exact Or.inl rfl
    · refine Or.inr ?_
      rcases ih c hc hs with rfl | ⟨u, hu, hpart⟩
      · exact ⟨mk n ts, self_mem_subtrees _, hc⟩
      · exact ⟨u, mem_subtrees_of_mem_parts hc hu, hpart⟩

/-- What is below something below a tree is listed below the tree, in the same
order. -/
theorem subtrees_sublist (hs : s ∈ t.subtrees) : s.subtrees.Sublist t.subtrees := by
  induction t using induct with
  | h n ts ih =>
    rcases mem_subtrees_iff.1 hs with rfl | ⟨c, hc, hs⟩
    · exact List.Sublist.refl _
    · rw [subtrees_eq (mk n ts), List.flatMap_def]
      refine ((ih c hc hs).trans ?_).cons _
      exact List.sublist_flatten_of_mem (List.mem_map_of_mem hc)

theorem node_mem_nodes (hs : s ∈ t.subtrees) : s.node ∈ t.nodes := List.mem_map_of_mem hs

theorem oid_mem_oids (hs : s ∈ t.subtrees) : s.oid ∈ t.oids :=
  List.mem_map_of_mem (node_mem_nodes hs)

theorem oids_eq (t : PartitionTree) : t.oids = t.subtrees.map oid := by
  rw [oids, nodes, List.map_map]
  rfl

theorem nodes_eq (t : PartitionTree) : t.nodes = t.node :: t.parts.flatMap nodes := by
  rw [nodes, subtrees_eq, List.map_cons, List.map_flatMap]
  rfl

/-! ## Levels -/

theorem heightOfAll_le_iff : heightOfAll ts ≤ k ↔ ∀ t ∈ ts, t.height ≤ k := by
  induction ts with
  | nil => simp [heightOfAll]
  | cons t ts ih => simp [heightOfAll, ih]

theorem height_le_succ_iff : t.height ≤ k + 1 ↔ ∀ c ∈ t.parts, c.height ≤ k := by
  cases t
  rw [height, Nat.add_le_add_iff_right, heightOfAll_le_iff, parts]

theorem height_pos (t : PartitionTree) : 0 < t.height := by
  cases t
  exact Nat.succ_pos _

/-- There is nothing below the last level. -/
theorem atDepth_eq_nil (h : t.height ≤ k) : t.atDepth k = [] := by
  induction k generalizing t with
  | zero => exact absurd (height_pos t) (by omega)
  | succ k ih =>
    rw [atDepth, List.flatMap_eq_nil_iff]
    exact fun c hc => ih (height_le_succ_iff.1 h c hc)

/-- **The levels make up the tree**: counted level by level, every tree below
stands as often as in preorder. -/
theorem flatMap_atDepth_perm (h : t.height ≤ k) :
    ((List.range k).flatMap fun i => t.atDepth i).Perm t.subtrees := by
  induction k generalizing t with
  | zero => exact absurd (height_pos t) (by omega)
  | succ k ih =>
    have hbelow : ∀ c ∈ t.parts, c.height ≤ k := height_le_succ_iff.1 h
    rw [List.range_succ_eq_map, List.flatMap_cons, List.flatMap_map, subtrees_eq]
    refine List.Perm.cons t ?_
    -- the two ways to sum over levels and over partitions
    have hswap : ((List.range k).flatMap fun i => t.parts.flatMap (atDepth i)).Perm
        (t.parts.flatMap fun c => (List.range k).flatMap fun i => c.atDepth i) := by
      rw [← Multiset.coe_eq_coe]
      have := Multiset.bind_bind (List.range k : Multiset Nat) (t.parts : Multiset PartitionTree)
        (f := fun i c => (c.atDepth i : Multiset PartitionTree))
      simpa [Multiset.coe_bind] using this
    exact hswap.trans (List.Perm.flatMap_left _ fun c hc => ih (hbelow c hc))

theorem levels_perm (t : PartitionTree) : t.levels.Perm t.subtrees := flatMap_atDepth_perm le_rfl

theorem breadthFirst_perm (t : PartitionTree) : t.breadthFirst.Perm t.nodes :=
  (levels_perm t).map node

/-- Counting further than the last level adds nothing. -/
theorem flatMap_atDepth_eq (h : t.height ≤ k) :
    ((List.range k).flatMap fun i => t.atDepth i) = t.levels := by
  obtain ⟨j, rfl⟩ := Nat.exists_eq_add_of_le h
  rw [levels, List.range_add, List.flatMap_append, List.append_right_eq_self,
    List.flatMap_eq_nil_iff]
  intro i hi
  obtain ⟨d, -, rfl⟩ := List.mem_map.1 hi
  exact atDepth_eq_nil (Nat.le_add_right _ _)

/-- A level is what is directly below the level above it. -/
theorem mem_atDepth_succ_iff : s ∈ t.atDepth (k + 1) ↔ ∃ u ∈ t.atDepth k, s ∈ u.parts := by
  induction k generalizing t with
  | zero => simp [atDepth]
  | succ k ih =>
    rw [atDepth, atDepth]
    simp only [List.mem_flatMap]
    constructor
    · rintro ⟨c, hc, hs⟩
      obtain ⟨u, hu, hs⟩ := ih.1 hs
      exact ⟨u, ⟨c, hc, hu⟩, hs⟩
    · rintro ⟨u, ⟨c, hc, hu⟩, hs⟩
      exact ⟨c, hc, ih.2 ⟨u, hu, hs⟩⟩

theorem mem_subtrees_of_mem_atDepth (hs : s ∈ t.atDepth k) : s ∈ t.subtrees := by
  induction k generalizing t with
  | zero =>
    rw [List.mem_singleton.1 hs]
    exact self_mem_subtrees t
  | succ k ih =>
    obtain ⟨c, hc, hs⟩ := List.mem_flatMap.1 hs
    exact mem_subtrees_of_mem_parts hc (ih hs)

theorem lt_height_of_mem_atDepth (hs : s ∈ t.atDepth k) : k < t.height := by
  by_contra hle
  rw [atDepth_eq_nil (Nat.le_of_not_lt hle)] at hs
  cases hs

/-- Everything in a tree is on one of its levels. -/
theorem exists_mem_atDepth (hs : s ∈ t.subtrees) : ∃ k, s ∈ t.atDepth k := by
  obtain ⟨k, -, hs⟩ := List.mem_flatMap.1 (t.levels_perm.mem_iff.2 hs)
  exact ⟨k, hs⟩

/-- A tree has at least as many nodes as levels. -/
theorem height_le_length (t : PartitionTree) : t.height ≤ t.subtrees.length := by
  induction t using induct with
  | h n ts ih =>
    rw [subtrees_eq, List.length_cons]
    refine height_le_succ_iff.2 fun c hc => (ih c hc).trans ?_
    rw [List.flatMap_def]
    exact (List.sublist_flatten_of_mem (List.mem_map_of_mem hc)).length_le

/-! ## Links -/

/-- **A tree in which a node stands as it says**: it names the trees below it,
each of which names it as its parent and has a bound; without a key there are
none, and a key is one of the relation's. -/
structure LinkedAt (r : Relation) (s : PartitionTree) : Prop where
  relid : s.node.relid = r.oid
  children : s.node.children = s.parts.map oid
  parent_of_part : ∀ c ∈ s.parts, c.node.parent = some s.oid
  bound_of_part : ∀ c ∈ s.parts, c.node.bound.isSome
  parts_of_no_key : s.node.key = none → s.parts = []
  key : ∀ k, s.node.key = some k → ∃ strategy names, Layout.resolveKey r strategy names = .ok k

/-- **A whole tree over a relation**: every node stands as it says, and the
top one is partitioned and has no parent. -/
structure Linked (r : Relation) (t : PartitionTree) : Prop where
  linkedAt : ∀ s ∈ t.subtrees, s.LinkedAt r
  parent : t.node.parent = none
  key : t.node.key.isSome

/-- The top node alone has no parent. -/
theorem Linked.eq_of_isRoot {r : Relation} (h : t.Linked r) (hs : s ∈ t.subtrees)
    (hroot : s.node.isRoot = true) : s = t := by
  rcases eq_or_mem_parts hs with rfl | ⟨u, hu, hpart⟩
  · rfl
  · rw [Node.isRoot, (h.linkedAt u hu).parent_of_part s hpart] at hroot
    cases hroot

end PartitionTree

end WhatIf
