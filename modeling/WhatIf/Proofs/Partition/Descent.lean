import WhatIf.Proofs.Partition.Tree
/-!
# Partition — a tree as it is gone through

A tree is unfolded from the top: the partitions of a node are met one after
the other before anything below them (`edges`). Of a test that refutes some
nodes follows which nodes are left without rows, because they are refuted or
because all their partitions are (`emptied`), and which leaves are still to be
read (`survivors`). Both lists are first computed down the tree, in the order
in which they come up, and then shown to be what they should be.
-/

namespace WhatIf

namespace PartitionTree

/-- The identifier of a node as a partition; the top of a whole tree is none. -/
def partition? (s : PartitionTree) : Option Oid := if s.node.isRoot then none else some s.oid

/-- The identifier a node is planned under: its own if it is a partition, and
that of the relation otherwise. -/
def plannedAs (s : PartitionTree) : Oid := s.partition?.getD s.node.relid

/-- The partitions of a tree at every level, each followed by those below
it. -/
def partitions (t : PartitionTree) : List PartitionTree := t.parts.flatMap subtrees

mutual

/-- The pairs of a node and one of its partitions: those of the top first,
then those below each partition of it. -/
def edges : PartitionTree → List (PartitionTree × PartitionTree)
  | mk n ts => (ts.map fun c => (mk n ts, c)) ++ edgesOfAll ts

/-- The same of each tree of a list. -/
def edgesOfAll : List PartitionTree → List (PartitionTree × PartitionTree)
  | [] => []
  | t :: ts => edges t ++ edgesOfAll ts

end

section Refuted

variable (refuted : PartitionTree → Bool)

mutual

/-- Whether a node is left without rows: it is refuted, or it is partitioned
and all its partitions are left without rows. -/
def emptied : PartitionTree → Bool
  | mk n ts => refuted (mk n ts) || (n.isPartitioned && allEmptied ts)

/-- Whether every tree of a list is. -/
def allEmptied : List PartitionTree → Bool
  | [] => true
  | t :: ts => emptied t && allEmptied ts

end

mutual

/-- The partitions without rows at and below a node, each after those below
it. -/
def emptiedWithin : PartitionTree → List PartitionTree
  | mk n ts =>
    emptiedWithinAll ts ++
      if !n.isRoot && emptied refuted (mk n ts) then [mk n ts] else []

/-- The same of each tree of a list. -/
def emptiedWithinAll : List PartitionTree → List PartitionTree
  | [] => []
  | t :: ts => emptiedWithin t ++ emptiedWithinAll ts

end

mutual

/-- The leaves at and below a node that are not refuted, and nothing above them
up to the node. -/
def kept : PartitionTree → List PartitionTree
  | mk n ts =>
    if refuted (mk n ts) then [] else if n.isPartitioned then keptOfAll ts else [mk n ts]

/-- The same of each tree of a list. -/
def keptOfAll : List PartitionTree → List PartitionTree
  | [] => []
  | t :: ts => kept t ++ keptOfAll ts

end

end Refuted

/-- **The leaves with rows**: those of which neither they themselves nor a
partition above them is without rows. -/
def survivors (dummy : PartitionTree → Bool) (t : PartitionTree) : List PartitionTree :=
  t.partitions.filter fun u =>
    !u.node.isPartitioned && t.partitions.all fun s => !(dummy s && s.oids.contains u.oid)

variable {t s u c : PartitionTree} {n : Node} {ts : List PartitionTree} {r : Relation}
variable {refuted : PartitionTree → Bool}

/-! ## Identifiers -/

theorem Linked.isRoot_of_mem_parts (h : t.Linked r) (hs : s ∈ t.subtrees) (hc : c ∈ s.parts) :
    c.node.isRoot = false := by
  rw [Node.isRoot, (h.linkedAt s hs).parent_of_part c hc]
  rfl

/-- The partitions of a tree are what stands below its top. -/
theorem mem_subtrees_iff_partitions : s ∈ t.subtrees ↔ s = t ∨ s ∈ t.partitions := by
  rw [mem_subtrees_iff, partitions, List.mem_flatMap]

theorem mem_subtrees_of_mem_partitions (hs : s ∈ t.partitions) : s ∈ t.subtrees :=
  mem_subtrees_iff_partitions.2 (Or.inr hs)

theorem Linked.isRoot_of_mem_partitions (h : t.Linked r) (hs : s ∈ t.partitions) :
    s.node.isRoot = false := by
  obtain ⟨c, hc, hsc⟩ := List.mem_flatMap.1 hs
  rcases eq_or_mem_parts hsc with rfl | ⟨u, hu, hpart⟩
  · exact h.isRoot_of_mem_parts t.self_mem_subtrees hc
  · exact h.isRoot_of_mem_parts (mem_subtrees_of_mem_parts hc hu) hpart

theorem Linked.isRoot_self (h : t.Linked r) : t.node.isRoot = true := by
  rw [Node.isRoot, h.parent]
  rfl

/-- A node without a key has no partitions. -/
theorem Linked.parts_eq_nil (h : t.Linked r) (hs : s ∈ t.subtrees)
    (hkey : s.node.isPartitioned = false) : s.parts = [] :=
  (h.linkedAt s hs).parts_of_no_key (Option.not_isSome_iff_eq_none.1 (Bool.eq_false_iff.1 hkey))

/-- The top of a whole tree is no leaf. -/
theorem Linked.isRoot_of_leaf (h : t.Linked r) (hs : s ∈ t.subtrees)
    (hkey : s.node.isPartitioned = false) : s.node.isRoot = false := by
  refine Bool.eq_false_iff.2 fun hroot => ?_
  obtain rfl := h.eq_of_isRoot hs hroot
  exact Bool.eq_false_iff.1 hkey h.key

theorem partition?_of_isRoot (h : s.node.isRoot = true) : s.partition? = none := if_pos h

theorem partition?_of_not_isRoot (h : s.node.isRoot = false) : s.partition? = some s.oid := by
  rw [partition?, h]
  rfl

theorem plannedAs_of_isRoot (h : s.node.isRoot = true) : s.plannedAs = s.node.relid := by
  rw [plannedAs, partition?_of_isRoot h]
  rfl

theorem plannedAs_of_not_isRoot (h : s.node.isRoot = false) : s.plannedAs = s.oid := by
  rw [plannedAs, partition?_of_not_isRoot h]
  rfl

theorem Linked.partition?_of_mem_partitions (h : t.Linked r) (hs : s ∈ t.partitions) :
    s.partition? = some s.oid :=
  partition?_of_not_isRoot (h.isRoot_of_mem_partitions hs)

theorem Linked.plannedAs_of_mem_parts (h : t.Linked r) (hs : s ∈ t.subtrees) (hc : c ∈ s.parts) :
    c.plannedAs = c.oid :=
  plannedAs_of_not_isRoot (h.isRoot_of_mem_parts hs hc)

/-! ## Pairs -/

theorem edgesOfAll_eq (ts : List PartitionTree) : edgesOfAll ts = ts.flatMap edges := by
  induction ts with
  | nil => rfl
  | cons t ts ih => rw [edgesOfAll, ih, List.flatMap_cons]

theorem edges_eq (t : PartitionTree) :
    t.edges = (t.parts.map fun c => (t, c)) ++ t.parts.flatMap edges := by
  cases t
  rw [edges, edgesOfAll_eq, parts]

/-- **The pairs are those of a node in the tree and a partition of it.** -/
theorem edges_perm (t : PartitionTree) :
    t.edges.Perm (t.subtrees.flatMap fun s => s.parts.map fun c => (s, c)) := by
  induction t using induct with
  | h n ts ih =>
    rw [edges_eq, subtrees_eq, List.flatMap_cons, List.flatMap_assoc]
    exact (List.Perm.flatMap_left _ fun c hc => ih c hc).append_left _

theorem mem_edges_iff : (s, c) ∈ t.edges ↔ s ∈ t.subtrees ∧ c ∈ s.parts := by
  rw [t.edges_perm.mem_iff, List.mem_flatMap]
  constructor
  · rintro ⟨u, hu, hmem⟩
    obtain ⟨d, hd, heq⟩ := List.mem_map.1 hmem
    obtain ⟨rfl, rfl⟩ := Prod.mk.inj heq
    exact ⟨hu, hd⟩
  · rintro ⟨hs, hc⟩
    exact ⟨s, hs, List.mem_map_of_mem hc⟩

/-- Every partition is met once. -/
theorem edges_snd_perm (t : PartitionTree) : (t.edges.map Prod.snd).Perm t.partitions := by
  induction t using induct with
  | h n ts ih =>
    have hbelow : ((ts.flatMap edges).map Prod.snd).Perm (ts.flatMap partitions) := by
      rw [List.map_flatMap]
      exact List.Perm.flatMap_left _ fun c hc => ih c hc
    have hparts : ts.map ((fun e : PartitionTree × PartitionTree => e.2) ∘ fun c => (mk n ts, c)) =
        ts.flatMap fun c => [c] := by
      rw [List.flatMap_singleton']
      exact List.map_id ts
    rw [edges_eq, List.map_append, List.map_map, parts_mk]
    calc ts.map (Prod.snd ∘ fun c => (mk n ts, c)) ++ (ts.flatMap edges).map Prod.snd
      _ = (ts.flatMap fun c => [c]) ++ (ts.flatMap edges).map Prod.snd := by rw [← hparts]
      List.Perm _ ((ts.flatMap fun c => [c]) ++ ts.flatMap partitions) := hbelow.append_left _
      List.Perm _ (ts.flatMap fun c => [c] ++ c.partitions) := List.flatMap_append_perm ..
      _ = (mk n ts).partitions := List.flatMap_congr fun c _ => (subtrees_eq c).symm

/-! ## Apart from each other -/

theorem oids_cons (t : PartitionTree) : t.oids = t.oid :: t.parts.flatMap oids := by
  rw [oids, nodes_eq, List.map_cons, List.map_flatMap]
  rfl

theorem oids_nodup_of_mem_subtrees (hnodup : t.oids.Nodup) (hs : s ∈ t.subtrees) :
    s.oids.Nodup := by
  rw [oids_eq] at hnodup ⊢
  exact hnodup.sublist ((subtrees_sublist hs).map _)

theorem oids_nodup_of_mem_parts (hnodup : t.oids.Nodup) (hc : c ∈ t.parts) : c.oids.Nodup :=
  oids_nodup_of_mem_subtrees hnodup (mem_subtrees_of_mem_parts hc c.self_mem_subtrees)

/-- The partitions of a node have different identifiers. -/
theorem map_parts_nodup (hnodup : t.oids.Nodup) (hs : s ∈ t.subtrees) :
    (s.parts.map oid).Nodup := by
  have hself := oids_nodup_of_mem_subtrees hnodup hs
  have hmet : ((s.edges.map Prod.snd).map oid).Nodup := by
    rw [oids_eq, subtrees_eq, List.map_cons, List.nodup_cons] at hself
    exact (s.edges_snd_perm.map oid).nodup_iff.2 hself.2
  -- the partitions of the node itself are met first
  rw [edges_eq, List.map_append, List.map_append, List.nodup_append', List.map_map, List.map_map]
    at hmet
  exact hmet.1

/-- The top is not among what stands below it. -/
theorem oid_not_mem_of_mem_parts (hnodup : t.oids.Nodup) (hc : c ∈ t.parts) : t.oid ∉ c.oids := by
  intro hoid
  rw [oids_cons] at hnodup
  exact (List.nodup_cons.1 hnodup).1 (List.mem_flatMap.2 ⟨c, hc, hoid⟩)

/-- What stands below different partitions of a node has different
identifiers. -/
theorem eq_of_mem_oids (hnodup : t.oids.Nodup) {d : PartitionTree} (hc : c ∈ t.parts)
    (hd : d ∈ t.parts) {oid : Oid} (hoid : oid ∈ c.oids) (hoid' : oid ∈ d.oids) : c = d := by
  rw [oids_cons, List.nodup_cons] at hnodup
  by_contra hne
  have : Std.Symm (Function.onFun List.Disjoint oids) := ⟨fun _ _ h => List.Disjoint.symm h⟩
  exact (List.nodup_flatMap.1 hnodup.2).2.forall hc hd hne hoid hoid'

/-- Of lists that belong to the partitions of a node there is one left, if the
others are empty. -/
theorem flatMap_parts_eq {α : Type} (hnodup : t.oids.Nodup) (hc : c ∈ t.parts) {oid : Oid}
    (hoid : oid ∈ c.oids) {f : PartitionTree → List α}
    (hf : ∀ d ∈ t.parts, oid ∉ d.oids → f d = []) : t.parts.flatMap f = f c := by
  rw [oids_cons, List.nodup_cons] at hnodup
  obtain ⟨before, after, hsplit⟩ := List.append_of_mem hc
  have hapart := hnodup.2
  rw [hsplit, List.flatMap_append, List.flatMap_cons, List.nodup_append'] at hapart
  obtain ⟨-, hafter, hbefore⟩ := hapart
  rw [List.nodup_append'] at hafter
  have hnil : ∀ d ∈ before ++ after, f d = [] := by
    intro d hd
    have hmem : d ∈ t.parts := by
      rw [hsplit]
      rcases List.mem_append.1 hd with hd | hd
      · exact List.mem_append_left _ hd
      · exact List.mem_append_right _ (List.mem_cons_of_mem _ hd)
    refine hf d hmem fun hin => ?_
    rcases List.mem_append.1 hd with hd | hd
    · exact hbefore (List.mem_flatMap.2 ⟨d, hd, hin⟩) (List.mem_append_left _ hoid)
    · exact hafter.2.2 hoid (List.mem_flatMap.2 ⟨d, hd, hin⟩)
  rw [hsplit, List.flatMap_append, List.flatMap_cons,
    List.flatMap_eq_nil_iff.2 fun d hd => hnil d (List.mem_append_left _ hd),
    List.flatMap_eq_nil_iff.2 fun d hd => hnil d (List.mem_append_right _ hd), List.append_nil,
    List.nil_append]

/-- **The partitions of one node** are met in their order. -/
theorem filter_edges (hnodup : t.oids.Nodup) (hs : s ∈ t.subtrees) :
    (t.edges.filter fun e => e.1.oid == s.oid) = s.parts.map fun c => (s, c) := by
  induction t using induct with
  | h n ts ih =>
    have hnone : ∀ d : PartitionTree, s.oid ∉ d.oids →
        (d.edges.filter fun e => e.1.oid == s.oid) = [] := by
      intro d hd
      refine List.filter_eq_nil_iff.2 fun e he heq => hd ?_
      rw [← beq_iff_eq.1 heq]
      exact oid_mem_oids (mem_edges_iff.1 he).1
    rw [edges_eq, List.filter_append, List.filter_flatMap]
    rcases mem_subtrees_iff.1 hs with rfl | ⟨c, hc, hsc⟩
    · -- the pairs of the top, which is not below itself
      rw [List.flatMap_eq_nil_iff.2 fun d hd => hnone d (oid_not_mem_of_mem_parts hnodup hd),
        List.append_nil]
      refine List.filter_eq_self.2 fun e he => ?_
      obtain ⟨d, -, rfl⟩ := List.mem_map.1 he
      exact beq_self_eq_true _
    · have hother : ((mk n ts).parts.map fun d => (mk n ts, d)).filter
          (fun e => e.1.oid == s.oid) = [] := by
        refine List.filter_eq_nil_iff.2 fun e he heq => ?_
        obtain ⟨d, -, rfl⟩ := List.mem_map.1 he
        refine oid_not_mem_of_mem_parts hnodup hc ?_
        rw [beq_iff_eq.1 heq]
        exact oid_mem_oids hsc
      rw [hother, List.nil_append,
        flatMap_parts_eq hnodup hc (oid_mem_oids hsc) fun d _ hd => hnone d hd]
      exact ih c hc (oids_nodup_of_mem_parts hnodup hc) hsc

/-! ## Nodes without rows -/

theorem allEmptied_eq (ts : List PartitionTree) :
    allEmptied refuted ts = ts.all (emptied refuted) := by
  induction ts with
  | nil => rfl
  | cons t ts ih => rw [allEmptied, ih, List.all_cons]

theorem emptied_eq (t : PartitionTree) :
    t.emptied refuted =
      (refuted t || (t.node.isPartitioned && t.parts.all (emptied refuted))) := by
  cases t
  rw [emptied, allEmptied_eq, node_mk, parts_mk]

theorem emptiedWithinAll_eq (ts : List PartitionTree) :
    emptiedWithinAll refuted ts = ts.flatMap (emptiedWithin refuted) := by
  induction ts with
  | nil => rfl
  | cons t ts ih => rw [emptiedWithinAll, ih, List.flatMap_cons]

theorem emptiedWithin_eq (t : PartitionTree) :
    t.emptiedWithin refuted = t.parts.flatMap (emptiedWithin refuted) ++
      if !t.node.isRoot && t.emptied refuted then [t] else [] := by
  cases t
  rw [emptiedWithin, emptiedWithinAll_eq, node_mk, parts_mk]

theorem emptiedWithin_perm (hroot : ∀ s ∈ t.subtrees, s.node.isRoot = false) :
    (t.emptiedWithin refuted).Perm (t.subtrees.filter (emptied refuted)) := by
  induction t using induct with
  | h n ts ih =>
    have htop := hroot _ (self_mem_subtrees _)
    have hbelow : (ts.flatMap (emptiedWithin refuted)).Perm
        ((ts.flatMap subtrees).filter (emptied refuted)) := by
      rw [List.filter_flatMap]
      exact List.Perm.flatMap_left _ fun c hc =>
        ih c hc fun s hs => hroot s (mem_subtrees_of_mem_parts hc hs)
    rw [emptiedWithin_eq, htop, Bool.not_false, Bool.true_and, subtrees_eq, List.filter_cons]
    split
    · exact List.perm_append_comm.trans (hbelow.cons _)
    · rw [List.append_nil]
      exact hbelow

/-- **The partitions without rows**, each once. -/
theorem Linked.emptiedWithin_perm (h : t.Linked r) :
    (t.emptiedWithin refuted).Perm (t.partitions.filter (emptied refuted)) := by
  rw [emptiedWithin_eq, h.isRoot_self, Bool.not_true, Bool.false_and, partitions,
    List.filter_flatMap, if_neg Bool.false_ne_true, List.append_nil]
  refine List.Perm.flatMap_left _ fun c hc => PartitionTree.emptiedWithin_perm fun s hs => ?_
  exact h.isRoot_of_mem_partitions (List.mem_flatMap.2 ⟨c, hc, hs⟩)

/-! ## Leaves with rows -/

theorem keptOfAll_eq (ts : List PartitionTree) :
    keptOfAll refuted ts = ts.flatMap (kept refuted) := by
  induction ts with
  | nil => rfl
  | cons t ts ih => rw [keptOfAll, ih, List.flatMap_cons]

theorem kept_eq (t : PartitionTree) :
    t.kept refuted = if refuted t then []
      else if t.node.isPartitioned then t.parts.flatMap (kept refuted) else [t] := by
  cases t
  rw [kept, keptOfAll_eq, node_mk, parts_mk]

/-- Without rows is what no leaf is kept of. -/
theorem kept_eq_nil_iff : t.kept refuted = [] ↔ t.emptied refuted = true := by
  induction t using induct with
  | h n ts ih =>
    rw [kept_eq, emptied_eq]
    by_cases hrefuted : refuted (mk n ts) = true
    · simp [hrefuted]
    by_cases hpartitioned : n.isPartitioned = true
    · simpa [hrefuted, hpartitioned] using forall₂_congr ih
    · simp [hrefuted, hpartitioned]

/-- A leaf is kept if it is not refuted, nor anything above it. -/
theorem mem_kept (hleaf : ∀ s ∈ t.subtrees, s.node.isPartitioned = false → s.parts = [])
    (hu : u ∈ t.subtrees) (hkey : u.node.isPartitioned = false)
    (hopen : ∀ s ∈ t.subtrees, u ∈ s.subtrees → refuted s = false) : u ∈ t.kept refuted := by
  induction t using induct with
  | h n ts ih =>
    rw [kept_eq, hopen _ (self_mem_subtrees _) hu, if_neg Bool.false_ne_true]
    rcases mem_subtrees_iff.1 hu with rfl | ⟨c, hc, huc⟩
    · rw [hkey, if_neg Bool.false_ne_true]
      exact List.mem_singleton_self _
    · have hpartitioned : n.isPartitioned = true := by
        by_contra hno
        have hparts : ts = [] := hleaf _ (self_mem_subtrees _) (Bool.eq_false_iff.2 hno)
        rw [parts_mk, hparts] at hc
        cases hc
      rw [node_mk, if_pos hpartitioned]
      refine List.mem_flatMap.2 ⟨c, hc, ih c hc (fun s hs => ?_) huc fun s hs => ?_⟩
      · exact hleaf s (mem_subtrees_of_mem_parts hc hs)
      · exact hopen s (mem_subtrees_of_mem_parts hc hs)

/-- What is without rows above a leaf below a partition stands below the same
partition. -/
theorem survivors_eq {dummy : PartitionTree → Bool} (hnodup : t.oids.Nodup) :
    t.survivors dummy = t.parts.flatMap fun c => c.subtrees.filter fun u =>
      !u.node.isPartitioned && c.subtrees.all fun s => !(dummy s && s.oids.contains u.oid) := by
  rw [survivors, partitions, List.filter_flatMap]
  refine List.flatMap_congr fun c hc => List.filter_congr fun u hu => ?_
  refine congrArg (!u.node.isPartitioned && ·) (Bool.eq_iff_iff.2 ?_)
  rw [List.all_eq_true, List.all_eq_true]
  constructor
  · intro hall s hs
    exact hall s (List.mem_flatMap.2 ⟨c, hc, hs⟩)
  · intro hall s hs
    obtain ⟨d, hd, hsd⟩ := List.mem_flatMap.1 hs
    by_cases hin : u.oid ∈ s.oids
    · have huc : u.oid ∈ c.oids := oid_mem_oids hu
      have hud : u.oid ∈ d.oids := by
        rw [oids_eq] at hin ⊢
        exact ((subtrees_sublist hsd).map oid).subset hin
      obtain rfl := eq_of_mem_oids hnodup hc hd huc hud
      exact hall s hsd
    · simp [hin]

/-- **The leaves that are kept are those with rows.** -/
theorem kept_eq_filter (hnodup : t.oids.Nodup)
    (hleaf : ∀ s ∈ t.subtrees, s.node.isPartitioned = false → s.parts = []) :
    t.kept refuted = t.subtrees.filter fun u =>
      !u.node.isPartitioned &&
        t.subtrees.all fun s => !(s.emptied refuted && s.oids.contains u.oid) := by
  induction t using induct with
  | h n ts ih =>
    have htop : ∀ u ∈ (mk n ts).subtrees, (mk n ts).oids.contains u.oid = true :=
      fun u hu => List.contains_iff_mem.2 (oid_mem_oids hu)
    by_cases hemptied : (mk n ts).emptied refuted = true
    · -- every leaf is below the top
      rw [kept_eq_nil_iff.2 hemptied]
      refine (List.filter_eq_nil_iff.2 fun u hu hall => ?_).symm
      have hno := List.all_eq_true.1 (Bool.and_eq_true_iff.1 hall).2 _ (self_mem_subtrees _)
      rw [hemptied, htop u hu] at hno
      cases hno
    · have hfull : (mk n ts).emptied refuted = false := Bool.eq_false_iff.2 hemptied
      obtain ⟨hopen, hparts⟩ := Bool.or_eq_false_iff.1 ((emptied_eq _).symm.trans hfull)
      have hall : ∀ u : PartitionTree, ((mk n ts).subtrees.all fun s =>
          !(s.emptied refuted && s.oids.contains u.oid)) =
            (mk n ts).partitions.all fun s => !(s.emptied refuted && s.oids.contains u.oid) := by
        intro u
        rw [subtrees_eq, List.all_cons, hfull, Bool.false_and, Bool.not_false, Bool.true_and]
        rfl
      simp only [hall]
      rw [kept_eq, hopen, if_neg Bool.false_ne_true, subtrees_eq, List.filter_cons]
      by_cases hpartitioned : n.isPartitioned = true
      · rw [node_mk, if_pos hpartitioned, hpartitioned, Bool.not_true, Bool.false_and,
          if_neg Bool.false_ne_true]
        refine Eq.trans ?_ (survivors_eq hnodup).symm
        exact List.flatMap_congr fun c hc => ih c hc (oids_nodup_of_mem_parts hnodup hc)
          fun s hs => hleaf s (mem_subtrees_of_mem_parts hc hs)
      · have hnone : ts = [] := hleaf _ (self_mem_subtrees _) (Bool.eq_false_iff.2 hpartitioned)
        rw [hnone]
        simp [partitions, Bool.eq_false_iff.2 hpartitioned]

/-- **So it is of a whole tree**, whose top is not refuted itself. -/
theorem Linked.kept_eq_survivors (h : t.Linked r) (hnodup : t.oids.Nodup)
    (hopen : refuted t = false) : t.kept refuted = t.survivors (emptied refuted) := by
  have hpartitioned : t.node.isPartitioned = true := h.key
  rw [kept_eq, hopen, if_neg Bool.false_ne_true, if_pos hpartitioned, survivors_eq hnodup]
  exact List.flatMap_congr fun c hc => kept_eq_filter (oids_nodup_of_mem_parts hnodup hc)
    fun s hs => h.parts_eq_nil (mem_subtrees_of_mem_parts hc hs)

end PartitionTree

end WhatIf
