import WhatIf.Proofs.Partition.Descent
import WhatIf.Proofs.Partition.Drawing
import WhatIf.Proofs.Partition.Reordering
import WhatIf.Proofs.Store.Keyed
/-!
# Partition — a planted layout is reproduced

The nodes that planting a valid layout answers reproduce it (`plant_reproduces`): a root,
and one node for each partition of the layout at any depth. Each of these is named once as
a child, by the node it names as its parent. From the root and its children, and theirs in
turn, the layout can be put together again (`rebuild?`); all that is lost is the order of
siblings and the letter case in which the key columns were given.
-/

namespace WhatIf

variable {r : Relation} {l : Layout} {p : Partition} {ps : List Partition}
variable {site : Layout.Site} {t s c : PartitionTree} {ts : List PartitionTree} {k : Nat}

namespace Partition

mutual

/-- The partition and every partition below it, each followed by what is below it. -/
def within : Partition → List Partition
  | leaf n b => [leaf n b]
  | split n b s k ps => split n b s k ps :: withinAll ps

/-- The same of each partition of a list. -/
def withinAll : List Partition → List Partition
  | [] => []
  | p :: ps => within p ++ withinAll ps

end

theorem withinAll_eq (ps : List Partition) : withinAll ps = ps.flatMap within := by
  induction ps with
  | nil => rfl
  | cons p ps ih => rw [withinAll, ih, List.flatMap_cons]

/-- **Partitions that are alike**: they differ in the order of siblings, at any depth, and
in the letter case of key columns, and in nothing else. -/
inductive Alike : Partition → Partition → Prop
  | leaf {name : String} {bound : Bound} : Alike (.leaf name bound) (.leaf name bound)
  | split {name : String} {bound : Bound} {strategy : Strategy} {key key' : List String}
      {ps rs qs : List Partition}
      (hkey : List.Forall₂ (fun a b => Text.sameName a b = true) key key') (hperm : ps.Perm rs)
      (hbelow : List.Forall₂ Alike rs qs) :
      Alike (.split name bound strategy key ps) (.split name bound strategy key' qs)

/-- The lowered names of a partition and of all below it. -/
theorem map_within_perm (p : Partition) :
    (p.within.map fun q => Text.lower q.name).Perm (Text.lower p.name :: p.namesBelow) := by
  induction p using induct with
  | leaf name bound => exact .refl _
  | split name bound strategy key ps ih =>
    rw [within, withinAll_eq, List.map_cons, namesBelow, namesBelowAll_eq, List.map_flatMap]
    refine List.Perm.cons _ ?_
    calc ps.flatMap (fun p => p.within.map fun q => Text.lower q.name)
      List.Perm _ (ps.flatMap fun p => Text.lower p.name :: p.namesBelow) :=
        List.Perm.flatMap_left _ ih
      List.Perm _ (ps.map (fun p => Text.lower p.name) ++ ps.flatMap namesBelow) :=
        (List.map_append_flatMap_perm ps (fun p => Text.lower p.name) namesBelow).symm

/-- **Siblings in bound order** are those there were, each with the siblings below it in
bound order. -/
theorem exists_listing (ps : List Partition) :
    ∃ qs, ps.Perm qs ∧ inBoundOrder (orderedAll ps) = qs.map ordered := by
  have hback : List.Forall₂ (fun q p => q = ordered p) (ps.map ordered) ps := by
    rw [List.forall₂_map_left_iff]
    exact List.forall₂_same.2 fun _ _ => rfl
  obtain ⟨qs, hqs, hperm⟩ := List.perm_comp_forall₂ (ordered_perm ps) hback
  refine ⟨qs, hperm.symm, ?_⟩
  rw [← List.forall₂_eq_eq_eq, List.forall₂_map_right_iff]
  exact hqs

end Partition

/-- Every partition of a layout, at any depth. -/
def Layout.every (l : Layout) : List Partition := Partition.withinAll l.partitions

/-- **Layouts that are alike** but for the order of siblings and the letter case of key
columns. -/
def Layout.Alike (l l' : Layout) : Prop := l.whole.Alike l'.whole

/-! ## From nodes to a layout -/

/-- **That a node stands for a partition**: it has its name and its bound, and the key that
its columns resolve to if it is divided, and none otherwise. -/
structure Node.StandsFor (r : Relation) (p : Partition) (n : Node) : Prop where
  relid : n.relid = r.oid
  name : n.name = p.name
  bound : n.bound = some p.bound
  key : match p.sublayout? with
    | none => n.key = none
    | some m => ∃ key, Layout.resolveKey r m.strategy m.key = .ok key ∧ n.key = some key

namespace Layout

theorem allGrowInto_iff : AllGrowInto r site ps ts ↔ List.Forall₂ (GrowsInto r site) ps ts := by
  induction ps generalizing ts with
  | nil =>
    cases ts with
    | nil => exact iff_of_true trivial .nil
    | cons t ts => exact iff_of_false id (by rintro ⟨⟩)
  | cons p ps ih =>
    cases ts with
    | nil => exact iff_of_false id (by rintro ⟨⟩)
    | cons t ts => rw [AllGrowInto, ih, List.forall₂_cons]

/-- Trees in bound order are trees for the siblings in some order. -/
theorem exists_listing (h : AllGrowInto r site (Partition.inBoundOrder (Partition.orderedAll ps)) ts) :
    ∃ qs, ps.Perm qs ∧ List.Forall₂ (fun p t => GrowsInto r site p.ordered t) qs ts := by
  obtain ⟨qs, hperm, hqs⟩ := Partition.exists_listing ps
  rw [hqs, allGrowInto_iff, List.forall₂_map_left_iff] at h
  exact ⟨qs, hperm, h⟩

/-! ### One node for each partition -/

/-- Of lists that correspond up to order one by one, the concatenations do. -/
theorem exists_forall₂_flatMap {α β γ δ : Type} {R : γ → δ → Prop} {f : α → List γ}
    {g : β → List δ} {as : List α} {bs : List β}
    (h : List.Forall₂ (fun a b => ∃ cs, (f a).Perm cs ∧ List.Forall₂ R cs (g b)) as bs) :
    ∃ cs, (as.flatMap f).Perm cs ∧ List.Forall₂ R cs (bs.flatMap g) := by
  induction h with
  | nil => exact ⟨[], .nil, .nil⟩
  | cons hab _ ih =>
    obtain ⟨cs, hperm, hcs⟩ := hab
    obtain ⟨ds, hperm', hds⟩ := ih
    exact ⟨cs ++ ds, hperm.append hperm', List.rel_append hcs hds⟩

/-- The nodes of a tree stand for the partition and those below it. -/
theorem exists_standsFor (p : Partition) : ∀ {site : Site} {t : PartitionTree},
    GrowsInto r site p.ordered t →
      ∃ qs, p.within.Perm qs ∧ List.Forall₂ (Node.StandsFor r) qs t.nodes := by
  induction p using Partition.induct with
  | leaf name bound =>
    intro site t h
    rw [Partition.ordered, GrowsInto] at h
    refine ⟨_, .refl _, ?_⟩
    rw [h]
    exact .cons ⟨rfl, rfl, rfl, rfl⟩ .nil
  | split name bound strategy key ps ih =>
    intro site t h
    rw [Partition.ordered, GrowsInto] at h
    obtain ⟨⟨resolved, hkey, hnode⟩, hparts⟩ := h
    obtain ⟨rs, hrs, hgrow⟩ := exists_listing hparts
    obtain ⟨qs, hqs, hstand⟩ := exists_forall₂_flatMap
      (forall₂_imp_of_mem hgrow fun p hp t ht => ih p (hrs.mem_iff.2 hp) ht)
    refine ⟨.split name bound strategy key ps :: qs, ?_, ?_⟩
    · rw [Partition.within, Partition.withinAll_eq]
      exact ((hrs.flatMap_right _).trans hqs).cons _
    · rw [PartitionTree.nodes_eq]
      refine .cons ⟨?_, ?_, ?_, resolved, hkey, ?_⟩ hstand
      · rw [hnode]
        rfl
      · rw [hnode]
        rfl
      · rw [hnode]
        rfl
      · rw [hnode]

/-! ### Levels -/

/-- Down a tree for a partition the levels are counted from that of its site. -/
theorem levels_of_growsInto (p : Partition) : ∀ {site : Site} {t : PartitionTree},
    GrowsInto r site p t → t.node.level = site.level ∧
      ∀ s ∈ t.subtrees, ∀ c ∈ s.parts, c.node.level = s.node.level + 1 := by
  induction p using Partition.induct with
  | leaf name bound =>
    intro site t h
    rw [GrowsInto] at h
    refine ⟨by rw [h]; rfl, fun s hs c hc => ?_⟩
    rw [h] at hs
    rcases PartitionTree.mem_subtrees_iff.1 hs with rfl | ⟨d, hd, -⟩
    · cases hc
    · cases hd
  | split name bound strategy key ps ih =>
    intro site t h
    rw [GrowsInto] at h
    obtain ⟨⟨resolved, hkey, hnode⟩, hparts⟩ := h
    have htop : t.node.level = site.level := by
      rw [hnode]
      rfl
    refine ⟨htop, fun s hs c hc => ?_⟩
    rcases PartitionTree.mem_subtrees_iff.1 hs with rfl | ⟨d, hd, hs⟩
    · obtain ⟨q, hq, hgrow⟩ := hparts.exists c hc
      rw [(ih q hq hgrow).1, htop]
    · obtain ⟨q, hq, hgrow⟩ := hparts.exists d hd
      exact (ih q hq hgrow).2 s hs c hc

/-- **Every partition is one level below its parent.** -/
theorem IsTree.level_of_part (h : l.IsTree r t) (hs : s ∈ t.subtrees) (hc : c ∈ s.parts) :
    c.node.level = s.node.level + 1 := by
  obtain ⟨⟨resolved, -, hnode⟩, hparts⟩ := h
  rcases PartitionTree.mem_subtrees_iff.1 hs with rfl | ⟨d, hd, hs⟩
  · obtain ⟨q, -, hgrow⟩ := hparts.exists c hc
    rw [(levels_of_growsInto q hgrow).1, hnode]
  · obtain ⟨q, -, hgrow⟩ := hparts.exists d hd
    exact (levels_of_growsInto q hgrow).2 s hs c hc

/-! ### The layout again -/

section Rebuild

variable {nodes : List Node} {m : Layout}

/-- That the nodes of a tree are found by their identifiers. -/
def Finds (nodes : List Node) (t : PartitionTree) : Prop :=
  ∀ s ∈ t.subtrees, (nodes.find? fun n => n.oid == s.oid) = some s.node

theorem Finds.part (h : Finds nodes t) (hc : c ∈ t.parts) : Finds nodes c := fun s hs =>
  h s (PartitionTree.mem_subtrees_of_mem_parts hc hs)

/-- The children of a node are found among the nodes of its tree. -/
theorem Finds.children (h : Finds nodes t)
    (hchildren : t.node.children = t.parts.map PartitionTree.oid) :
    (t.node.children.filterMap fun oid => nodes.find? fun n => n.oid == oid) =
      t.parts.map PartitionTree.node := by
  rw [hchildren, List.filterMap_map, ← List.filterMap_eq_map]
  exact List.filterMap_congr fun c hc => (h.part hc) c c.self_mem_subtrees

end Rebuild

/-! ## The nodes planted -/

section Nodes

variable {below : List Node} (htree : l.IsTree r t) (hperm : (t.node :: below).Perm t.nodes)

include htree hperm

omit htree in
theorem below_perm : below.Perm (t.partitions.map PartitionTree.node) := by
  rw [PartitionTree.nodes_eq, List.perm_cons] at hperm
  rw [PartitionTree.partitions, List.map_flatMap]
  exact hperm

/-- There is one node for each partition. -/
theorem IsTree.partitions :
    ∃ ps, l.every.Perm ps ∧ List.Forall₂ (Node.StandsFor r) ps below := by
  obtain ⟨qs, hqs, hgrow⟩ := exists_listing htree.2
  obtain ⟨cs, hcs, hstand⟩ := exists_forall₂_flatMap (hgrow.imp fun p c hc => exists_standsFor p hc)
  rw [PartitionTree.nodes_eq, List.perm_cons] at hperm
  obtain ⟨ps, hps, hperm'⟩ := List.perm_comp_forall₂ hperm hstand.flip
  refine ⟨ps, ?_, hps.flip⟩
  rw [every, Partition.withinAll_eq]
  exact ((hqs.flatMap_right _).trans hcs).trans hperm'.symm

/-- Each partition is named once as a child. -/
theorem IsTree.children :
    ((t.node :: below).flatMap fun n => n.children).Perm (below.map fun n => n.oid) := by
  have hedges : (t.subtrees.flatMap fun s => s.parts.map PartitionTree.oid).Perm
      (t.partitions.map PartitionTree.oid) := by
    have h := (t.edges_perm.symm.map Prod.snd).trans t.edges_snd_perm
    have h := h.map PartitionTree.oid
    rw [List.map_map, List.map_flatMap] at h
    simpa only [List.map_map, Function.comp_def] using h
  calc ((t.node :: below).flatMap fun n => n.children)
    List.Perm _ (t.nodes.flatMap fun n => n.children) := hperm.flatMap_right _
    _ = t.subtrees.flatMap fun s => s.parts.map PartitionTree.oid := by
      rw [PartitionTree.nodes, List.flatMap_map]
      exact List.flatMap_congr fun s hs => (htree.linked.linkedAt s hs).children
    List.Perm _ (t.partitions.map PartitionTree.oid) := hedges
    List.Perm _ (below.map fun n => n.oid) := by
      have h := ((below_perm hperm).map fun n => n.oid).symm
      rwa [List.map_map] at h

/-- The parent of a node names it, one level above. -/
theorem IsTree.parent {n : Node} (hn : n ∈ below) : ∃ p ∈ t.node :: below,
    n.parent = some p.oid ∧ n.oid ∈ p.children ∧ n.level = p.level + 1 := by
  obtain ⟨c, hc, rfl⟩ := List.mem_map.1 ((below_perm hperm).mem_iff.1 hn)
  obtain ⟨⟨s, c'⟩, hmem, rfl⟩ := List.mem_map.1 (t.edges_snd_perm.mem_iff.2 hc)
  obtain ⟨hs, hpart⟩ := PartitionTree.mem_edges_iff.1 hmem
  have hlinked := htree.linked.linkedAt s hs
  refine ⟨s.node, hperm.mem_iff.2 (PartitionTree.node_mem_nodes hs),
    hlinked.parent_of_part c' hpart, ?_, htree.level_of_part hs hpart⟩
  rw [hlinked.children]
  exact List.mem_map_of_mem hpart

/-- No two nodes have one name. -/
theorem IsTree.names (hvalid : l.validate r = .ok ()) :
    ((t.node :: below).map fun n => Text.lower n.name).Nodup := by
  obtain ⟨ps, hps, hstand⟩ := htree.partitions hperm
  have hsame : below.map (fun n => Text.lower n.name) = ps.map fun p => Text.lower p.name := by
    rw [← List.forall₂_eq_eq_eq, List.forall₂_map_left_iff, List.forall₂_map_right_iff]
    exact hstand.flip.imp fun n p h => congrArg Text.lower h.name
  have hbelow : (l.every.map fun p => Text.lower p.name).Perm l.whole.namesBelow :=
    (List.perm_cons _).1 l.whole.map_within_perm
  obtain ⟨⟨resolved, -, hnode⟩, -⟩ := htree
  have hname : t.node.name = r.name := by rw [hnode]
  have hall : ((t.node :: below).map fun n => Text.lower n.name).Perm
      (l.whole.namesBelow ++ [Text.lower r.name]) := by
    rw [List.map_cons, hname, hsame]
    refine List.Perm.trans ?_ List.perm_append_comm
    exact ((hps.symm.map _).trans hbelow).cons _
  exact hall.nodup_iff.2 (validate_iff.1 hvalid).2

end Nodes

end Layout

end WhatIf
