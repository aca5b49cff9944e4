import WhatIf.Proofs.Partition.Descent
import WhatIf.Proofs.Partition.Reordering
import WhatIf.Proofs.Registry.Routing
import WhatIf.Proofs.Shadow.Atomic
import WhatIf.Proofs.Shadow.Concealment
import WhatIf.Proofs.Shadow.Lifetime
/-!
# Shadow — the metadata points agree

Four metadata points tell what is below a relation: whether there is anything,
the key, the descriptor, and a list of everything below. Each finds its answer
in a way of its own. Of a node of a hypothetical tree they tell the same
(`metadata_agree`), by whichever of its identifiers it is asked for. That takes
hypothetical objects and shadowed relations that have been kept apart all along, and
the order of the descriptor takes bounds that are in an order: `metadata_disagree`
shows why.
-/

namespace WhatIf

/-! ## Walks in breadth-first order -/

section BreadthFirst

variable {α : Type} {children : α → List α} {as bs out : List α}

/-- **A walk in breadth-first order**: from a queue of what is to be visited to
everything visited. What is visited is taken from the front of the queue, and
its children go to the end. -/
inductive BreadthFirst (children : α → List α) : List α → List α → Prop
  | done : BreadthFirst children [] []
  | visit {a : α} {rest out : List α} (h : BreadthFirst children (rest ++ children a) out) :
    BreadthFirst children (a :: rest) (a :: out)

/-- Visiting all of a level puts the next one into the queue. -/
theorem BreadthFirst.level (h : BreadthFirst children (bs ++ as.flatMap children) out) :
    BreadthFirst children (as ++ bs) (as ++ out) := by
  induction as generalizing bs with
  | nil =>
    rw [List.flatMap_nil, List.append_nil] at h
    exact h
  | cons a as ih =>
    rw [List.flatMap_cons, ← List.append_assoc] at h
    have hrest := ih h
    rw [← List.append_assoc] at hrest
    exact .visit hrest

end BreadthFirst

variable {t u s c : PartitionTree} {r : Relation} {l m : Layout} {n : Node}
variable {children : Oid → List Oid}

namespace PartitionTree

/-- Where identifiers lead to the children of trees, the walk goes through the
trees level by level. -/
theorem breadthFirst_of_height_le (k : Nat) (ss : List PartitionTree)
    (hheight : ∀ s ∈ ss, s.height ≤ k) (hss : ∀ s ∈ ss, s ∈ t.subtrees)
    (hchildren : ∀ s ∈ t.subtrees, children s.oid = s.parts.map oid) :
    BreadthFirst children (ss.map oid)
      (((List.range k).flatMap fun i => ss.flatMap (atDepth i)).map oid) := by
  induction k generalizing ss with
  | zero =>
    obtain rfl := List.eq_nil_iff_forall_not_mem.2 fun s hs =>
      absurd (hheight s hs) (Nat.not_le.2 s.height_pos)
    exact .done
  | succ k ih =>
    have hnext : (ss.map oid).flatMap children = (ss.flatMap parts).map oid := by
      rw [List.flatMap_map, List.map_flatMap]
      exact List.flatMap_congr fun s hs => hchildren s (hss s hs)
    have hbelow : ∀ c ∈ ss.flatMap parts, c.height ≤ k ∧ c ∈ t.subtrees := by
      intro c hc
      obtain ⟨s, hs, hc⟩ := List.mem_flatMap.1 hc
      exact ⟨height_le_succ_iff.1 (hheight s hs) c hc, parts_mem_subtrees (hss s hs) hc⟩
    have hrest := ih _ (fun c hc => (hbelow c hc).1) fun c hc => (hbelow c hc).2
    rw [← hnext, ← List.nil_append ((ss.map oid).flatMap children)] at hrest
    have hlevel := hrest.level
    rw [List.append_nil] at hlevel
    have hsplit : ((List.range (k + 1)).flatMap fun i => ss.flatMap (atDepth i)) =
        ss ++ (List.range k).flatMap fun i => (ss.flatMap parts).flatMap (atDepth i) := by
      rw [List.range_succ_eq_map, List.flatMap_cons, List.flatMap_map]
      congr 1
      · exact List.flatMap_singleton' ss
      · exact List.flatMap_congr fun i _ => by rw [List.flatMap_assoc]; rfl
    rw [hsplit, List.map_append]
    exact hlevel

/-- **A tree is walked level by level.** -/
theorem breadthFirst_levels (hs : s ∈ t.subtrees)
    (hchildren : ∀ s ∈ t.subtrees, children s.oid = s.parts.map oid) :
    BreadthFirst children [s.oid] (s.levels.map oid) := by
  have hwalk := breadthFirst_of_height_le s.height [s]
    (fun s' hs' => List.mem_singleton.1 hs' ▸ le_rfl) (fun s' hs' => List.mem_singleton.1 hs' ▸ hs)
    hchildren
  simpa only [levels, List.map_singleton, List.flatMap_singleton] using hwalk

end PartitionTree

/-! ## The descriptor of a node -/

/-- **What a descriptor tells of a node**: its partitions, which are the nodes
that name it as their parent, with their bounds. They stand in the order of
their bounds, if these are in an order, and the default partition stands last. -/
structure Extension.Describes (x : Extension) (n : Node) (d : PartitionDesc) : Prop where
  length_eq : d.oids.length = d.bounds.length
  oids_nodup : d.oids.Nodup
  mem_zip_iff : ∀ oid b, (oid, b) ∈ d.oids.zip d.bounds ↔
    ∃ p ∈ x.listTables, p.parent = some n.oid ∧ p.oid = oid ∧ p.bound = some b
  rises : Bound.Consistent (· ∈ d.bounds) → d.bounds.Pairwise fun a b => a.order b ≠ .gt
  rises_strictly : (∀ b ∈ d.bounds, b.isExact = true) →
    d.bounds.Pairwise fun a b => a.order b = .lt
  defaultIndex : d.defaultIndex =
    if d.bounds.any Bound.isDefault then some (d.bounds.length - 1) else none

namespace Bound

variable {bs : List Bound}

/-- Where at most one bound is the default one and nothing stands after it, it
is found in the last place. -/
theorem findIdx?_isDefault (hlast : bs.Pairwise fun a b => a = default → b = default)
    (hone : bs.countP isDefault ≤ 1) :
    bs.findIdx? isDefault = if bs.any isDefault then some (bs.length - 1) else none := by
  split
  · rename_i hany
    obtain ⟨b, hb, hdefault⟩ := List.any_eq_true.1 hany
    obtain ⟨front, back, rfl⟩ := List.append_of_mem hb
    -- whatever stands after the default bound is one, too
    have hback : back = [] := by
      refine List.eq_nil_iff_forall_not_mem.2 fun b' hb' => ?_
      have hafter := (List.pairwise_cons.1 (List.pairwise_append.1 hlast).2.1).1 b' hb'
        (isDefault_iff.1 hdefault)
      have htwo := List.pairwise_cons.1 (List.pairwise_append.1 (pairwise_of_countP_le_one hone)).2.1
      exact htwo.1 b' hb' ⟨hdefault, isDefault_iff.2 hafter⟩
    subst hback
    have hfront : ∀ b' ∈ front, isDefault b' = false := by
      intro b' hb'
      refine Bool.eq_false_iff.2 fun hd => ?_
      exact (List.pairwise_append.1 (pairwise_of_countP_le_one hone)).2.2 b' hb' b
        (List.mem_singleton_self b) ⟨hd, hdefault⟩
    rw [List.findIdx?_append, List.findIdx?_eq_none_iff.2 hfront]
    simp [hdefault]
  · rename_i hany
    refine List.findIdx?_eq_none_iff.2 fun b hb => Bool.eq_false_iff.2 fun hd => hany ?_
    exact List.any_eq_true.2 ⟨b, hb, hd⟩

end Bound

namespace Layout

/-- The bounds of the partitions of a level, in the order of its tree. -/
theorem bounds_ordered (m : Layout) :
    (m.ordered.partitions.map Partition.bound).Perm (m.partitions.map Partition.bound) := by
  have hsame : (Partition.orderedAll m.partitions).map Partition.bound =
      m.partitions.map Partition.bound := by
    rw [Partition.orderedAll_eq, List.map_map]
    exact List.map_congr_left fun p _ => p.bound_ordered
  rw [← hsame]
  exact (Partition.inBoundOrder_perm _).map _

/-- The bounds of a level come out in order if they are in one, -/
theorem rises_ordered (h : Bound.Consistent (· ∈ m.ordered.partitions.map Partition.bound)) :
    (m.ordered.partitions.map Partition.bound).Pairwise fun a b => a.order b ≠ .gt := by
  rw [List.pairwise_map]
  refine Partition.inBoundOrder_rises h fun p hp => ?_
  exact List.mem_map_of_mem ((Partition.inBoundOrder_perm _).mem_iff.2 hp)

/-- and strictly so if they have no doubles. -/
theorem rises_strictly_ordered (h : Passes r m.strategy m.key m.partitions)
    (hexact : ∀ b ∈ m.ordered.partitions.map Partition.bound, b.isExact = true) :
    (m.ordered.partitions.map Partition.bound).Pairwise fun a b => a.order b = .lt := by
  have hexact' : ∀ p ∈ m.partitions, p.bound.isExact = true := fun p hp =>
    hexact _ (m.bounds_ordered.mem_iff.2 (List.mem_map_of_mem hp))
  obtain ⟨types, htypes, hbounds, hne⟩ := h.bounds hexact'
  have hbounds' : ∀ p ∈ Partition.orderedAll m.partitions, p.bound.IsOf m.strategy types := by
    intro p hp
    rw [Partition.orderedAll_eq] at hp
    obtain ⟨p, hp', rfl⟩ := List.mem_map.1 hp
    exact p.bound_ordered ▸ hbounds p hp'
  have hne' : (Partition.orderedAll m.partitions).Pairwise
      fun p q => p.bound.order q.bound ≠ .eq := by
    rw [Partition.orderedAll_eq]
    exact List.pairwise_map.2 (hne.imp fun {p q} hpq => by rwa [p.bound_ordered, q.bound_ordered])
  exact List.pairwise_map.2 (Partition.inBoundOrder_rises_strictly htypes hbounds' hne')

/-- The default bound of a level comes out in the last place. -/
theorem findIdx?_ordered (h : Passes r m.strategy m.key m.partitions) :
    (m.ordered.partitions.map Partition.bound).findIdx? Bound.isDefault =
      if (m.ordered.partitions.map Partition.bound).any Bound.isDefault then
        some ((m.ordered.partitions.map Partition.bound).length - 1) else none := by
  refine Bound.findIdx?_isDefault (List.pairwise_map.2 (Partition.inBoundOrder_default _)) ?_
  rw [m.bounds_ordered.countP_eq, List.countP_map]
  exact h.default

/-- A partitioned node is over a level. -/
theorem IsTree.level_of_isPartitioned (htree : l.IsTree r t) (hs : s ∈ t.subtrees)
    (hpartitioned : s.node.isPartitioned = true) : ∃ m, l.Level m ∧ s.IsLevel r m := by
  refine (htree.level s hs).resolve_left ?_
  rintro ⟨hkey, -⟩
  rw [Node.isPartitioned, hkey] at hpartitioned
  cases hpartitioned

end Layout

namespace Registry.Holds

variable {g : Registry} {v : Inventory} (h : g.Holds v) (ht : t ∈ v.trees)

include h ht

/-- The descriptor of a node over a level lists the trees directly below it, with the
bounds of the level. -/
theorem descOf_eq (hs : s ∈ t.subtrees) (hlevel : s.IsLevel r m) :
    (g.descOf s.node).oids = s.parts.map PartitionTree.oid ∧
      (g.descOf s.node).bounds = m.ordered.partitions.map Partition.bound := by
  obtain ⟨site, hgrow⟩ := hlevel.parts
  exact descOf_of_node? hlevel.children hgrow.bounds fun c hc =>
    h.node?_subtree ht (PartitionTree.parts_mem_subtrees hs hc)

theorem descOf_oids (hs : s ∈ t.subtrees) (hlevel : s.IsLevel r m) :
    (g.descOf s.node).oids = s.parts.map PartitionTree.oid := (h.descOf_eq ht hs hlevel).1

theorem descOf_bounds (hs : s ∈ t.subtrees) (hlevel : s.IsLevel r m) :
    (g.descOf s.node).bounds = m.ordered.partitions.map Partition.bound :=
  (h.descOf_eq ht hs hlevel).2

omit h ht in
theorem length_parts (hlevel : s.IsLevel r m) : (s.parts.map PartitionTree.oid).length =
    (m.ordered.partitions.map Partition.bound).length := by
  obtain ⟨site, hgrow⟩ := hlevel.parts
  have hlength := congrArg List.length hgrow.bounds
  rwa [List.length_map, List.length_map, ← List.length_map PartitionTree.oid] at hlength

/-- **The descriptor of a node lists the trees directly below it**, with their
bounds. -/
theorem mem_zip_descOf_iff (hs : s ∈ t.subtrees) {oid : Oid} {b : Bound} :
    (oid, b) ∈ (g.descOf s.node).oids.zip (g.descOf s.node).bounds ↔
      ∃ c ∈ s.parts, c.oid = oid ∧ c.node.bound = some b := by
  obtain ⟨r, hlinked⟩ := h.linked t ht
  have hzip : (g.descOf s.node).oids.zip (g.descOf s.node).bounds =
      s.node.children.filterMap g.boundOf? := (List.zip_of_prod rfl rfl).symm
  rw [hzip]
  constructor
  · exact h.part_of_mem_descOf ht hlinked hs
  · rintro ⟨c, hc, rfl, hb⟩
    refine List.mem_filterMap.2 ⟨c.oid, ?_, ?_⟩
    · rw [(hlinked.linkedAt s hs).children]
      exact List.mem_map_of_mem hc
    · rw [boundOf?, h.node?_subtree ht (PartitionTree.parts_mem_subtrees hs hc), Option.bind_some,
        hb]
      rfl

omit ht in
/-- **The partitions of a node** are the nodes that name it as their parent. -/
theorem parent_iff (ht : t ∈ v.trees) (hs : s ∈ t.subtrees) :
    n ∈ v.nodes ∧ n.parent = some s.oid ↔ ∃ c ∈ s.parts, c.node = n := by
  obtain ⟨r, hlinked⟩ := h.linked t ht
  constructor
  · rintro ⟨hn, hparent⟩
    obtain ⟨u, hu, hn⟩ := Inventory.mem_nodes_iff.1 hn
    obtain ⟨w, hw, rfl⟩ := List.mem_map.1 hn
    obtain ⟨r', hlinked'⟩ := h.linked u hu
    rcases PartitionTree.eq_or_mem_parts hw with rfl | ⟨above, habove, hpart⟩
    · rw [hlinked'.parent] at hparent
      cases hparent
    rw [(hlinked'.linkedAt above habove).parent_of_part w hpart] at hparent
    -- one node goes by the identifier, so the children are the same
    have hsame : above.node = s.node := by
      have hnode := h.node?_subtree hu habove
      rw [Option.some.inj hparent, h.node?_subtree ht hs] at hnode
      exact (Option.some.inj hnode).symm
    have hmem : w.oid ∈ s.node.children := by
      rw [← hsame, (hlinked'.linkedAt above habove).children]
      exact List.mem_map_of_mem hpart
    rw [(hlinked.linkedAt s hs).children] at hmem
    obtain ⟨c, hc, hoid⟩ := List.mem_map.1 hmem
    refine ⟨c, hc, ?_⟩
    have hnode := h.node?_subtree ht (PartitionTree.parts_mem_subtrees hs hc)
    rw [hoid, h.node?_subtree hu hw] at hnode
    exact (Option.some.inj hnode).symm
  · rintro ⟨c, hc, rfl⟩
    exact ⟨node_mem_nodes ht (PartitionTree.parts_mem_subtrees hs hc),
      (hlinked.linkedAt s hs).parent_of_part c hc⟩

end Registry.Holds

namespace Extension

variable {x : Extension} {v : Inventory}

/-- The tables listed that name a node as their parent. -/
theorem Reflects.parent_iff (h : x.Reflects v) (ht : t ∈ v.trees) (hs : s ∈ t.subtrees) :
    n ∈ x.listTables ∧ n.parent = some s.oid ↔ ∃ c ∈ s.parts, c.node = n := by
  rw [h.shows.listTables_perm.mem_iff]
  exact h.holds.parent_iff ht hs

/-- **A node is partitioned if another names it as its parent**: a level that
passes has a partition, and a node without a level has no tree below it. -/
theorem Reflects.isPartitioned_iff (h : x.Reflects v) (ht : t ∈ v.trees) (hs : s ∈ t.subtrees)
    (hvalid : l.validate r = .ok ()) (htree : l.IsTree r t) :
    s.node.isPartitioned = true ↔ ∃ c ∈ x.listTables, c.parent = some s.node.oid := by
  constructor
  · intro hpartitioned
    obtain ⟨m, hm, hlevel⟩ := htree.level_of_isPartitioned hs hpartitioned
    have hne : s.parts ≠ [] := by
      intro hnil
      have hlength := Registry.Holds.length_parts hlevel
      rw [hnil, m.bounds_ordered.length_eq, List.length_map] at hlength
      exact (hm.passes hvalid).nonempty
        (List.map_eq_nil_iff.1 (List.eq_nil_of_length_eq_zero hlength.symm))
    obtain ⟨c, hc⟩ := List.exists_mem_of_ne_nil _ hne
    obtain ⟨hlisted, hparent⟩ := (h.parent_iff ht hs).2 ⟨c, hc, rfl⟩
    exact ⟨c.node, hlisted, hparent⟩
  · rintro ⟨p, hp, hparent⟩
    obtain ⟨c, hc, -⟩ := (h.parent_iff ht hs).1 ⟨hp, hparent⟩
    rcases htree.level s hs with ⟨-, -, hparts⟩ | ⟨m, -, hlevel⟩
    · rw [hparts] at hc
      cases hc
    · obtain ⟨key, -, hkey⟩ := hlevel.key
      rw [Node.isPartitioned, hkey]
      rfl

/-- **The descriptor of a node over a level** describes the node. -/
theorem Reflects.describes (h : x.Reflects v) (ht : t ∈ v.trees) (hs : s ∈ t.subtrees)
    (hpasses : Layout.Passes r m.strategy m.key m.partitions) (hlevel : s.IsLevel r m) :
    x.Describes s.node (x.registry.descOf s.node) := by
  have hoids := h.holds.descOf_oids ht hs hlevel
  have hbounds := h.holds.descOf_bounds ht hs hlevel
  refine ⟨?_, ?_, fun oid b => ?_, ?_, ?_, ?_⟩
  · rw [hoids, hbounds, Registry.Holds.length_parts hlevel]
  · rw [hoids]
    exact PartitionTree.map_parts_nodup (h.holds.oids_nodup_of_mem ht) hs
  · rw [h.holds.mem_zip_descOf_iff ht hs]
    constructor
    · rintro ⟨c, hc, rfl, hb⟩
      obtain ⟨hlisted, hparent⟩ := (h.parent_iff ht hs).2 ⟨c, hc, rfl⟩
      exact ⟨c.node, hlisted, hparent, rfl, hb⟩
    · rintro ⟨p, hp, hparent, rfl, hb⟩
      obtain ⟨c, hc, rfl⟩ := (h.parent_iff ht hs).1 ⟨hp, hparent⟩
      exact ⟨c, hc, rfl, hb⟩
  · rw [hbounds]
    exact Layout.rises_ordered
  · rw [hbounds]
    exact Layout.rises_strictly_ordered hpasses
  · rw [hbounds, ← Layout.findIdx?_ordered hpasses, ← hbounds]
    show (s.node.children.filterMap x.registry.boundOf?).findIdx? _ =
      ((s.node.children.filterMap x.registry.boundOf?).map Prod.snd).findIdx? _
    rw [List.findIdx?_map]
    rfl

end Extension

/-! ## The points -/

/-- The partitions that the descriptor of a relation lists. -/
def MetadataPoints.listed (p : MetadataPoints) (ctx : Context) (oid : Oid) : List Oid :=
  match (p.partitionDesc ctx oid ((), [])).1 with
  | .ok (some d) => d.oids
  | _ => []

/-- **Metadata points that agree** about a node of an extension, asked for by an
identifier: on whether it is partitioned, on its partitions, and on everything
below it. A node is partitioned if another names it as its parent. -/
structure Extension.Agree (x : Extension) (p : MetadataPoints) (ctx : Context) (oid : Oid)
    (n : Node) : Prop where
  partitioned_iff : n.isPartitioned = true ↔ ∃ c ∈ x.listTables, c.parent = some n.oid
  hasSubclass : p.hasSubclass ctx oid = pure n.isPartitioned
  partitionKey : p.partitionKey ctx oid = pure n.key
  partitionDesc : ∃ desc, p.partitionDesc ctx oid = pure desc ∧
    desc.isSome = n.isPartitioned ∧ ∀ d, desc = some d → x.Describes n d
  inheritors : ∃ out, p.inheritors ctx oid = pure out ∧
    BreadthFirst (p.listed ctx) [oid] out ∧ out.Nodup

namespace Extension

variable {σ : Type} [Catalog σ] {x : Extension} {v : Inventory} {c : σ}
variable {ctx : Context} {oid : Oid}

theorem orNext_some {α : Type} (hactive : ctx.window.isActive = true) (a : α) (next : Ask α) :
    orNext ctx (some a) next = pure a := if_pos hactive

theorem orNext_none {α : Type} (next : Ask α) : orNext ctx none next = next := ite_self _

section Points

variable (hactive : ctx.window.isActive = true)

include hactive

theorem partitionKey_eq {n : Node} (hn : x.registry.node? oid = some n) :
    (x.metadataOver c).partitionKey ctx oid = pure n.key := by
  show orNext ctx ((x.registry.partitioned? oid).map Node.key) (pure none) = pure n.key
  rw [Registry.partitioned?, hn]
  by_cases hpartitioned : n.isPartitioned = true
  · rw [Option.filter_some, if_pos hpartitioned]
    exact orNext_some hactive _ _
  · rw [Option.filter_some, if_neg hpartitioned, Option.map_none, orNext_none]
    rw [Node.isPartitioned, Bool.not_eq_true, Option.isSome_eq_false_iff, Option.isNone_iff_eq_none]
      at hpartitioned
    rw [hpartitioned]

theorem partitionDesc_eq {n : Node} (hn : x.registry.node? oid = some n) :
    (x.metadataOver c).partitionDesc ctx oid =
      pure (if n.isPartitioned then some (x.registry.descOf n) else none) := by
  show orNext ctx ((x.registry.partitioned? oid).map fun n => some (x.registry.descOf n))
    (pure none) = _
  rw [Registry.partitioned?, hn]
  by_cases hpartitioned : n.isPartitioned = true
  · rw [Option.filter_some, if_pos hpartitioned, if_pos hpartitioned]
    exact orNext_some hactive _ _
  · rw [Option.filter_some, if_neg hpartitioned, if_neg hpartitioned]
    exact orNext_none _

/-! ### Asked for a node -/

variable (h : x.Reflects v) (ht : t ∈ v.trees) (hs : s ∈ t.subtrees)
variable (hn : x.registry.node? oid = some s.node) (htree : l.IsTree r t)

include h ht hs hn htree

/-- The descriptor lists the trees directly below. -/
theorem listed_eq : (x.metadataOver c).listed ctx oid = s.parts.map PartitionTree.oid := by
  unfold MetadataPoints.listed
  rw [partitionDesc_eq hactive hn, Node.isPartitioned]
  rcases htree.level s hs with ⟨hkey, -, hparts⟩ | ⟨m, -, hlevel⟩
  · rw [hkey, hparts]
    rfl
  · obtain ⟨key, -, hkey⟩ := hlevel.key
    rw [hkey]
    exact h.holds.descOf_oids ht hs hlevel

/-- **Everything below is found level by level**, as the descriptors lead. -/
theorem inheritors_eq : ∃ out, (x.metadataOver c).inheritors ctx oid = pure out ∧
    BreadthFirst ((x.metadataOver c).listed ctx) [oid] out ∧ out.Nodup := by
  have hdown : x.registry.descendants oid = x.registry.descendants s.oid := by
    rw [Registry.descendants, Registry.descendants, Registry.childrenOf, Registry.childrenOf, hn,
      h.holds.node?_subtree ht hs]
  have hlevels := h.holds.descendants_eq ht hs
  rw [← hdown] at hlevels
  refine ⟨oid :: x.registry.descendants oid, ?_, ?_, ?_⟩
  · show orNext ctx (x.registry.inheritors? oid) _ = _
    rw [Registry.inheritors?, Registry.hasNode, hn]
    exact orNext_some hactive _ _
  · have hwalk := PartitionTree.breadthFirst_levels hs fun u hu =>
      listed_eq (c := c) hactive h ht hu (h.holds.node?_subtree ht hu) htree
    rw [← hlevels] at hwalk
    cases hwalk with
    | visit hwalk =>
      rw [listed_eq hactive h ht hs (h.holds.node?_subtree ht hs) htree] at hwalk
      refine .visit ?_
      rwa [listed_eq hactive h ht hs hn htree]
  · have hnodup : (s.levels.map PartitionTree.oid).Nodup := by
      refine ((s.levels_perm.map _).nodup_iff).2 ?_
      have hall := h.holds.oids_nodup_of_mem ht
      rw [PartitionTree.oids_eq] at hall
      exact hall.sublist ((PartitionTree.subtrees_sublist hs).map _)
    rw [← hlevels] at hnodup
    refine List.nodup_cons.2 ⟨fun hmem => ?_, (List.nodup_cons.1 hnodup).2⟩
    -- what is below is a node, and no relation that is shadowed goes by its identifier
    obtain ⟨u, hu, ⟨-, hoid⟩ | ⟨-, hrelid⟩⟩ := h.holds.node?_iff.1 hn
    · refine (List.nodup_cons.1 hnodup).1 ?_
      rwa [show s.oid = oid from hoid]
    · exact h.holds.apart u hu (hrelid ▸ h.holds.mem_nodeOids_of_mem_descendants hmem)

omit ht hs htree in
/-- **Whether there is anything below** is asked of the catalog for a node that
is not partitioned, and the catalog knows of nothing. -/
theorem hasSubclass_eq (hhost : s.node.isPartitioned = false → Catalog.children c oid = .ok []) :
    (x.metadataOver c).hasSubclass ctx oid = pure s.node.isPartitioned := by
  show orNext ctx (if x.hasPartitions oid then some true else none)
    ((PhysicalHost.metadata c).hasSubclass ctx oid) = _
  rw [hasPartitions, Registry.partitioned?, hn]
  cases hpartitioned : s.node.isPartitioned with
  | true =>
    rw [Option.filter_some, if_pos hpartitioned, Option.isSome_some, Bool.or_true, if_pos rfl]
    exact orNext_some hactive _ _
  | false =>
    have hfree : x.registry.isShadowed oid = false := by
      refine Bool.eq_false_iff.2 fun hshadowed => ?_
      obtain ⟨u, hu, rfl⟩ := h.holds.isShadowed_iff.1 hshadowed
      obtain ⟨r', hlinked⟩ := h.holds.linked u hu
      rw [h.holds.node?_relid hu] at hn
      have hkey := hlinked.key
      rw [Option.some.inj hn] at hkey
      exact Bool.eq_false_iff.1 hpartitioned hkey
    rw [Option.filter_some, hpartitioned, hfree, if_neg Bool.false_ne_true, Option.isSome_none,
      Bool.or_false, if_neg Bool.false_ne_true, orNext_none]
    show (PhysicalHost.answer (Catalog.children c oid) >>= fun children =>
      pure (!children.isEmpty)) = _
    rw [hhost hpartitioned]
    rfl

end Points

/-- **The metadata points agree.** Where no identifier issued has been that of a
shadowed relation, while the window is active and the catalog knows of nothing below
an identifier that is issued, the points agree about every node of every tree, by
whichever of its identifiers it is asked for. -/
theorem metadata_agree {τ : Type} [Catalog τ] (hreached : ReachedWithin τ Unmixed x)
    (hchildren : ∀ oid, x.ids.isIssued oid = true → Catalog.children c oid = .ok [])
    (hactive : ctx.window.isActive = true) {n : Node} (hn : n ∈ x.listTables)
    (hoid : n.oid = oid ∨ n.isRoot = true ∧ n.relid = oid) :
    x.Agree (x.metadataOver c) ctx oid n := by
  obtain ⟨log, hrun⟩ := hreached
  obtain ⟨v, hinventory, h⟩ := hrun.reflects
  obtain ⟨t, ht, hmem⟩ := Inventory.mem_nodes_iff.1 (h.shows.listTables_perm.mem_iff.1 hn)
  obtain ⟨s, hs, rfl⟩ := List.mem_map.1 hmem
  obtain ⟨r, l, hvalid, htree⟩ := hinventory.planted t ht
  have hnode : x.registry.node? oid = some s.node := by
    rcases hoid with rfl | ⟨hroot, rfl⟩
    · exact h.holds.node?_subtree ht hs
    · obtain rfl := htree.linked.eq_of_isRoot hs hroot
      exact h.holds.node?_relid ht
  refine ⟨h.isPartitioned_iff ht hs hvalid htree, ?_, partitionKey_eq hactive hnode,
    ⟨_, partitionDesc_eq hactive hnode, by cases s.node.isPartitioned <;> rfl, fun d hd => ?_⟩,
    inheritors_eq hactive h ht hs hnode htree⟩
  · refine hasSubclass_eq hactive h hnode fun hleaf => hchildren oid ?_
    -- a node without partitions is asked for by its own identifier
    have hown : s.node.oid = oid := by
      refine hoid.resolve_right fun hroot => ?_
      obtain rfl := htree.linked.eq_of_isRoot hs hroot.1
      exact Bool.eq_false_iff.1 hleaf htree.linked.key
    refine (h.isIssued_iff oid).2 (Inventory.mem_oids_iff.2 (Or.inr ?_))
    exact hown ▸ Inventory.mem_nodeOids_of_mem (Registry.Holds.node_mem_nodes ht hs)
  · split at hd
    · rename_i hpartitioned
      obtain rfl := Option.some.inj hd
      obtain ⟨m, hm, hlevel⟩ := htree.level_of_isPartitioned hs hpartitioned
      exact h.describes ht hs (hm.passes hvalid) hlevel
    · cases hd

theorem metadata_agree_orders :
    ∃ n, ordersRooted.listTables.map (fun m => m.oid.word) = [16400, 16401, 16402] ∧
      n ∈ ordersRooted.listTables ∧ n.isRoot = true ∧ n.relid = orders.oid ∧
      ordersRooted.Agree (ordersRooted.metadataOver ordersCatalog) simulating orders.oid n := by
  obtain ⟨n, hn, hroot, hrelid⟩ :
      ∃ n ∈ ordersRooted.listTables, n.isRoot = true ∧ n.relid = orders.oid :=
    ⟨ordersRooted.listTables.head (by decide +kernel), List.head_mem _, by decide +kernel,
      by decide +kernel⟩
  exact ⟨n, by decide +kernel, hn, hroot, hrelid,
    metadata_agree ⟨_, run_shadowOrders⟩ (fun _ _ => rfl) rfl hn (Or.inr ⟨hroot, hrelid⟩)⟩

/-! ## Where they do not agree -/

/-- A table `levels` with one column of doubles. -/
def levels : Relation :=
  { orders with name := "levels", columns := [⟨⟨1⟩, "level", .float8, true, none⟩] }

/-- A catalog with the table `levels` alone. -/
def levelsCatalog : MemoryCatalog := .holding ⟨16400⟩ [levels]

/-- The registration of a tree over `levels`: partitions for two numbers and for
what is not a number. -/
def shadowLevels : AdminCall MemoryCatalog :=
  .registerTable levelsCatalog levels.oid
    ((((Layout.blank .list ["level"]).add (.ofValues "two" [.float 2.0])).add
      (.ofValues "none" [.float (0.0 / 0.0)])).add (.ofValues "one" [.float 1.0]))

/-- The extension with `levels` shadowed. -/
def levelsRooted : Extension := ((fresh true).perform shadowLevels).2

/-- The extension with `lines` shadowed by a tree in front of that over `orders`,
which is dropped. -/
def linesOrphaned : Extension := (linesRooted.dropTable orders.oid).2

theorem reached_linesOrphaned : ReachedWithin MemoryCatalog (fun _ => True) linesOrphaned :=
  reached_ordersRooted.performAll
    [.registerTable linesCatalog ⟨16400⟩ ordersLayout, .dropTable orders.oid]

/-- **Where the metadata points do not agree.** Bounds that do not compare leave
the descriptor out of order. And where a relation that went by the identifier of a
root has been shadowed, dropping the tree of that root takes the partitions of the
relation with it: the list of everything below still has them, the descriptor has
not. -/
theorem metadata_disagree :
    (ReachedWithin MemoryCatalog Unmixed levelsRooted ∧
      (∀ oid, levelsRooted.ids.isIssued oid = true → Catalog.inUse levelsCatalog oid = false) ∧
      levelsRooted.listTables.map (fun n => n.oid.word) = [16400, 16401, 16402, 16403] ∧
      ∃ d, (levelsRooted.metadataOver levelsCatalog).partitionDesc simulating levels.oid =
          pure (some d) ∧ ¬ d.bounds.Pairwise fun a b => a.order b ≠ .gt) ∧
    ReachedWithin MemoryCatalog (fun _ => True) linesOrphaned ∧
      (∀ oid, linesOrphaned.ids.isIssued oid = true → Catalog.inUse linesCatalog oid = false) ∧
      linesOrphaned.listTables.map (fun n => n.oid.word) = [16410] ∧
      (linesOrphaned.metadataOver linesCatalog).inheritors simulating ⟨16410⟩ =
        pure [⟨16410⟩, ⟨16411⟩, ⟨16412⟩] ∧
      ¬ BreadthFirst ((linesOrphaned.metadataOver linesCatalog).listed simulating) [⟨16410⟩]
        [⟨16410⟩, ⟨16411⟩, ⟨16412⟩] := by
  have hlevels : ∀ oid ∈ levelsRooted.ids.issued, Catalog.inUse levelsCatalog oid = false := by
    decide +kernel
  have hlines : ∀ oid ∈ linesOrphaned.ids.issued, Catalog.inUse linesCatalog oid = false := by
    decide +kernel
  have hreached : ReachedWithin MemoryCatalog Unmixed levelsRooted :=
    .perform shadowLevels (.fresh true) shadowLevels.faithful_memory (by decide +kernel)
  refine ⟨⟨hreached, fun oid hoid => hlevels oid (ShadowIds.isIssued_iff.1 hoid),
      by decide +kernel, ?_⟩,
    reached_linesOrphaned, fun oid hoid => hlines oid (ShadowIds.isIssued_iff.1 hoid),
      by decide +kernel, ?_, ?_⟩
  · obtain ⟨n, hn, hpartitioned, hdisordered⟩ :
        ∃ n, levelsRooted.registry.node? levels.oid = some n ∧ n.isPartitioned = true ∧
          ¬ (levelsRooted.registry.descOf n).bounds.Pairwise fun a b => a.order b ≠ .gt :=
      ⟨(levelsRooted.registry.node? levels.oid).get (by decide +kernel), (Option.some_get _).symm,
        by decide +kernel, by decide +kernel⟩
    refine ⟨levelsRooted.registry.descOf n, ?_, hdisordered⟩
    rw [partitionDesc_eq rfl hn, if_pos hpartitioned]
  · show orNext simulating (linesOrphaned.registry.inheritors? ⟨16410⟩)
      ((PhysicalHost.metadata linesCatalog).inheritors simulating ⟨16410⟩) = _
    have hbelow : linesOrphaned.registry.inheritors? ⟨16410⟩ =
        some [⟨16410⟩, ⟨16411⟩, ⟨16412⟩] := by decide +kernel
    rw [hbelow]
    exact orNext_some rfl _ _
  · -- nothing is listed below the root, so the walk ends there
    obtain ⟨n, hn, hpartitioned, hnone⟩ :
        ∃ n, linesOrphaned.registry.node? ⟨16410⟩ = some n ∧ n.isPartitioned = true ∧
          (linesOrphaned.registry.descOf n).oids = [] :=
      ⟨(linesOrphaned.registry.node? ⟨16410⟩).get (by decide +kernel), (Option.some_get _).symm,
        by decide +kernel, by decide +kernel⟩
    have hlisted : (linesOrphaned.metadataOver linesCatalog).listed simulating ⟨16410⟩ = [] := by
      unfold MetadataPoints.listed
      rw [partitionDesc_eq rfl hn, if_pos hpartitioned]
      exact hnone
    intro hwalk
    cases hwalk with
    | visit hwalk =>
      rw [hlisted] at hwalk
      cases hwalk

end Extension

end WhatIf
