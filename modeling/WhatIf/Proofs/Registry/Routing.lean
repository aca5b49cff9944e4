import WhatIf.Shadow.Injection
import WhatIf.Proofs.Registry.Inventory
import WhatIf.Proofs.Partition.Validated
/-!
# Registry — the way of a row down a tree

A row goes down a tree by its key values: at each partitioned node to the
partition its descriptor routes them to (`Registry.Walk`). Every node on the
way holds the row, so the row is bound by the constraints of the node and of
all its ancestors; and all that stands above a node on the way is on it too.
-/

namespace WhatIf

/-- **The way of a row** from a root down a tree, node by node. -/
inductive Registry.Walk (g : Registry) (row : AttNum → Datum) (root : Node) : Node → Prop
  | start : Walk g row root root
  | step {n child : Node} {key : PartitionKey} {i : Nat} {oid : Oid} (hn : Walk g row root n)
      (hkey : n.key = some key) (hroute : (g.descOf n).route? (key.attnums.map row) = some i)
      (hoid : (g.descOf n).oids[i]? = some oid) (hchild : g.node? oid = some child) :
      Walk g row root child

/-- The partition a row is routed to has a bound that contains it, or is the
default partition. -/
theorem PartitionDesc.mem_of_route? {parts : List (Oid × Bound)} {row : List Datum} {i : Nat}
    {oid : Oid} (hroute : (ofParts parts).route? row = some i)
    (hoid : (ofParts parts).oids[i]? = some oid) :
    ∃ b, (oid, b) ∈ parts ∧ (b.contains row = true ∨ b.isDefault = true) := by
  have hfst : (parts.map Prod.fst)[i]? = some oid := hoid
  rw [List.getElem?_map, Option.map_eq_some_iff] at hfst
  obtain ⟨⟨oid', b⟩, hpart, rfl⟩ := hfst
  refine ⟨b, List.mem_of_getElem? hpart, ?_⟩
  have hroute' : ((parts.map Prod.snd).findIdx? fun b => b.contains row).or
      (parts.findIdx? fun p => p.2.isDefault) = some i := hroute
  rcases Option.or_eq_some_iff.1 hroute' with hcontains | ⟨-, hdefault⟩
  · obtain ⟨hi, hholds, -⟩ := List.findIdx?_eq_some_iff_getElem.1 hcontains
    rw [List.getElem_map, (List.getElem?_eq_some_iff.1 hpart).2] at hholds
    exact Or.inl hholds
  · obtain ⟨hi, hholds, -⟩ := List.findIdx?_eq_some_iff_getElem.1 hdefault
    rw [(List.getElem?_eq_some_iff.1 hpart).2] at hholds
    exact Or.inr hholds

/-- **The descriptor of a node** lists its partitions, if they are found, with their
bounds. -/
theorem Registry.filterMap_boundOf?_of_node? {g : Registry} {parts : List PartitionTree}
    {bounds : List Bound} (hbounds : parts.map (fun c => c.node.bound) = bounds.map some)
    (hparts : ∀ c ∈ parts, g.node? c.oid = some c.node) :
    (parts.map PartitionTree.oid).filterMap g.boundOf? =
      (parts.map PartitionTree.oid).zip bounds := by
  induction parts generalizing bounds with
  | nil => rfl
  | cons c parts ih =>
    cases bounds with
    | nil => cases hbounds
    | cons b bounds =>
      obtain ⟨hbound, hbounds⟩ := List.cons.inj hbounds
      rw [List.forall_mem_cons] at hparts
      have hpart : g.boundOf? c.oid = some (c.oid, b) := by
        rw [boundOf?, hparts.1, Option.bind_some, show c.node.bound = some b from hbound]
        rfl
      rw [List.map_cons, List.filterMap_cons_some hpart, ih hbounds hparts.2]
      rfl

theorem Registry.descOf_of_node? {g : Registry} {n : Node} {parts : List PartitionTree}
    {bounds : List Bound} (hchildren : n.children = parts.map PartitionTree.oid)
    (hbounds : parts.map (fun c => c.node.bound) = bounds.map some)
    (hparts : ∀ c ∈ parts, g.node? c.oid = some c.node) :
    (g.descOf n).oids = parts.map PartitionTree.oid ∧ (g.descOf n).bounds = bounds := by
  have hlength : (parts.map PartitionTree.oid).length = bounds.length := by
    have h := congrArg List.length hbounds
    rwa [List.length_map, List.length_map, ← List.length_map PartitionTree.oid] at h
  rw [descOf, hchildren, filterMap_boundOf?_of_node? hbounds hparts]
  exact ⟨List.map_fst_zip hlength.le, List.map_snd_zip hlength.ge⟩

namespace Registry.Holds

variable {g : Registry} {v : Inventory} (h : g.Holds v) {t s u w : PartitionTree}
variable (ht : t ∈ v.trees) {r : Relation} (hlinked : t.Linked r) {row : AttNum → Datum}
variable {n : Node} {fuel : Nat}

include h ht

include hlinked

/-- The partitions in the descriptor of a node are the trees directly below
it. -/
theorem part_of_mem_descOf {oid : Oid} {b : Bound} (hs : s ∈ t.subtrees)
    (hpart : (oid, b) ∈ s.node.children.filterMap g.boundOf?) :
    ∃ c ∈ s.parts, c.oid = oid ∧ c.node.bound = some b := by
  obtain ⟨oid', hmem, hbound⟩ := List.mem_filterMap.1 hpart
  rw [(hlinked.linkedAt s hs).children] at hmem
  obtain ⟨c, hc, rfl⟩ := List.mem_map.1 hmem
  rw [boundOf?, h.node?_subtree ht (PartitionTree.parts_mem_subtrees hs hc)] at hbound
  obtain ⟨b', hb', heq⟩ := Option.map_eq_some_iff.1 hbound
  obtain ⟨hoid, rfl⟩ := Prod.mk.inj heq
  exact ⟨c, hc, hoid, hb'⟩

/-- **One step of the way** goes to a tree directly below, within its bound. -/
theorem part_of_route? {key : PartitionKey} {i : Nat} {oid : Oid} (hs : s ∈ t.subtrees)
    (hroute : (g.descOf s.node).route? (key.attnums.map row) = some i)
    (hoid : (g.descOf s.node).oids[i]? = some oid) (hchild : g.node? oid = some n) :
    ∃ c ∈ s.parts, c.node = n ∧ ∃ b, c.node.bound = some b ∧
      (b.contains (key.attnums.map row) = true ∨ b.isDefault = true) := by
  obtain ⟨b, hpart, hrow⟩ := PartitionDesc.mem_of_route? hroute hoid
  obtain ⟨c, hc, rfl, hb⟩ := h.part_of_mem_descOf ht hlinked hs hpart
  rw [h.node?_subtree ht (PartitionTree.parts_mem_subtrees hs hc)] at hchild
  exact ⟨c, hc, Option.some.inj hchild, b, hb, hrow⟩

/-- Every node on the way stands in the tree. -/
theorem subtree_of_walk (hwalk : g.Walk row t.node n) : ∃ s ∈ t.subtrees, s.node = n := by
  induction hwalk with
  | start => exact ⟨t, t.self_mem_subtrees, rfl⟩
  | step _ _ hroute hoid hchild ih =>
    obtain ⟨s, hs, rfl⟩ := ih
    obtain ⟨c, hc, hnode, -⟩ := h.part_of_route? ht hlinked hs hroute hoid hchild
    exact ⟨c, PartitionTree.parts_mem_subtrees hs hc, hnode⟩

/-- **What is above a node on the way is on the way.** -/
theorem walk_of_mem_subtrees (hwalk : g.Walk row t.node n) :
    ∀ u ∈ t.subtrees, u.node = n → ∀ s ∈ t.subtrees, u ∈ s.subtrees → g.Walk row t.node s.node := by
  induction hwalk with
  | start =>
    intro u hu hnode s hs hus
    have htop : u = t := h.eq_of_oid ht hu t.self_mem_subtrees (congrArg (fun n => n.oid) hnode)
    rcases PartitionTree.eq_or_mem_parts hus with rfl | ⟨w, hw, hpart⟩
    · rw [htop]
      exact .start
    · -- nothing is above the root
      have hparent := (hlinked.linkedAt w (PartitionTree.mem_subtrees_trans hw hs)).parent_of_part u
        hpart
      rw [htop, hlinked.parent] at hparent
      cases hparent
  | step hn hkey hroute hoid hchild ih =>
    intro u hu hnode s hs hus
    obtain ⟨w, hw, rfl⟩ := h.subtree_of_walk ht hlinked hn
    obtain ⟨c, hc, hcnode, -⟩ := h.part_of_route? ht hlinked hw hroute hoid hchild
    have hcu : u = c := h.eq_of_oid ht hu (PartitionTree.parts_mem_subtrees hw hc)
      (congrArg (fun n => n.oid) (hnode.trans hcnode.symm))
    rcases PartitionTree.eq_or_mem_parts hus with rfl | ⟨w', hw', hpart⟩
    · rw [hnode]
      exact .step hn hkey hroute hoid hchild
    · have hw't := PartitionTree.mem_subtrees_trans hw' hs
      have hparent' := (hlinked.linkedAt w' hw't).parent_of_part u hpart
      have hparent := (hlinked.linkedAt w hw).parent_of_part c hc
      rw [hcu, hparent] at hparent'
      obtain rfl := h.eq_of_oid ht hw hw't (Option.some.inj hparent')
      exact ih w hw rfl s hs hw'

/-- **A row is bound by the constraints of every node on its way**, and of all
above it. -/
theorem binds_of_walk (hr : r.IsExact) {row : r.Row} (hsuited : ∀ s ∈ t.subtrees, s.SuitedAt)
    (hwalk : g.Walk row.value t.node n) :
    ∀ fuel, ∀ c ∈ g.constraintsUp fuel (some n), c.Binds row.value := by
  induction hwalk with
  | start =>
    intro fuel c hc
    cases fuel with
    | zero => cases hc
    | succ fuel =>
      rw [constraintsUp, hlinked.parent] at hc
      have hnone : ∀ k, g.constraintsUp k none = [] := fun k => by cases k <;> rfl
      rcases List.mem_append.1 hc with hc | hc
      · dsimp only [Option.bind_none] at hc
        split at hc
        · rename_i hkey
          cases hkey
        · cases hc
      · rw [Option.bind_none, hnone] at hc
        cases hc
  | step hn hkey hroute hoid hchild ih =>
    intro fuel c hc
    obtain ⟨s, hs, rfl⟩ := h.subtree_of_walk ht hlinked hn
    obtain ⟨part, hpart, rfl, b, hb, hrow⟩ := h.part_of_route? ht hlinked hs hroute hoid hchild
    cases fuel with
    | zero => cases hc
    | succ fuel =>
      rw [constraintsUp, (hlinked.linkedAt s hs).parent_of_part part hpart, Option.bind_some,
        h.exactNode?_subtree ht hs, hb, Option.bind_some, hkey] at hc
      rcases List.mem_append.1 hc with hc | hc
      · obtain ⟨strategy, names, hresolved⟩ := (hlinked.linkedAt s hs).key _ hkey
        have hsuits := hsuited s hs _ hkey part hpart b hb
        exact hsuits.binds (Layout.resolveKey_ok hresolved) hr hrow c hc
      · exact ih fuel c hc

/-- **Nothing that holds of a row refutes a node on its way.** -/
theorem refutedBy_of_walk (hr : r.IsExact) {row : r.Row} (hsuited : ∀ s ∈ t.subtrees, s.SuitedAt)
    {restrictions : List Restriction}
    (hrestrictions : ∀ q ∈ restrictions, q.test.Passed (row.value q.attnum))
    (hwalk : g.Walk row.value t.node n) :
    Constraint.refutedBy restrictions (g.boundConstraints n.oid) = false := by
  refine Constraint.refutedBy_eq_false (row.isExact hr) hrestrictions fun c hc => ?_
  obtain ⟨s, hs, rfl⟩ := h.subtree_of_walk ht hlinked hwalk
  have hnode : g.node? s.node.oid = some s.node := h.node?_subtree ht hs
  rw [boundConstraints, hnode] at hc
  exact h.binds_of_walk ht hlinked hr hsuited hwalk _ c hc

end Registry.Holds

end WhatIf
