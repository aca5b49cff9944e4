import WhatIf.Proofs.Registry.Inventory
/-!
# Registry — what its operations make of the inventory

Each operation of the registry keeps `Holds` and does to the inventory what it
says: an index or a tree is added at the end, or taken out as a whole. A tree
goes in and out node by node, and in between the registry keeps no inventory;
`Indexed` alone is followed through the nodes.
-/

namespace WhatIf

/-- Whether a tree goes by an identifier: that of its root, or that of the
relation it shadows. -/
def PartitionTree.goesBy (t : PartitionTree) (oid : Oid) : Bool :=
  t.oid == oid || t.node.relid == oid

namespace Inventory

/-- The inventory with one more index. -/
def addIndex (v : Inventory) (i : HypotheticalIndex) : Inventory :=
  { v with indexes := v.indexes ++ [i] }

/-- The inventory with one more tree. -/
def addTree (v : Inventory) (t : PartitionTree) : Inventory := { v with trees := v.trees ++ [t] }

/-- Whether there is an index of an identifier. -/
def hasIndex (v : Inventory) (oid : Oid) : Bool := v.indexes.any fun i => i.oid == oid

/-- The inventory without the index of an identifier. -/
def dropIndex (v : Inventory) (oid : Oid) : Inventory :=
  { v with indexes := v.indexes.filter fun i => i.oid ≠ oid }

/-- Whether there is a tree that goes by an identifier. -/
def hasTree (v : Inventory) (oid : Oid) : Bool := v.trees.any fun t => t.goesBy oid

/-- The inventory without the tree that goes by an identifier. -/
def dropTree (v : Inventory) (oid : Oid) : Inventory :=
  { v with trees := v.trees.filter fun t => !t.goesBy oid }

end Inventory

namespace Registry

variable {g g' : Registry} {v : Inventory} {i : HypotheticalIndex} {t : PartitionTree} {oid : Oid}

/-! ## Nothing -/

theorem holds_empty : Registry.empty.Holds .empty where
  indexes := Indexed.empty
  indexOrder := .nil
  nodes := Indexed.empty
  rootOf := by simp [Registry.empty, Inventory.empty]
  roots := rfl
  linked := by simp [Inventory.empty]
  oids_nodup := List.nodup_nil
  relids_nodup := List.nodup_nil
  apart := by simp [Inventory.empty]

theorem holds_reset : g.reset.Holds .empty where
  indexes := Indexed.reset
  indexOrder := .nil
  nodes := Indexed.reset
  rootOf := by simp [Registry.reset, Inventory.empty]
  roots := rfl
  linked := by simp [Inventory.empty]
  oids_nodup := List.nodup_nil
  relids_nodup := List.nodup_nil
  apart := by simp [Inventory.empty]

/-! ## Indexes -/

/-- **One more index**, under a new identifier. -/
theorem Holds.insertIndex (h : g.Holds v) (hfresh : i.oid ∉ v.oids) :
    (g.insertIndex i).Holds (v.addIndex i) where
  indexes := h.indexes.insert fun j hj heq =>
    hfresh (Inventory.mem_oids_iff.2 (Or.inl ⟨j, hj, heq⟩))
  indexOrder := by
    have hold : List.Forall₂ (fun k j => (g.indexes.alloc i).2.get? k = some j) g.indexOrder
        v.indexes := by
      refine h.indexOrder.imp fun k j hk => ?_
      have hne : k ≠ (g.indexes.alloc i).1 := by
        rintro rfl
        rw [SimulationArena.get?_alloc_key] at hk
        cases hk
      rw [SimulationArena.get?_alloc, if_neg hne, hk]
    have hnew : (g.indexes.alloc i).2.get? (g.indexes.alloc i).1 = some i := by
      rw [SimulationArena.get?_alloc, if_pos rfl]
    exact List.rel_append hold (.cons hnew .nil)
  nodes := h.nodes
  rootOf := h.rootOf
  roots := h.roots
  linked := h.linked
  oids_nodup := by
    have hperm : (v.addIndex i).oids.Perm (i.oid :: v.oids) := by
      rw [Inventory.oids, Inventory.addIndex, List.map_append, List.append_assoc]
      exact List.perm_middle
    exact hperm.nodup_iff.2 (List.nodup_cons.2 ⟨hfresh, h.oids_nodup⟩)
  relids_nodup := h.relids_nodup
  apart := h.apart

/-- Nothing is dropped when no index has the identifier. -/
theorem Holds.removeIndex?_eq_none (h : g.Holds v) (hno : v.hasIndex oid = false) :
    g.removeIndex? oid = none := by
  have hnone : Keyed.find? g.indexKeys oid = none :=
    h.indexes.find?_eq_none fun i hi => by simpa using List.any_eq_false.1 hno i hi
  rw [removeIndex?, hnone]

/-- An order of keys follows its values when one of them is erased. -/
theorem order_erase {a : Arena HypotheticalIndex} {k : ArenaKey} {ks : List ArenaKey}
    {is : List HypotheticalIndex} (hone : ∀ k' j, a.get? k' = some j → (k' = k ↔ j.oid = oid))
    (h : List.Forall₂ (fun k' j => a.get? k' = some j) ks is) :
    List.Forall₂ (fun k' j => (a.erase k).get? k' = some j) (ks.filter fun k' => k' ≠ k)
      (is.filter fun j => j.oid ≠ oid) := by
  induction h with
  | nil => exact .nil
  | @cons k' j ks is hj _ ih =>
    by_cases hk : k' = k
    · rw [List.filter_cons_of_neg (by simp [hk]),
        List.filter_cons_of_neg (by simp [(hone k' j hj).1 hk])]
      exact ih
    · have hoid : j.oid ≠ oid := fun he => hk ((hone k' j hj).2 he)
      rw [List.filter_cons_of_pos (by simp [hk]), List.filter_cons_of_pos (by simp [hoid])]
      exact .cons (by rw [SimulationArena.get?_erase, if_neg hk, hj]) ih

/-- **One index less**, the one that had the identifier. -/
theorem Holds.removeIndex?_eq_some (h : g.Holds v) (hhas : v.hasIndex oid = true) :
    ∃ i g', g.removeIndex? oid = some (i, g') ∧ i.oid = oid ∧ i ∈ v.indexes ∧
      g'.Holds (v.dropIndex oid) := by
  obtain ⟨i, hi, hoid⟩ := List.any_eq_true.1 hhas
  have hoid : i.oid = oid := by simpa using hoid
  obtain ⟨k, hk⟩ := (h.indexes.live_iff i).2 hi
  have hkey : Keyed.find? g.indexKeys oid = some k := (h.indexes.find?_iff oid k).2 ⟨i, hk, hoid⟩
  refine ⟨i, _, by rw [removeIndex?, hkey]; simp only [hk]; rfl, hoid, hi, ?_⟩
  exact {
    indexes := h.indexes.erase hkey
    indexOrder := by
      refine order_erase (fun k' j hj => ⟨?_, fun hjoid => ?_⟩) h.indexOrder
      · rintro rfl
        rw [← hoid, Option.some.inj (hj.symm.trans hk)]
      · have hfind := (h.indexes.find?_iff oid k').2 ⟨j, hj, hjoid⟩
        exact Option.some.inj (hfind.symm.trans hkey)
    nodes := h.nodes
    rootOf := h.rootOf
    roots := h.roots
    linked := h.linked
    oids_nodup := by
      refine h.oids_nodup.sublist (List.Sublist.append ?_ (List.Sublist.refl _))
      exact List.filter_sublist.map _
    relids_nodup := h.relids_nodup
    apart := h.apart }

/-! ## Trees -/

/-- Nodes are inserted one after the other, and nothing else changes. -/
theorem foldl_insertNode {vs : List Node} (ns : List Node)
    (h : Indexed (fun n => n.oid) g.nodes g.nodeKeys vs)
    (hnodup : ((vs ++ ns).map fun n => n.oid).Nodup) :
    ∃ nodes nodeKeys, ns.foldl insertNode g = { g with nodes, nodeKeys } ∧
      Indexed (fun n => n.oid) nodes nodeKeys (vs ++ ns) := by
  induction ns generalizing g vs with
  | nil => exact ⟨g.nodes, g.nodeKeys, rfl, by rw [List.append_nil]; exact h⟩
  | cons n ns ih =>
    -- the induction is on what is left to insert, with what has been inserted general
    have hassoc : vs ++ n :: ns = (vs ++ [n]) ++ ns := by simp
    have hfresh : ∀ w ∈ vs, w.oid ≠ n.oid := by
      intro w hw heq
      rw [List.map_append, List.nodup_append] at hnodup
      exact hnodup.2.2 _ (List.mem_map_of_mem hw) _ (List.mem_map_of_mem List.mem_cons_self) heq
    rw [hassoc] at hnodup
    obtain ⟨nodes, nodeKeys, hfold, hnodes⟩ := ih (g := g.insertNode n) (h.insert hfresh) hnodup
    exact ⟨nodes, nodeKeys, hfold, hassoc ▸ hnodes⟩

/-- Nodes are erased one after the other, and nothing else changes. -/
theorem foldl_eraseNode {vs : List Node} (oids : List Oid)
    (h : Indexed (fun n => n.oid) g.nodes g.nodeKeys vs) :
    ∃ nodes nodeKeys, oids.foldl eraseNode g = { g with nodes, nodeKeys } ∧
      Indexed (fun n => n.oid) nodes nodeKeys (vs.filter fun n => n.oid ∉ oids) := by
  induction oids generalizing g vs with
  | nil => exact ⟨g.nodes, g.nodeKeys, rfl, by simpa using h⟩
  | cons oid oids ih =>
    -- erasing an identifier that no node has leaves the registry as it is
    have hone : ∃ nodes nodeKeys, g.eraseNode oid = { g with nodes, nodeKeys } ∧
        Indexed (fun n => n.oid) nodes nodeKeys (vs.filter fun n => n.oid ≠ oid) := by
      rw [eraseNode]
      cases hkey : Keyed.find? g.nodeKeys oid with
      | none =>
        have habsent : ∀ n ∈ vs, n.oid ≠ oid := by
          intro n hn heq
          obtain ⟨k, hk⟩ := (h.live_iff n).2 hn
          rw [(h.find?_iff oid k).2 ⟨n, hk, heq⟩] at hkey
          cases hkey
        refine ⟨g.nodes, g.nodeKeys, rfl, ?_⟩
        rw [List.filter_eq_self.2 fun n hn => by simpa using habsent n hn]
        exact h
      | some key => exact ⟨_, _, rfl, h.erase hkey⟩
    obtain ⟨nodes, nodeKeys, heq, hnodes⟩ := hone
    obtain ⟨nodes', nodeKeys', hfold, hnodes'⟩ :=
      ih (g := { g with nodes, nodeKeys }) hnodes
    refine ⟨nodes', nodeKeys', by rw [List.foldl_cons, heq, hfold], hnodes'.congr fun n => ?_⟩
    simp only [List.mem_filter, List.mem_cons, not_or, decide_eq_true_eq]
    tauto

/-- A relation goes by the root of the tree that is added, or by that of a tree
that was there. -/
theorem Holds.find?_rootOf_insert (h : g.Holds v) (hshadow : ¬ v.Shadows t.node.relid)
    (relid oid : Oid) :
    Keyed.find? (Keyed.insert g.rootOf t.node.relid t.oid) relid = some oid ↔
      ∃ u ∈ (v.addTree t).trees, u.node.relid = relid ∧ u.oid = oid := by
  rw [Keyed.find?_insert]
  by_cases hrelid : relid = t.node.relid
  · rw [if_pos hrelid, Option.some.injEq]
    constructor
    · rintro rfl
      exact ⟨t, by simp [Inventory.addTree], hrelid.symm, rfl⟩
    · rintro ⟨u, hu, hurelid, rfl⟩
      rcases List.mem_append.1 hu with hu | hu
      · exact absurd ⟨u, hu, hurelid.trans hrelid⟩ hshadow
      · rw [List.mem_singleton.1 hu]
  · rw [if_neg hrelid, h.rootOf]
    constructor
    · rintro ⟨u, hu, heq⟩
      exact ⟨u, List.mem_append_left _ hu, heq⟩
    · rintro ⟨u, hu, heq⟩
      rcases List.mem_append.1 hu with hu | hu
      · exact ⟨u, hu, heq⟩
      · rw [List.mem_singleton.1 hu] at heq
        exact absurd heq.1.symm hrelid

/-- **One more tree**, over a relation without one and under new
identifiers. -/
theorem Holds.insertTree? {r : Relation} {below : List Node} (h : g.Holds v) (ht : t.Linked r)
    (hperm : (t.node :: below).Perm t.nodes) (hnodup : (v.addTree t).oids.Nodup)
    (hshadow : ¬ v.Shadows t.node.relid)
    (hapart : ∀ u ∈ (v.addTree t).trees, u.node.relid ∉ (v.addTree t).nodeOids) :
    ∃ g', g.insertTree? (t.node :: below) = some (t.oid, g') ∧ g'.Holds (v.addTree t) := by
  have hnodes : (v.addTree t).nodes = v.nodes ++ t.nodes := by
    simp [Inventory.nodes, Inventory.addTree]
  have hnodup' : ((v.nodes ++ t.node :: below).map fun n => n.oid).Nodup := by
    rw [((hperm.append_left v.nodes).map _).nodup_iff, ← hnodes, Inventory.map_nodes]
    exact (List.nodup_append.1 hnodup).2.1
  obtain ⟨nodes, nodeKeys, hfold, hindexed⟩ := foldl_insertNode (t.node :: below) h.nodes hnodup'
  refine ⟨{ g with
    nodes, nodeKeys
    rootOf := Keyed.insert g.rootOf t.node.relid t.oid
    roots := g.roots ++ [t.oid] }, by rw [Registry.insertTree?, hfold]; rfl, ?_⟩
  exact {
    indexes := h.indexes
    indexOrder := h.indexOrder
    nodes := hindexed.congr fun n => by
      rw [hnodes, List.mem_append, List.mem_append, hperm.mem_iff]
    rootOf := h.find?_rootOf_insert hshadow
    roots := by simp [h.roots, Inventory.addTree]
    linked := fun u hu => by
      rcases List.mem_append.1 hu with hu | hu
      · exact h.linked u hu
      · rw [List.mem_singleton.1 hu]
        exact ⟨r, ht⟩
    oids_nodup := hnodup
    relids_nodup := by
      have hnew : t.node.relid ∉ v.trees.map fun t => t.node.relid := by
        intro hmem
        obtain ⟨u, hu, heq⟩ := List.mem_map.1 hmem
        exact hshadow ⟨u, hu, heq⟩
      rw [Inventory.addTree, List.map_append, List.map_singleton, List.nodup_append_comm,
        List.singleton_append, List.nodup_cons]
      exact ⟨hnew, h.relids_nodup⟩
    apart := hapart }

theorem rootOf_foldl_insertNode (ns : List Node) (g : Registry) :
    (ns.foldl insertNode g).rootOf = g.rootOf := by
  induction ns generalizing g with
  | nil => rfl
  | cons n ns ih =>
    rw [List.foldl_cons, ih]
    rfl

/-- Inserting a tree shadows the relation of its root. -/
theorem isShadowed_insertTree? {g' : Registry} {below : List Node}
    (h : g.insertTree? (n :: below) = some (oid, g')) (relid : Oid) :
    g'.isShadowed relid = true ↔ relid = n.relid ∨ g.isShadowed relid = true := by
  have hroot : g'.rootOf = Keyed.insert g.rootOf n.relid n.oid := by
    rw [insertTree?] at h
    obtain ⟨-, rfl⟩ := Prod.mk.inj (Option.some.inj h)
    show Keyed.insert ((n :: below).foldl insertNode g).rootOf n.relid n.oid = _
    rw [rootOf_foldl_insertNode]
  rw [isShadowed, isShadowed, hroot, Keyed.find?_insert]
  by_cases hrelid : relid = n.relid
  · simp [hrelid]
  · simp [hrelid]

section Trees

variable {u : PartitionTree} (h : g.Holds v)

include h

/-- A tree is found by whatever it goes by. -/
theorem Holds.node?_goesBy (ht : t ∈ v.trees) (hgoes : t.goesBy oid = true) :
    g.node? oid = some t.node := by
  rw [PartitionTree.goesBy, Bool.or_eq_true, beq_iff_eq, beq_iff_eq] at hgoes
  rcases hgoes with rfl | rfl
  · exact h.node?_subtree ht t.self_mem_subtrees
  · exact h.node?_relid ht

/-- Two trees that go by one identifier are one. -/
theorem Holds.eq_of_goesBy (ht : t ∈ v.trees) (hu : u ∈ v.trees) (htoid : t.goesBy oid = true)
    (huoid : u.goesBy oid = true) : t = u := by
  have heq : t.node = u.node :=
    Option.some.inj ((h.node?_goesBy ht htoid).symm.trans (h.node?_goesBy hu huoid))
  exact h.eq_of_relid ht hu (congrArg Node.relid heq)

/-- Two trees that share an identifier are one. -/
theorem Holds.eq_of_mem_oids (ht : t ∈ v.trees) (hu : u ∈ v.trees) (htoid : oid ∈ t.oids)
    (huoid : oid ∈ u.oids) : t = u := by
  by_contra hne
  have hpair := (List.nodup_flatMap.1 h.nodeOids_nodup).2
  have : Std.Symm (Function.onFun List.Disjoint PartitionTree.oids) := ⟨fun _ _ hd => hd.symm⟩
  exact hpair.forall ht hu hne htoid huoid

/-- What goes by an identifier and is a root is the root of a tree that goes
by it. -/
theorem Holds.exists_goesBy {n : Node} (hn : g.node? oid = some n) (hroot : n.isRoot = true) :
    ∃ t ∈ v.trees, t.goesBy oid = true ∧ n = t.node := by
  obtain ⟨t, ht, ⟨hmem, rfl⟩ | ⟨rfl, rfl⟩⟩ := h.node?_iff.1 hn
  · obtain ⟨s, hs, rfl⟩ := List.mem_map.1 hmem
    obtain ⟨r, hlinked⟩ := h.linked t ht
    obtain rfl := hlinked.eq_of_isRoot hs hroot
    exact ⟨s, ht, by simp [PartitionTree.goesBy, PartitionTree.oid], rfl⟩
  · exact ⟨t, ht, by simp [PartitionTree.goesBy], rfl⟩

/-- Nothing is dropped when no tree goes by the identifier. -/
theorem Holds.removeTree?_eq_none (hno : v.hasTree oid = false) : g.removeTree? oid = none := by
  rw [removeTree?, Option.map_eq_none_iff, Option.eq_none_iff_forall_ne_some]
  intro n hn
  obtain ⟨hn, hroot⟩ := Option.filter_eq_some_iff.1 hn
  obtain ⟨t, ht, hgoes, -⟩ := h.exists_goesBy hn hroot
  rw [Inventory.hasTree, List.any_eq_false] at hno
  exact hno t ht hgoes

/-- Dropping what goes by an identifier leaves every other tree. -/
theorem Holds.mem_dropTree_iff (ht : t ∈ v.trees) (hgoes : t.goesBy oid = true) :
    u ∈ (v.dropTree oid).trees ↔ u ∈ v.trees ∧ u ≠ t := by
  rw [Inventory.dropTree, List.mem_filter]
  refine and_congr_right fun hu => ?_
  constructor
  · rintro hno rfl
    rw [hgoes] at hno
    cases hno
  · intro hne
    by_contra hyes
    exact hne (h.eq_of_goesBy hu ht (by simpa using hyes) hgoes)

/-- The nodes of every other tree are those that share no identifier with the
one dropped. -/
theorem Holds.mem_nodes_dropTree_iff {n : Node} (ht : t ∈ v.trees) (hgoes : t.goesBy oid = true) :
    n ∈ (v.dropTree oid).nodes ↔ n ∈ v.nodes ∧ n.oid ∉ t.oids := by
  rw [Inventory.mem_nodes_iff, Inventory.mem_nodes_iff]
  constructor
  · rintro ⟨u, hu, hn⟩
    obtain ⟨hu, hne⟩ := (h.mem_dropTree_iff ht hgoes).1 hu
    exact ⟨⟨u, hu, hn⟩, fun hnt => hne (h.eq_of_mem_oids hu ht (List.mem_map_of_mem hn) hnt)⟩
  · rintro ⟨⟨u, hu, hn⟩, hnot⟩
    refine ⟨u, (h.mem_dropTree_iff ht hgoes).2 ⟨hu, ?_⟩, hn⟩
    rintro rfl
    exact hnot (List.mem_map_of_mem hn)

/-- Without a tree, the relation it shadowed goes by no root, and every other
by the one it went by. -/
theorem Holds.find?_rootOf_erase (ht : t ∈ v.trees) (hgoes : t.goesBy oid = true)
    (relid o : Oid) :
    Keyed.find? (Keyed.erase g.rootOf t.node.relid) relid = some o ↔
      ∃ u ∈ (v.dropTree oid).trees, u.node.relid = relid ∧ u.oid = o := by
  rw [Keyed.find?_erase]
  by_cases hrelid : relid = t.node.relid
  · rw [if_pos hrelid]
    constructor
    · intro hnone
      cases hnone
    · rintro ⟨u, hu, hurelid, -⟩
      obtain ⟨hu, hne⟩ := (h.mem_dropTree_iff ht hgoes).1 hu
      exact absurd (h.eq_of_relid hu ht (hurelid.trans hrelid)) hne
  · rw [if_neg hrelid, h.rootOf]
    constructor
    · rintro ⟨u, hu, hurelid, huoid⟩
      refine ⟨u, (h.mem_dropTree_iff ht hgoes).2 ⟨hu, ?_⟩, hurelid, huoid⟩
      rintro rfl
      exact hrelid hurelid.symm
    · rintro ⟨u, hu, heq⟩
      exact ⟨u, ((h.mem_dropTree_iff ht hgoes).1 hu).1, heq⟩

/-- The registry without the nodes of a tree keeps every other tree. -/
theorem Holds.without {nodes : Arena Node} {nodeKeys : List (Oid × ArenaKey)}
    (ht : t ∈ v.trees) (hgoes : t.goesBy oid = true)
    (hnodes : Indexed (fun n => n.oid) nodes nodeKeys (v.nodes.filter fun n => n.oid ∉ t.oids)) :
    Holds { g with
      nodes, nodeKeys
      rootOf := Keyed.erase g.rootOf t.node.relid
      roots := g.roots.filter fun r => r ≠ t.oid } (v.dropTree oid) where
  indexes := h.indexes
  indexOrder := h.indexOrder
  nodes := hnodes.congr fun n => by
    rw [h.mem_nodes_dropTree_iff ht hgoes, List.mem_filter, decide_eq_true_eq]
  rootOf := h.find?_rootOf_erase ht hgoes
  roots := by
    rw [h.roots, List.filter_map]
    refine congrArg _ (List.filter_congr fun u hu => ?_)
    have hiff : u ∈ (v.dropTree oid).trees ↔ u ≠ t :=
      (h.mem_dropTree_iff ht hgoes).trans (and_iff_right hu)
    -- a root is taken off the list exactly when its tree goes
    have hoid : u.oid = t.oid ↔ u = t := by
      refine ⟨fun heq => ?_, congrArg _⟩
      exact h.eq_of_mem_oids hu ht (PartitionTree.oid_mem_oids u.self_mem_subtrees)
        (heq ▸ PartitionTree.oid_mem_oids t.self_mem_subtrees)
    rw [Inventory.dropTree, List.mem_filter, and_iff_right hu] at hiff
    rw [Bool.eq_iff_iff, hiff, Function.comp_apply, decide_eq_true_eq, ne_eq, hoid]
  linked u hu := h.linked u ((h.mem_dropTree_iff ht hgoes).1 hu).1
  oids_nodup := by
    refine h.oids_nodup.sublist (List.Sublist.append (List.Sublist.refl _) ?_)
    exact List.filter_sublist.flatMap _
  relids_nodup := h.relids_nodup.sublist (List.filter_sublist.map _)
  apart u hu hmem := by
    obtain ⟨n, hn, hoid⟩ := Inventory.mem_nodeOids_iff.1 hmem
    have hn := ((h.mem_nodes_dropTree_iff ht hgoes).1 hn).1
    exact h.apart u ((h.mem_dropTree_iff ht hgoes).1 hu).1
      (hoid ▸ Inventory.mem_nodeOids_of_mem hn)

/-- **One tree less**, with every node of it. -/
theorem Holds.removeTree?_eq_some (hhas : v.hasTree oid = true) :
    ∃ t g', t ∈ v.trees ∧ t.goesBy oid = true ∧
      g.removeTree? oid = some (t.levels.map PartitionTree.oid, g') ∧
      g'.Holds (v.dropTree oid) := by
  obtain ⟨t, ht, hgoes⟩ := List.any_eq_true.1 hhas
  obtain ⟨r, hlinked⟩ := h.linked t ht
  have hroot : t.node.isRoot = true := by
    rw [Node.isRoot, hlinked.parent]
    rfl
  have hnode : (g.node? oid).filter Node.isRoot = some t.node := by
    rw [h.node?_goesBy ht hgoes, Option.filter_some, if_pos hroot]
  have hmembers : t.node.oid :: g.descendants t.node.oid = t.levels.map PartitionTree.oid :=
    h.descendants_eq ht t.self_mem_subtrees
  obtain ⟨nodes, nodeKeys, hfold, hindexed⟩ :=
    foldl_eraseNode (t.levels.map PartitionTree.oid) h.nodes
  have hindexed' : Indexed (fun n => n.oid) nodes nodeKeys
      (v.nodes.filter fun n => n.oid ∉ t.oids) := by
    refine hindexed.congr fun n => ?_
    rw [List.mem_filter, List.mem_filter, decide_eq_true_eq, decide_eq_true_eq,
      PartitionTree.oids_eq, (t.levels_perm.map _).mem_iff]
  refine ⟨t, _, ht, hgoes, ?_, h.without ht hgoes hindexed'⟩
  rw [removeTree?, hnode, Option.map_some]
  dsimp only
  rw [hmembers, hfold]
  rfl

end Trees

end Registry

end WhatIf
