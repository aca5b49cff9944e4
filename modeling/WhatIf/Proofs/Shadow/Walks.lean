import WhatIf.Proofs.Catalog.Memory
import WhatIf.Proofs.Partition.Reproduced
import WhatIf.Proofs.Registry.Constraints
import WhatIf.Proofs.Shadow.Metadata
/-!
# Shadow — the walks down and up a tree agree

The registry finds what is below a node by a queue, from children to children of
children, and the constraints of a node on the way up, from parent to parent. The
links that the two follow are kept apart, in the nodes above and in the nodes
below. While no identifier of a hypothetical object is that of a shadowed relation
both walks come to an end and lead along one tree (`walks_agree`). That has to
hold all along: a registry keeps the traces of a mixture that is over
(`walks_disagree`).
-/

namespace WhatIf

variable {t s u c w : PartitionTree} {n m : Node} {k : Nat}

/-! ## Levels -/

namespace PartitionTree

theorem level_of_mem_atDepth
    (hlevel : ∀ s ∈ t.subtrees, ∀ c ∈ s.parts, c.node.level = s.node.level + 1)
    (hs : s ∈ t.subtrees) (hu : u ∈ s.atDepth k) : u.node.level = s.node.level + k := by
  induction k generalizing u with
  | zero =>
    rw [List.mem_singleton.1 hu]
    rfl
  | succ k ih =>
    obtain ⟨w, hw, hpart⟩ := mem_atDepth_succ_iff.1 hu
    have hmem := mem_subtrees_trans (mem_subtrees_of_mem_atDepth hw) hs
    rw [hlevel w hmem u hpart, ih hw, Nat.add_assoc]

/-- What is below the top, level by level. -/
def lower (t : PartitionTree) : List PartitionTree :=
  (List.range t.height).flatMap fun k => t.atDepth (k + 1)

theorem levels_eq (t : PartitionTree) : t.levels = t :: t.lower := by
  rw [← flatMap_atDepth_eq (Nat.le_succ t.height), List.range_succ_eq_map, List.flatMap_cons,
    List.flatMap_map]
  rfl

theorem mem_lower_iff : u ∈ t.lower ↔ ∃ k, u ∈ t.atDepth (k + 1) := by
  rw [lower, List.mem_flatMap]
  constructor
  · rintro ⟨k, -, hu⟩
    exact ⟨k, hu⟩
  · rintro ⟨k, hu⟩
    have hlt := lt_height_of_mem_atDepth hu
    exact ⟨k, List.mem_range.2 (by omega), hu⟩

theorem mem_subtrees_of_mem_lower (hu : u ∈ t.lower) : u ∈ t.subtrees := by
  obtain ⟨k, hk⟩ := mem_lower_iff.1 hu
  exact mem_subtrees_of_mem_atDepth hk

/-- What is below the top does not fall in level. -/
theorem lower_rises (hlevel : ∀ s ∈ t.subtrees, ∀ c ∈ s.parts, c.node.level = s.node.level + 1)
    (hs : s ∈ t.subtrees) : s.lower.Pairwise fun a b => a.node.level ≤ b.node.level := by
  refine List.pairwise_flatMap.2 ⟨fun k _ => ?_, List.pairwise_lt_range.imp fun {i j} hij => ?_⟩
  · refine List.pairwise_of_forall_mem_list fun a ha b hb => ?_
    rw [level_of_mem_atDepth hlevel hs ha, level_of_mem_atDepth hlevel hs hb]
  · intro a ha b hb
    rw [level_of_mem_atDepth hlevel hs ha, level_of_mem_atDepth hlevel hs hb]
    omega

theorem lower_nodup (hnodup : t.oids.Nodup) (hs : s ∈ t.subtrees) :
    (s.lower.map PartitionTree.oid).Nodup := by
  have hsubtrees := hnodup.sublist (oids_eq t ▸ (subtrees_sublist hs).map PartitionTree.oid)
  rw [← (s.levels_perm.map PartitionTree.oid).nodup_iff, s.levels_eq, List.map_cons] at hsubtrees
  exact (List.nodup_cons.1 hsubtrees).2

end PartitionTree

namespace Registry

variable {g : Registry} {v : Inventory} {oid low parent : Oid}

/-- **The walk up from a node**, to the constraints gathered on it: those of the
node's own bound, followed by what is gathered from its parent on. -/
inductive Upward (g : Registry) : Option Node → List Constraint → Prop
  | done : Upward g none []
  | up {n : Node} {cs : List Constraint} (h : Upward g (g.parent? n) cs) :
    Upward g (some n) (g.ownConstraints n ++ cs)

/-- **A registry whose walks agree.** Both walks come to an end, the one down from
any identifier and the one up. What is found below a node are the nodes it stands
above, each of them once and none before one of a lower level; and the constraints
of a partition are those of its bound, under the key of its parent, followed by
the constraints of the parent. -/
structure WalksAgree (g : Registry) : Prop where
  live : ∀ key n, g.nodes.get? key = some n → g.node? n.oid = some n
  downward : ∀ oid, BreadthFirst g.childrenOf (g.childrenOf oid) (g.descendants oid)
  upward : ∀ oid, Upward g (g.node? oid) (g.boundConstraints oid)
  descendants_live : ∀ oid, ∀ low ∈ g.descendants oid, ∃ n, g.node? low = some n ∧ n.oid = low
  mem_descendants_iff : ∀ oid low m n, g.node? oid = some m → g.node? low = some n →
    (n.oid ∈ g.descendants oid ↔ ∃ k, g.above (k + 1) n = some m)
  descendants_nodup : ∀ oid, (g.descendants oid).Nodup
  descendants_rise : ∀ oid, (g.descendants oid).Pairwise fun a b => ∀ m n,
    g.node? a = some m → g.node? b = some n → m.level ≤ n.level
  boundConstraints_root : ∀ oid n, g.node? oid = some n → n.parent = none →
    g.boundConstraints oid = []
  boundConstraints_part : ∀ oid n parent, g.node? oid = some n → n.parent = some parent →
    ∃ m b key, g.node? parent = some m ∧ n.bound = some b ∧ m.key = some key ∧
      g.boundConstraints oid = b.constraints key ++ g.boundConstraints parent

theorem descendants_eq_nil (hn : g.node? oid = none) :
    g.childrenOf oid = [] ∧ g.descendants oid = [] := by
  have hchildren : g.childrenOf oid = [] := by rw [childrenOf, hn]
  have hnone : ∀ fuel, g.levelsFrom fuel [] = [] := fun fuel => by cases fuel <;> rfl
  exact ⟨hchildren, by rw [descendants, hchildren, hnone]⟩

theorem constraintsUp_none (fuel : Nat) : g.constraintsUp fuel none = [] := by
  cases fuel <;> rfl

namespace Holds

variable (h : g.Holds v) (ht : t ∈ v.trees)

include h ht

/-! ### Down -/

/-- What is below an identifier is what is below the tree it leads to. -/
theorem descendants_of_node? (hs : s ∈ t.subtrees) (hn : g.node? oid = some s.node) :
    g.descendants oid = s.lower.map PartitionTree.oid := by
  have hsame : g.descendants oid = g.descendants s.oid := by
    rw [descendants, descendants, childrenOf, childrenOf, hn, h.node?_subtree ht hs]
  have hlevels := h.descendants_eq ht hs
  rw [s.levels_eq, List.map_cons] at hlevels
  rw [hsame]
  exact (List.cons.inj hlevels).2

theorem downward_of_node? (hs : s ∈ t.subtrees) (hn : g.node? oid = some s.node) :
    BreadthFirst g.childrenOf (g.childrenOf oid) (g.descendants oid) := by
  have hsame : g.childrenOf oid = g.childrenOf s.oid := by
    rw [childrenOf, childrenOf, hn, h.node?_subtree ht hs]
  have hwalk := PartitionTree.breadthFirst_levels hs fun u hu => h.childrenOf_subtree ht hu
  rw [s.levels_eq, List.map_cons, ← h.descendants_of_node? ht hs hn] at hwalk
  cases hwalk with
  | visit hwalk => rwa [List.nil_append, ← hsame] at hwalk

/-- Subtrees that go by one identifier are one, in one tree. -/
theorem subtree_eq_of_oid (hs : s ∈ t.subtrees) (hu : u ∈ v.trees) (hw : w ∈ u.subtrees)
    (heq : s.oid = w.oid) : t = u ∧ s = w := by
  have htree : t = u := h.eq_of_mem_oids ht hu (PartitionTree.oid_mem_oids hs)
    (heq ▸ PartitionTree.oid_mem_oids hw)
  subst htree
  exact ⟨rfl, h.eq_of_oid ht hs hw heq⟩

/-! ### Up -/

theorem parent?_of_part (hs : s ∈ t.subtrees) (hc : c ∈ s.parts) :
    g.parent? c.node = some s.node := by
  obtain ⟨r, hlinked⟩ := h.linked t ht
  rw [parent?, (hlinked.linkedAt s hs).parent_of_part c hc, Option.bind_some,
    h.exactNode?_subtree ht hs]

theorem parent?_top : g.parent? t.node = none := by
  obtain ⟨r, hlinked⟩ := h.linked t ht
  rw [parent?, hlinked.parent, Option.bind_none]

/-- The parent of a node is the tree it is a part of. -/
theorem parent?_eq_some_iff (hu : u ∈ t.subtrees) : g.parent? u.node = some m ↔
    ∃ w ∈ t.subtrees, w.node = m ∧ u ∈ w.parts := by
  constructor
  · intro hparent
    rcases PartitionTree.eq_or_mem_parts hu with rfl | ⟨w, hw, hpart⟩
    · rw [h.parent?_top ht] at hparent
      cases hparent
    · rw [h.parent?_of_part ht hw hpart] at hparent
      exact ⟨w, hw, Option.some.inj hparent, hpart⟩
  · rintro ⟨w, hw, rfl, hpart⟩
    exact h.parent?_of_part ht hw hpart

/-- **What stands above a node** are the trees it is on a lower level of. -/
theorem above_eq_some_iff (hu : u ∈ t.subtrees) : g.above k u.node = some m ↔
    ∃ s ∈ t.subtrees, s.node = m ∧ u ∈ s.atDepth k := by
  induction k generalizing u with
  | zero =>
    rw [above, Option.some.injEq]
    constructor
    · intro heq
      exact ⟨u, hu, heq, List.mem_singleton_self u⟩
    · rintro ⟨s, -, rfl, hdepth⟩
      rw [List.mem_singleton.1 hdepth]
  | succ k ih =>
    rw [above, Option.bind_eq_some_iff]
    constructor
    · rintro ⟨p, hparent, habove⟩
      obtain ⟨w, hw, rfl, hpart⟩ := (h.parent?_eq_some_iff ht hu).1 hparent
      obtain ⟨s, hs, hm, hdepth⟩ := (ih hw).1 habove
      exact ⟨s, hs, hm, PartitionTree.mem_atDepth_succ_iff.2 ⟨w, hdepth, hpart⟩⟩
    · rintro ⟨s, hs, hm, hdepth⟩
      obtain ⟨w, hdepth, hpart⟩ := PartitionTree.mem_atDepth_succ_iff.1 hdepth
      have hw := PartitionTree.mem_subtrees_trans
        (PartitionTree.mem_subtrees_of_mem_atDepth hdepth) hs
      exact ⟨w.node, h.parent?_of_part ht hw hpart, (ih hw).2 ⟨s, hs, hm, hdepth⟩⟩

theorem ownConstraints_top : g.ownConstraints t.node = [] := by
  rw [ownConstraints, h.parent?_top ht, Option.bind_none]
  cases t.node.bound <;> rfl

theorem boundConstraints_top : g.boundConstraints t.oid = [] := by
  rw [boundConstraints, h.node?_subtree ht t.self_mem_subtrees]
  cases g.nodeKeys.length with
  | zero => rfl
  | succ fuel =>
    show g.ownConstraints t.node ++ g.constraintsUp fuel (g.parent? t.node) = []
    rw [h.ownConstraints_top ht, h.parent?_top ht, constraintsUp_none, List.nil_append]

/-- **The walk up from a node** gathers its constraints. -/
theorem upward_subtree (hs : s ∈ t.subtrees) :
    Upward g (some s.node) (g.boundConstraints s.oid) := by
  obtain ⟨k, hdepth⟩ := PartitionTree.exists_mem_atDepth hs
  clear hs
  induction k generalizing s with
  | zero =>
    obtain rfl := List.mem_singleton.1 hdepth
    have hup : Upward g (some s.node) (g.ownConstraints s.node ++ []) := by
      refine .up ?_
      rw [h.parent?_top ht]
      exact .done
    rwa [h.ownConstraints_top ht, List.append_nil, ← h.boundConstraints_top ht] at hup
  | succ k ih =>
    obtain ⟨u, hu, hpart⟩ := PartitionTree.mem_atDepth_succ_iff.1 hdepth
    have hmem := PartitionTree.mem_subtrees_of_mem_atDepth hu
    obtain ⟨b, key, hb, hkey, heq⟩ := h.boundConstraints_of_part ht hmem hpart
    have hparent := h.parent?_of_part ht hmem hpart
    have hown : g.ownConstraints s.node = b.constraints key := by
      rw [ownConstraints, hb, hparent, Option.bind_some, hkey]
    rw [heq, ← hown]
    refine .up ?_
    rw [hparent]
    exact ih hu

theorem boundConstraints_of_node? (hs : s ∈ t.subtrees) (hn : g.node? oid = some s.node) :
    g.boundConstraints oid = g.boundConstraints s.oid := by
  rw [boundConstraints, boundConstraints, hn, h.node?_subtree ht hs]

/-! ### Both -/

omit ht in
/-- **Below a node is found what stands above from there.** -/
theorem mem_descendants_iff (hm : g.node? oid = some m) (hn : g.node? low = some n) :
    n.oid ∈ g.descendants oid ↔ ∃ k, g.above (k + 1) n = some m := by
  obtain ⟨t, ht, s, hs, rfl⟩ := h.exists_subtree hm
  obtain ⟨t', ht', u, hu, rfl⟩ := h.exists_subtree hn
  rw [h.descendants_of_node? ht hs hm, List.mem_map]
  constructor
  · rintro ⟨w, hw, hoid⟩
    obtain ⟨k, hdepth⟩ := PartitionTree.mem_lower_iff.1 hw
    have hwt := PartitionTree.mem_subtrees_trans (PartitionTree.mem_subtrees_of_mem_lower hw) hs
    obtain ⟨rfl, rfl⟩ := h.subtree_eq_of_oid ht hwt ht' hu hoid
    exact ⟨k, (h.above_eq_some_iff ht hwt).2 ⟨s, hs, rfl, hdepth⟩⟩
  · rintro ⟨k, habove⟩
    obtain ⟨s', hs', hnode, hdepth⟩ := (h.above_eq_some_iff ht' hu).1 habove
    obtain ⟨rfl, rfl⟩ := h.subtree_eq_of_oid ht' hs' ht hs (congrArg Node.oid hnode)
    exact ⟨u, PartitionTree.mem_lower_iff.2 ⟨k, hdepth⟩, rfl⟩

omit ht in
/-- What is found below an identifier is the lower part of a tree, or nothing. -/
theorem descendants_cases (oid : Oid) : g.descendants oid = [] ∨
    ∃ t ∈ v.trees, ∃ s ∈ t.subtrees, g.descendants oid = s.lower.map PartitionTree.oid := by
  cases hnode : g.node? oid with
  | none => exact .inl (descendants_eq_nil hnode).2
  | some n =>
    obtain ⟨t, ht, s, hs, rfl⟩ := h.exists_subtree hnode
    exact .inr ⟨t, ht, s, hs, h.descendants_of_node? ht hs hnode⟩

omit ht in
theorem descendants_nodup (oid : Oid) : (g.descendants oid).Nodup := by
  obtain hnil | ⟨t, ht, s, hs, heq⟩ := h.descendants_cases oid
  · rw [hnil]
    exact List.nodup_nil
  · rw [heq]
    exact PartitionTree.lower_nodup (h.oids_nodup_of_mem ht) hs

omit ht in
theorem descendants_rise
    (hlevel : ∀ t ∈ v.trees, ∀ s ∈ t.subtrees, ∀ c ∈ s.parts, c.node.level = s.node.level + 1)
    (oid : Oid) : (g.descendants oid).Pairwise fun a b => ∀ m n,
      g.node? a = some m → g.node? b = some n → m.level ≤ n.level := by
  obtain hnil | ⟨t, ht, s, hs, heq⟩ := h.descendants_cases oid
  · rw [hnil]
    exact .nil
  · have hmem : ∀ u ∈ s.lower, g.node? u.oid = some u.node := fun u hu =>
      h.node?_subtree ht
        (PartitionTree.mem_subtrees_trans (PartitionTree.mem_subtrees_of_mem_lower hu) hs)
    rw [heq, List.pairwise_map]
    refine (PartitionTree.lower_rises (hlevel t ht) hs).imp_of_mem ?_
    intro a b ha hb hle m n hm hn
    rw [hmem a ha] at hm
    rw [hmem b hb] at hn
    rwa [← Option.some.inj hm, ← Option.some.inj hn]

omit ht in
/-- The constraints of a partition are those of its bound, followed by those of its
parent. -/
theorem boundConstraints_of_parent (hn : g.node? oid = some n) (hparent : n.parent = some parent) :
    ∃ m b key, g.node? parent = some m ∧ n.bound = some b ∧ m.key = some key ∧
      g.boundConstraints oid = b.constraints key ++ g.boundConstraints parent := by
  obtain ⟨t, ht, s, hs, rfl⟩ := h.exists_subtree hn
  obtain ⟨r, hlinked⟩ := h.linked t ht
  rcases PartitionTree.eq_or_mem_parts hs with rfl | ⟨u, hu, hpart⟩
  · rw [hlinked.parent] at hparent
    cases hparent
  · rw [(hlinked.linkedAt u hu).parent_of_part s hpart] at hparent
    obtain rfl := Option.some.inj hparent
    obtain ⟨b, key, hb, hkey, heq⟩ := h.boundConstraints_of_part ht hu hpart
    refine ⟨u.node, b, key, h.node?_subtree ht hu, hb, hkey, ?_⟩
    rw [h.boundConstraints_of_node? ht hs hn, heq]

omit ht in
/-- **In a registry of planted trees the walks agree.** -/
theorem walksAgree
    (hlevel : ∀ t ∈ v.trees, ∀ s ∈ t.subtrees, ∀ c ∈ s.parts, c.node.level = s.node.level + 1) :
    g.WalksAgree where
  live key n hn := h.node?_oid ((h.nodes.live_iff n).1 ⟨key, hn⟩)
  downward oid := by
    cases hnode : g.node? oid with
    | none =>
      obtain ⟨hchildren, hdescendants⟩ := descendants_eq_nil hnode
      rw [hchildren, hdescendants]
      exact .done
    | some n =>
      obtain ⟨t, ht, s, hs, rfl⟩ := h.exists_subtree hnode
      exact h.downward_of_node? ht hs hnode
  upward oid := by
    cases hnode : g.node? oid with
    | none =>
      rw [boundConstraints, hnode, constraintsUp_none]
      exact .done
    | some n =>
      obtain ⟨t, ht, s, hs, rfl⟩ := h.exists_subtree hnode
      rw [h.boundConstraints_of_node? ht hs hnode]
      exact h.upward_subtree ht hs
  descendants_live oid low hlow := by
    obtain ⟨t, ht, s, hs, -, u, hu, rfl⟩ := h.exists_of_mem_descendants hlow
    exact ⟨u.node, h.node?_subtree ht (PartitionTree.mem_subtrees_trans hu hs), rfl⟩
  mem_descendants_iff _ _ _ _ := h.mem_descendants_iff
  descendants_nodup := h.descendants_nodup
  descendants_rise := h.descendants_rise hlevel
  boundConstraints_root oid n hn hroot := by
    obtain ⟨t, ht, s, hs, rfl⟩ := h.exists_subtree hn
    obtain ⟨r, hlinked⟩ := h.linked t ht
    obtain rfl := hlinked.eq_of_isRoot hs (by rw [Node.isRoot, hroot]; rfl)
    rw [h.boundConstraints_of_node? ht hs hn, h.boundConstraints_top ht]
  boundConstraints_part _ _ _ := h.boundConstraints_of_parent

end Holds

end Registry

/-! ## Runs -/

namespace Extension

variable {σ : Type} [Catalog σ] {x : Extension} {v : Inventory}

/-- **The walks of a registry agree**, where no identifier of a hypothetical object
has ever been that of a shadowed relation. -/
theorem walks_agree (h : ReachedWithin σ Unmixed x) :
    (∀ oid, x.ids.isIssued oid = true ↔
      (x.registry.index? oid).isSome ∨ (x.registry.exactNode? oid).isSome) ∧
    x.registry.WalksAgree := by
  obtain ⟨log, hcalls⟩ := h
  obtain ⟨v, hrun, hreflects⟩ := hcalls.reflects
  refine ⟨fun oid => ?_, hreflects.holds.walksAgree fun t ht => ?_⟩
  · rw [hreflects.isIssued_iff, Inventory.mem_oids_iff, Inventory.mem_nodeOids_iff,
      Option.isSome_iff_exists, Option.isSome_iff_exists]
    simp only [hreflects.holds.index?_iff, hreflects.holds.exactNode?_iff]
  · obtain ⟨r, l, -, htree⟩ := hrun.planted t ht
    exact fun s hs c hc => htree.level_of_part hs hc

theorem walks_agree_orders :
    ordersRooted.registry.descendants ⟨16400⟩ = [⟨16401⟩, ⟨16402⟩] ∧
      ordersRooted.registry.WalksAgree := by
  have hreached : ReachedWithin MemoryCatalog Unmixed ordersRooted :=
    .perform shadowOrders (.fresh true) shadowOrders.faithful_memory (by decide +kernel)
  exact ⟨by decide +kernel, (walks_agree hreached).2⟩

/-! ## Where they do not agree -/

/-- A catalog with a table `parcels` and the identifiers of lost partitions to lend. -/
def parcelsCatalog : MemoryCatalog :=
  .holding ⟨16411⟩ [{ orders with oid := ⟨16386⟩, name := "parcels" }]

/-- The extension with a tree that has lost its partitions, and one over `parcels`
that has their identifiers. -/
def parcelsRooted : Extension :=
  (linesOrphaned.registerTable parcelsCatalog ⟨16386⟩ ordersLayout).2.1

theorem reached_parcelsRooted : ReachedWithin MemoryCatalog (fun _ => True) parcelsRooted :=
  reached_linesOrphaned.performAll [.registerTable parcelsCatalog ⟨16386⟩ ordersLayout]

/-- **Where the walks do not agree.** Dropping a tree while the identifier of its root
is that of a shadowed relation takes the partitions of another tree with it. That
tree still names them as its children. Where their identifiers are issued anew, it
leads into the tree that has them, though nothing is mixed any more. -/
theorem walks_disagree :
    ReachedWithin MemoryCatalog (fun _ => True) parcelsRooted ∧ parcelsRooted.Unmixed ∧
      parcelsRooted.registry.descendants ⟨16410⟩ = [⟨16411⟩, ⟨16412⟩, ⟨16412⟩, ⟨16413⟩] ∧
      ∃ m n, parcelsRooted.registry.node? ⟨16410⟩ = some m ∧
        parcelsRooted.registry.node? ⟨16411⟩ = some n ∧
        ∀ k, parcelsRooted.registry.above (k + 1) n ≠ some m := by
  refine ⟨reached_parcelsRooted, by decide +kernel, by decide +kernel, ?_⟩
  have hm : (parcelsRooted.registry.node? ⟨16410⟩).isSome := by decide +kernel
  obtain ⟨n, hn, hroot⟩ : ∃ n, parcelsRooted.registry.node? ⟨16411⟩ = some n ∧ n.parent = none :=
    ⟨(parcelsRooted.registry.node? ⟨16411⟩).get (by decide +kernel), (Option.some_get _).symm,
      by decide +kernel⟩
  obtain ⟨m, hm⟩ := Option.isSome_iff_exists.1 hm
  refine ⟨m, n, hm, hn, fun k habove => ?_⟩
  rw [Registry.above, Registry.parent?, hroot, Option.bind_none] at habove
  cases habove

end Extension

end WhatIf
