import WhatIf.Registry.Basic
import WhatIf.Proofs.Store.Keyed
/-!
# Registry — one index more

What the registry lists on a relation after an index was inserted, and after it
was removed again. This needs less than that the registry keeps an inventory:
every key in order of registration resolves (`Ordered`), which each operation
keeps whatever identifiers its objects have.
-/

namespace WhatIf

namespace Registry

variable {g g' : Registry} {new : Oid → Prop} {i : HypotheticalIndex} {oid relid : Oid}

/-- **A registry whose order of registration leads to indexes.** -/
def Ordered (g : Registry) : Prop := ∀ k ∈ g.indexOrder, (g.indexes.get? k).isSome = true

/-! ## The order of registration -/

theorem ordered_empty : Registry.empty.Ordered := fun _ h => absurd h List.not_mem_nil

theorem ordered_reset : g.reset.Ordered := fun _ h => absurd h List.not_mem_nil

/-- Only the indexes and their order matter. -/
theorem Ordered.congr (h : g.Ordered) (hindexes : g'.indexes = g.indexes)
    (horder : g'.indexOrder = g.indexOrder) : g'.Ordered := by
  unfold Ordered
  rw [hindexes, horder]
  exact h

/-- The key for a new index is none of those in order. -/
theorem Ordered.alloc_ne (h : g.Ordered) {k : ArenaKey} (hk : k ∈ g.indexOrder) :
    k ≠ (g.indexes.alloc i).1 := by
  rintro rfl
  have hlive := h _ hk
  rw [SimulationArena.get?_alloc_key] at hlive
  cases hlive

/-- The keys in order lead to the same indexes once there is a new one. -/
theorem Ordered.get?_alloc (h : g.Ordered) {k : ArenaKey} (hk : k ∈ g.indexOrder) :
    (g.indexes.alloc i).2.get? k = g.indexes.get? k := by
  rw [SimulationArena.get?_alloc, if_neg (h.alloc_ne hk)]

/-- The new key leads to the new index. -/
theorem get?_alloc_self : (g.indexes.alloc i).2.get? (g.indexes.alloc i).1 = some i := by
  rw [SimulationArena.get?_alloc, if_pos rfl]

theorem insertIndex_eq : g.insertIndex i = { g with
    indexes := (g.indexes.alloc i).2
    indexOrder := g.indexOrder ++ [(g.indexes.alloc i).1]
    indexKeys := Keyed.insert g.indexKeys i.oid (g.indexes.alloc i).1 } := rfl

theorem Ordered.insertIndex (h : g.Ordered) : (g.insertIndex i).Ordered := by
  rw [insertIndex_eq]
  intro k hk
  dsimp only at hk ⊢
  rcases List.mem_append.1 hk with hk | hk
  · rw [h.get?_alloc hk]
    exact h k hk
  · rw [List.mem_singleton.1 hk, get?_alloc_self]
    rfl

theorem Ordered.removeIndex? (h : g.Ordered) (hremove : g.removeIndex? oid = some (i, g')) :
    g'.Ordered := by
  unfold Registry.removeIndex? at hremove
  split at hremove
  · cases hremove
  · rename_i key _
    obtain ⟨j, -, heq⟩ := Option.map_eq_some_iff.1 hremove
    obtain ⟨-, rfl⟩ := Prod.mk.inj heq
    intro k hk
    obtain ⟨hk, hne⟩ := List.mem_filter.1 hk
    show ((g.indexes.erase key).get? k).isSome = true
    rw [SimulationArena.get?_erase, if_neg (of_decide_eq_true hne)]
    exact h k hk

/-- Nodes are kept apart from indexes. -/
theorem Ordered.insertTree? (h : g.Ordered) {tree : List Node}
    (hinsert : g.insertTree? tree = some (oid, g')) : g'.Ordered := by
  unfold Registry.insertTree? at hinsert
  split at hinsert
  · cases hinsert
  · rename_i root below
    obtain ⟨-, rfl⟩ := Prod.mk.inj (Option.some.inj hinsert)
    have hnodes : ((root :: below).foldl insertNode g).Ordered :=
      List.foldlRecOn (root :: below) insertNode h fun g' hg' n _ => hg'.congr rfl rfl
    exact hnodes.congr rfl rfl

theorem Ordered.removeTree? (h : g.Ordered) {members : List Oid}
    (hremove : g.removeTree? oid = some (members, g')) : g'.Ordered := by
  obtain ⟨root, -, heq⟩ := Option.map_eq_some_iff.1 hremove
  obtain ⟨-, rfl⟩ := Prod.mk.inj heq
  have hnodes : ((root.oid :: g.descendants root.oid).foldl eraseNode g).Ordered := by
    refine List.foldlRecOn _ eraseNode h fun g' hg' oid _ => ?_
    unfold eraseNode
    split
    · exact hg'
    · exact hg'.congr rfl rfl
  exact hnodes.congr rfl rfl

/-! ## What is gained -/

/-- **A registry with some indexes more**, listed after the others of their
relations, and the same trees. -/
structure Gains (new : Oid → Prop) (g g' : Registry) : Prop where
  trees : ∃ indexes indexOrder indexKeys, g' = { g with indexes, indexOrder, indexKeys }
  indexesOn : ∀ relid, ∃ extra, (∀ i ∈ extra, new i.oid) ∧
    g'.indexesOn relid = g.indexesOn relid ++ extra

/-- A new index is listed last. -/
theorem Ordered.indexList_insertIndex (h : g.Ordered) :
    (g.insertIndex i).indexList = g.indexList ++ [i] := by
  rw [insertIndex_eq]
  unfold Registry.indexList
  dsimp only
  rw [List.filterMap_append, List.filterMap_cons_some get?_alloc_self,
    List.filterMap_congr fun k hk => h.get?_alloc hk]
  rfl

/-- **One index more.** -/
theorem Ordered.gains_insertIndex (h : g.Ordered) : g.Gains (· = i.oid) (g.insertIndex i) where
  trees := ⟨_, _, _, insertIndex_eq⟩
  indexesOn relid := by
    refine ⟨[i].filter fun j => j.relid == relid, fun j hj => ?_, ?_⟩
    · rw [List.mem_singleton.1 (List.mem_of_mem_filter hj)]
    · unfold Registry.indexesOn
      rw [h.indexList_insertIndex, List.filter_append]

/-- **And back again**: once a new index is removed, what was there is listed as
before. -/
theorem Ordered.removeIndex?_insertIndex (h : g.Ordered) :
    ∃ g', (g.insertIndex i).removeIndex? i.oid = some (i, g') ∧ g.Gains (fun _ => False) g' := by
  have hkey : Keyed.find? (Keyed.insert g.indexKeys i.oid (g.indexes.alloc i).1) i.oid =
      some (g.indexes.alloc i).1 := by
    rw [Keyed.find?_insert, if_pos rfl]
  -- the new key is none of those in order, so it alone is taken out
  have horder : (g.indexOrder ++ [(g.indexes.alloc i).1]).filter
      (fun k => k ≠ (g.indexes.alloc i).1) = g.indexOrder := by
    rw [List.filter_append, List.filter_eq_self.2 fun k hk => decide_eq_true (h.alloc_ne hk)]
    simp
  have hlist : g.indexOrder.filterMap ((g.indexes.alloc i).2.erase (g.indexes.alloc i).1).get? =
      g.indexList := by
    refine List.filterMap_congr fun k hk => ?_
    rw [SimulationArena.get?_erase, if_neg (h.alloc_ne hk), h.get?_alloc hk]
  refine ⟨{ g with
    indexes := (g.indexes.alloc i).2.erase (g.indexes.alloc i).1
    indexOrder := g.indexOrder
    indexKeys := Keyed.erase (Keyed.insert g.indexKeys i.oid (g.indexes.alloc i).1) i.oid },
    ?_, ⟨_, _, _, rfl⟩, fun relid => ⟨[], by simp, ?_⟩⟩
  · rw [insertIndex_eq, Registry.removeIndex?]
    dsimp only
    rw [hkey]
    dsimp only
    rw [get?_alloc_self, horder]
    rfl
  · rw [List.append_nil]
    unfold Registry.indexesOn
    rw [← hlist]
    rfl

/-! ## What stays -/

namespace Gains

variable (h : g.Gains new g')

include h

/-- **Every node is found as before**, by its identifier or by the relation it
shadows. -/
theorem node? (oid : Oid) : g'.node? oid = g.node? oid := by
  obtain ⟨indexes, indexOrder, indexKeys, rfl⟩ := h.trees
  rfl

theorem partitioned? (oid : Oid) : g'.partitioned? oid = g.partitioned? oid := by
  rw [Registry.partitioned?, Registry.partitioned?, h.node?]

theorem isShadowed (relid : Oid) : g'.isShadowed relid = g.isShadowed relid := by
  obtain ⟨indexes, indexOrder, indexKeys, rfl⟩ := h.trees
  rfl

theorem descendants (oid : Oid) : g'.descendants oid = g.descendants oid := by
  have hchildren : g'.childrenOf = g.childrenOf := by
    funext oid
    rw [childrenOf, childrenOf, h.node?]
  have hlevels : ∀ fuel level, g'.levelsFrom fuel level = g.levelsFrom fuel level := by
    intro fuel
    induction fuel with
    | zero => exact fun _ => rfl
    | succ fuel ih =>
      intro level
      rw [levelsFrom, levelsFrom, hchildren, ih]
  obtain ⟨indexes, indexOrder, indexKeys, heq⟩ := h.trees
  have hfuel : g'.nodeKeys = g.nodeKeys := by rw [heq]
  rw [Registry.descendants, Registry.descendants, hlevels, hchildren, hfuel]

/-- **What the rows of a partition satisfy** is as before. -/
theorem boundConstraints (oid : Oid) : g'.boundConstraints oid = g.boundConstraints oid := by
  have hnode := h.node? oid
  obtain ⟨indexes, indexOrder, indexKeys, rfl⟩ := h.trees
  have hup : ∀ fuel (n : Option Node),
      ({ g with indexes, indexOrder, indexKeys } : Registry).constraintsUp fuel n =
        g.constraintsUp fuel n := by
    intro fuel
    induction fuel with
    | zero => exact fun _ => rfl
    | succ fuel ih =>
      rintro (_ | n)
      · rfl
      · rw [constraintsUp, constraintsUp, ih]
        rfl
  rw [Registry.boundConstraints, Registry.boundConstraints, hnode, hup]

end Gains

end Registry

end WhatIf
