import WhatIf.Proofs.Registry.Updates
import WhatIf.Proofs.Shadow.Registration
import WhatIf.Proofs.Catalog.Memory
/-!
# Shadow — the extension keeps an inventory

A run of administrative calls, each answered by the extension, is also a run
of calls on an inventory: two lists, to which a registration that succeeds
adds one object and from which a drop takes one away. What the extension
answers to lookups and listings is what the inventory holds (`Shows`), and the
identifiers issued are those of its objects. The relation between the two is
`Reflects`. A call keeps it that leaves no identifier issued which is that of a
relation that is shadowed (`Unmixed`), and so does a run of such calls.
-/

namespace WhatIf

/-- An administrative call. A registration finds the catalog in any state. -/
inductive AdminCall (σ : Type) where
  /-- Register an index on a relation. -/
  | registerIndex (c : σ) (relid : Oid) (spec : IndexSpec)
  /-- Shadow a relation with a partition tree. -/
  | registerTable (c : σ) (relid : Oid) (l : Layout)
  /-- Drop an index. -/
  | dropIndex (oid : Oid)
  /-- Drop a tree. -/
  | dropTable (oid : Oid)
  /-- Drop everything. -/
  | resetAll
  /-- Let the objects appear in plans, or not. -/
  | setEnabled (b : Bool)

/-- What an administrative call answers. -/
inductive AdminAnswer where
  /-- The identifier of what was registered, or why nothing was. -/
  | registered (answer : Except Error Oid)
  /-- Whether there was something to drop. -/
  | dropped (found : Bool)
  /-- Nothing. -/
  | done

variable {σ : Type} [Catalog σ]

/-- That the relations a registration looks up are those it asks for. -/
def AdminCall.Faithful : AdminCall σ → Prop
  | registerIndex c relid _ | registerTable c relid _ =>
    ∀ r, Catalog.relation c relid = .ok r → r.oid = relid
  | _ => True

/-- Over the catalog in memory they always are. -/
theorem AdminCall.faithful_memory (call : AdminCall MemoryCatalog) : call.Faithful := by
  cases call with
  | registerIndex c relid spec => exact fun _ => MemoryCatalog.oid_of_relation
  | registerTable c relid l => exact fun _ => MemoryCatalog.oid_of_relation
  | _ => trivial

namespace Extension

/-- What a call answers, and what it leaves. -/
def perform (x : Extension) : AdminCall σ → AdminAnswer × Extension
  | .registerIndex c relid spec =>
    let (answer, x, _) := x.registerIndex c relid spec
    (.registered answer, x)
  | .registerTable c relid l =>
    let (answer, x, _) := x.registerTable c relid l
    (.registered answer, x)
  | .dropIndex oid =>
    let (found, x) := x.dropIndex oid
    (.dropped found, x)
  | .dropTable oid =>
    let (found, x) := x.dropTable oid
    (.dropped found, x)
  | .resetAll => (.done, x.resetAll)
  | .setEnabled b => (.done, { x with enabled := b })

/-- **That hypothetical objects and shadowed relations are apart**: no identifier
issued is that of a relation that is shadowed. -/
def Unmixed (x : Extension) : Prop :=
  ∀ oid, x.ids.isIssued oid = true → x.registry.isShadowed oid = false

theorem unmixed_iff {x : Extension} :
    x.Unmixed ↔ ∀ oid ∈ x.ids.issued, x.registry.isShadowed oid = false :=
  forall_congr' fun _ => imp_congr_left ShadowIds.isIssued_iff

instance (x : Extension) : Decidable x.Unmixed := decidable_of_iff _ unmixed_iff.symm

/-- **A run of calls** from an extension without objects, each with its answer, that
each leave an extension of a kind. A lookup answers with the relation that was asked
for. -/
inductive Run (P : Extension → Prop) : List (AdminCall σ × AdminAnswer) → Extension → Prop
  | fresh (b : Bool) : Run P [] (fresh b)
  | step {log : List (AdminCall σ × AdminAnswer)} {x : Extension} (call : AdminCall σ) :
    Run P log x → call.Faithful → P (x.perform call).2 →
      Run P (log ++ [(call, (x.perform call).1)]) (x.perform call).2

/-- Extensions that a run leads to. -/
def ReachedWithin (σ : Type) [Catalog σ] (P : Extension → Prop) (x : Extension) : Prop :=
  ∃ log : List (AdminCall σ × AdminAnswer), Run P log x

theorem ReachedWithin.fresh {P : Extension → Prop} (b : Bool) :
    ReachedWithin σ P (.fresh b) := ⟨[], .fresh b⟩

theorem ReachedWithin.perform {P : Extension → Prop} {x : Extension} (call : AdminCall σ)
    (h : ReachedWithin σ P x) (hcall : call.Faithful) (hP : P (x.perform call).2) :
    ReachedWithin σ P (x.perform call).2 := by
  obtain ⟨log, hrun⟩ := h
  exact ⟨_, hrun.step call hcall hP⟩

/-- The extension after several calls. -/
def performAll (x : Extension) (calls : List (AdminCall σ)) : Extension :=
  calls.foldl (fun x call => (x.perform call).2) x

/-- Calls on catalogs in memory lead on, whatever they leave. -/
theorem ReachedWithin.performAll {x : Extension} (h : ReachedWithin MemoryCatalog (fun _ => True) x)
    (calls : List (AdminCall MemoryCatalog)) :
    ReachedWithin MemoryCatalog (fun _ => True) (x.performAll calls) := by
  induction calls generalizing x with
  | nil => exact h
  | cons call calls ih => exact ih (h.perform call call.faithful_memory trivial)

end Extension

/-! ## The model -/

namespace Inventory

/-- **One call on an inventory.** A registration is refused, or adds an object
under identifiers that nothing had; a drop takes away what the identifier
names, if it names something. -/
inductive Step : AdminCall σ → AdminAnswer → Inventory → Inventory → Prop
  | indexRefused {c : σ} {relid : Oid} {spec : IndexSpec} {e : Error} {v : Inventory} :
    Step (.registerIndex c relid spec) (.registered (.error e)) v v
  | indexRegistered {c : σ} {relid : Oid} {spec : IndexSpec} {r : Relation}
      {i : HypotheticalIndex} {v : Inventory} (hr : Catalog.relation c relid = .ok r)
      (hbuild : HypotheticalIndex.build i.oid r spec = .ok i) (hfresh : i.oid ∉ v.oids) :
    Step (.registerIndex c relid spec) (.registered (.ok i.oid)) v (v.addIndex i)
  | tableRefused {c : σ} {relid : Oid} {l : Layout} {e : Error} {v : Inventory} :
    Step (.registerTable c relid l) (.registered (.error e)) v v
  | tableRegistered {c : σ} {relid : Oid} {l : Layout} {r : Relation} {t : PartitionTree}
      {v : Inventory} (hr : Catalog.relation c relid = .ok r) (hvalid : l.validate r = .ok ())
      (hfree : ¬ v.Shadows relid) (htree : l.IsTree r t) (hfresh : ∀ oid ∈ t.oids, oid ∉ v.oids) :
    Step (.registerTable c relid l) (.registered (.ok t.oid)) v (v.addTree t)
  | indexDropped {oid : Oid} {v : Inventory} :
    Step (.dropIndex oid) (.dropped (v.hasIndex oid)) v (v.dropIndex oid)
  | tableDropped {oid : Oid} {v : Inventory} :
    Step (.dropTable oid) (.dropped (v.hasTree oid)) v (v.dropTree oid)
  | everythingDropped {v : Inventory} : Step .resetAll .done v .empty
  | enabledSet {b : Bool} {v : Inventory} : Step (.setEnabled b) .done v v

/-- A run of calls on an inventory that starts without objects. -/
inductive Run : List (AdminCall σ × AdminAnswer) → Inventory → Prop
  | start : Run [] .empty
  | step {log : List (AdminCall σ × AdminAnswer)} {v w : Inventory} {call : AdminCall σ}
      {answer : AdminAnswer} : Run log v → Step call answer v w → Run (log ++ [(call, answer)]) w

/-- **What an extension shows of an inventory**: its listings, the objects its
identifiers lead to, and the identifiers it has issued. -/
structure Shows (v : Inventory) (x : Extension) : Prop where
  listIndexes : x.listIndexes = v.indexes
  indexesOn : ∀ relid, x.registry.indexesOn relid = v.indexes.filter fun i => i.relid == relid
  index?_iff : ∀ oid i, x.registry.index? oid = some i ↔ i ∈ v.indexes ∧ i.oid = oid
  node?_iff : ∀ oid n, x.registry.node? oid = some n ↔ v.Resolves oid n
  isShadowed_iff : ∀ relid, x.registry.isShadowed relid = true ↔ v.Shadows relid
  listTables : x.listTables = v.trees.flatMap PartitionTree.breadthFirst
  listTables_perm : x.listTables.Perm v.nodes
  isIssued_iff : ∀ oid, x.ids.isIssued oid = true ↔ oid ∈ v.oids
  oids_nodup : v.oids.Nodup

end Inventory

namespace Extension

variable {x y : Extension} {v : Inventory} {log : List (AdminCall σ × AdminAnswer)}

/-- **An extension that keeps an inventory**: its registry holds it, and the
identifiers issued are those of its objects. -/
structure Reflects (x : Extension) (v : Inventory) : Prop where
  holds : x.registry.Holds v
  isIssued_iff : ∀ oid, x.ids.isIssued oid = true ↔ oid ∈ v.oids

theorem reflects_fresh (b : Bool) : (fresh b).Reflects .empty where
  holds := Registry.holds_empty
  isIssued_iff oid := by simp [ShadowIds.isIssued, fresh, ShadowIds.empty, Inventory.empty,
    Inventory.oids, Inventory.nodeOids]

/-- A root followed by what is below it, level by level. -/
theorem Reflects.listTree (h : x.Reflects v) {t : PartitionTree} (ht : t ∈ v.trees) :
    x.listTree t.node = t.breadthFirst := by
  have hcons := h.holds.node?_levels ht t.self_mem_subtrees
  rw [← h.holds.descendants_eq ht t.self_mem_subtrees,
    List.filterMap_cons_some (h.holds.node?_subtree ht t.self_mem_subtrees)] at hcons
  exact hcons

/-- Every tree is listed level by level. -/
theorem Reflects.listTables (h : x.Reflects v) :
    x.listTables = v.trees.flatMap PartitionTree.breadthFirst := by
  rw [Extension.listTables, h.holds.rootList, List.flatMap_map]
  exact List.flatMap_congr fun t ht => h.listTree ht

/-- What is kept is what is shown. -/
theorem Reflects.shows (h : x.Reflects v) : v.Shows x where
  listIndexes := h.holds.indexList
  indexesOn _ := h.holds.indexesOn
  index?_iff _ _ := h.holds.index?_iff
  node?_iff _ _ := h.holds.node?_iff
  isShadowed_iff _ := h.holds.isShadowed_iff
  listTables := h.listTables
  listTables_perm := by
    rw [h.listTables]
    exact List.Perm.flatMap_left _ fun t _ => t.breadthFirst_perm
  isIssued_iff := h.isIssued_iff
  oids_nodup := h.holds.oids_nodup

/-! ## One call -/

/-- Registering an index. -/
theorem Reflects.registerIndex (h : x.Reflects v) (c : σ) (relid : Oid) (spec : IndexSpec) :
    ∃ w, Inventory.Step (.registerIndex c relid spec) (x.perform (.registerIndex c relid spec)).1
      v w ∧ (x.perform (.registerIndex c relid spec)).2.Reflects w := by
  rcases x.registerIndex_cases c relid spec with ⟨e, c', heq⟩ | ⟨r, i, c', hr, hbuild, hnew, heq⟩
  · rw [perform, heq]
    exact ⟨v, .indexRefused, h⟩
  · have hfresh : i.oid ∉ v.oids := fun hmem =>
      hnew (ShadowIds.isIssued_iff.1 ((h.isIssued_iff _).2 hmem))
    rw [perform, heq]
    refine ⟨v.addIndex i, .indexRegistered hr hbuild hfresh, h.holds.insertIndex hfresh,
      fun oid => ?_⟩
    rw [ShadowIds.isIssued_iff, List.mem_cons, ← ShadowIds.isIssued_iff, h.isIssued_iff,
      Inventory.mem_oids_iff, Inventory.mem_oids_iff]
    simp only [Inventory.addIndex, List.mem_append, List.mem_singleton, Inventory.nodeOids]
    constructor
    · rintro (rfl | ⟨j, hj, hoid⟩ | hnode)
      · exact Or.inl ⟨i, Or.inr rfl, rfl⟩
      · exact Or.inl ⟨j, Or.inl hj, hoid⟩
      · exact Or.inr hnode
    · rintro (⟨j, hj | rfl, hoid⟩ | hnode)
      · exact Or.inr (Or.inl ⟨j, hj, hoid⟩)
      · exact Or.inl hoid.symm
      · exact Or.inr (Or.inr hnode)

/-- Shadowing a relation. -/
theorem Reflects.registerTable (h : x.Reflects v) (c : σ) (relid : Oid) (l : Layout)
    (hfaithful : (AdminCall.registerTable c relid l).Faithful)
    (hunmixed : (x.perform (.registerTable c relid l)).2.Unmixed) :
    ∃ w, Inventory.Step (.registerTable c relid l) (x.perform (.registerTable c relid l)).1 v w ∧
      (x.perform (.registerTable c relid l)).2.Reflects w := by
  rcases x.registerTable_cases c relid l with ⟨e, c', heq⟩ |
    ⟨r, t, below, g', ids', c', hr, hvalid, hfree, htree, hperm, hinsert, hnodup, hnew, hissued, heq⟩
  · rw [perform, heq]
    exact ⟨v, .tableRefused, h⟩
  have hmem : ∀ oid, oid ∈ (v.addTree t).oids ↔ oid ∈ t.oids ∨ oid ∈ v.oids := by
    intro oid
    simp only [Inventory.oids, Inventory.addTree, Inventory.nodeOids, List.flatMap_append,
      List.flatMap_singleton, List.mem_append]
    tauto
  have hissued' : ∀ oid, oid ∈ ids'.issued ↔ oid ∈ (v.addTree t).oids := by
    intro oid
    rw [hissued, hmem, ← h.isIssued_iff, ShadowIds.isIssued_iff]
  -- what was drawn was not issued before, so no object has it
  have hfresh : ∀ oid ∈ t.oids, oid ∉ v.oids := by
    intro oid hoid hv
    exact hnew oid hoid (ShadowIds.isIssued_iff.1 ((h.isIssued_iff oid).2 hv))
  have hrelid : t.node.relid = relid :=
    (htree.linked.linkedAt t t.self_mem_subtrees).relid.trans (hfaithful r hr)
  have hshadow : ¬ v.Shadows relid := by
    intro hs
    rw [h.holds.isShadowed_iff.2 hs] at hfree
    cases hfree
  rw [perform, heq] at hunmixed ⊢
  -- every relation that is shadowed then, and what has the identifier is issued
  have hshadowed : ∀ u ∈ (v.addTree t).trees, g'.isShadowed u.node.relid = true := by
    intro u hu
    rw [Registry.isShadowed_insertTree? hinsert]
    rcases List.mem_append.1 hu with hu | hu
    · exact Or.inr (h.holds.isShadowed_iff.2 ⟨u, hu, rfl⟩)
    · exact Or.inl (congrArg (fun t => t.node.relid) (List.mem_singleton.1 hu))
  have haway : ∀ u ∈ (v.addTree t).trees, u.node.relid ∉ (v.addTree t).nodeOids := by
    intro u hu hoid
    have hno := hunmixed u.node.relid (ShadowIds.isIssued_iff.2
      ((hissued' _).2 (Inventory.mem_oids_iff.2 (Or.inr hoid))))
    dsimp only at hno
    rw [hshadowed u hu] at hno
    cases hno
  have hnodup' : (v.addTree t).oids.Nodup := by
    have hperm' : (v.addTree t).oids = v.oids ++ t.oids := by
      simp [Inventory.oids, Inventory.addTree, Inventory.nodeOids]
    rw [hperm', List.nodup_append]
    exact ⟨h.holds.oids_nodup, hnodup, fun o ho o' ho' heq => hfresh o' ho' (heq ▸ ho)⟩
  obtain ⟨g, hg, hholds⟩ := h.holds.insertTree? htree.linked hperm hnodup' (hrelid ▸ hshadow) haway
  obtain rfl : g' = g := (Prod.mk.inj (Option.some.inj (hinsert.symm.trans hg))).2
  refine ⟨v.addTree t, .tableRegistered hr hvalid hshadow htree hfresh, hholds, fun oid => ?_⟩
  rw [ShadowIds.isIssued_iff, hissued']

/-- Dropping an index. -/
theorem Reflects.dropIndex (h : x.Reflects v) (oid : Oid) :
    (x.dropIndex oid).1 = v.hasIndex oid ∧ (x.dropIndex oid).2.Reflects (v.dropIndex oid) := by
  unfold Extension.dropIndex
  by_cases hhas : v.hasIndex oid = true
  · obtain ⟨i, g', hremove, rfl, hi, hholds⟩ := h.holds.removeIndex?_eq_some hhas
    have hnot : i.oid ∉ v.nodeOids := fun hmem =>
      (List.nodup_append.1 h.holds.oids_nodup).2.2 _ (List.mem_map_of_mem hi) _ hmem rfl
    rw [hremove, hhas]
    refine ⟨rfl, hholds, fun o => ?_⟩
    rw [ShadowIds.isIssued_iff, ShadowIds.release, List.mem_filter, ← ShadowIds.isIssued_iff,
      h.isIssued_iff, Inventory.mem_oids_iff, Inventory.mem_oids_iff]
    simp only [Inventory.dropIndex, Inventory.nodeOids, List.mem_filter, decide_eq_true_eq]
    constructor
    · rintro ⟨⟨j, hj, rfl⟩ | hnode, hne⟩
      · exact Or.inl ⟨j, ⟨hj, hne⟩, rfl⟩
      · exact Or.inr hnode
    · rintro (⟨j, ⟨hj, hne⟩, rfl⟩ | hnode)
      · exact ⟨Or.inl ⟨j, hj, rfl⟩, hne⟩
      · exact ⟨Or.inr hnode, fun heq => hnot (heq ▸ hnode)⟩
  · have hno : v.hasIndex oid = false := by simpa using hhas
    have hsame : v.dropIndex oid = v := by
      rw [Inventory.dropIndex, List.filter_eq_self.2]
      intro i hi
      simpa using List.any_eq_false.1 hno i hi
    rw [h.holds.removeIndex?_eq_none hno, hno, hsame]
    exact ⟨rfl, h⟩

/-- Dropping a tree. -/
theorem Reflects.dropTable (h : x.Reflects v) (oid : Oid) :
    (x.dropTable oid).1 = v.hasTree oid ∧ (x.dropTable oid).2.Reflects (v.dropTree oid) := by
  unfold Extension.dropTable
  by_cases hhas : v.hasTree oid = true
  · obtain ⟨t, g', ht, hgoes, hremove, hholds⟩ := h.holds.removeTree?_eq_some hhas
    have hindex : ∀ i ∈ v.indexes, i.oid ∉ t.oids := fun i hi hmem =>
      (List.nodup_append.1 h.holds.oids_nodup).2.2 _ (List.mem_map_of_mem hi) _
        (List.mem_flatMap.2 ⟨t, ht, hmem⟩) rfl
    rw [hremove, hhas]
    refine ⟨rfl, hholds, fun o => ?_⟩
    rw [ShadowIds.isIssued_iff, ShadowIds.foldl_release, List.mem_filter, decide_eq_true_eq,
      (t.levels_perm.map _).mem_iff, ← PartitionTree.oids_eq, ← ShadowIds.isIssued_iff,
      h.isIssued_iff, Inventory.mem_oids_iff, Inventory.mem_oids_iff, Inventory.mem_nodeOids_iff,
      Inventory.mem_nodeOids_iff]
    constructor
    · rintro ⟨hi | ⟨n, hn, rfl⟩, hnot⟩
      · exact Or.inl hi
      · exact Or.inr ⟨n, (h.holds.mem_nodes_dropTree_iff ht hgoes).2 ⟨hn, hnot⟩, rfl⟩
    · rintro (⟨i, hi, rfl⟩ | ⟨n, hn, rfl⟩)
      · exact ⟨Or.inl ⟨i, hi, rfl⟩, hindex i hi⟩
      · obtain ⟨hn, hnot⟩ := (h.holds.mem_nodes_dropTree_iff ht hgoes).1 hn
        exact ⟨Or.inr ⟨n, hn, rfl⟩, hnot⟩
  · have hno : v.hasTree oid = false := by simpa using hhas
    have hsame : v.dropTree oid = v := by
      rw [Inventory.dropTree, List.filter_eq_self.2]
      intro t ht
      simpa using List.any_eq_false.1 hno t ht
    rw [h.holds.removeTree?_eq_none hno, hno, hsame]
    exact ⟨rfl, h⟩

/-- **One call keeps the inventory**, which changes as the call says. -/
theorem Reflects.perform (h : x.Reflects v) (call : AdminCall σ)
    (hfaithful : call.Faithful) (hunmixed : (x.perform call).2.Unmixed) :
    ∃ w, Inventory.Step call (x.perform call).1 v w ∧ (x.perform call).2.Reflects w := by
  cases call with
  | registerIndex c relid spec => exact h.registerIndex c relid spec
  | registerTable c relid l => exact h.registerTable c relid l hfaithful hunmixed
  | dropIndex oid =>
    obtain ⟨hfound, hreflects⟩ := h.dropIndex oid
    refine ⟨v.dropIndex oid, ?_, hreflects⟩
    show Inventory.Step _ (.dropped (x.dropIndex oid).1) _ _
    rw [hfound]
    exact .indexDropped
  | dropTable oid =>
    obtain ⟨hfound, hreflects⟩ := h.dropTable oid
    refine ⟨v.dropTree oid, ?_, hreflects⟩
    show Inventory.Step _ (.dropped (x.dropTable oid).1) _ _
    rw [hfound]
    exact .tableDropped
  | resetAll =>
    refine ⟨.empty, .everythingDropped, Registry.holds_reset, ?_⟩
    exact (reflects_fresh x.enabled).isIssued_iff
  | setEnabled b => exact ⟨v, .enabledSet, h.holds, h.isIssued_iff⟩

/-! ## Runs -/

/-- A run that keeps them apart all along keeps an inventory. -/
theorem Run.reflects (h : Run Unmixed log x) : ∃ v, Inventory.Run log v ∧ x.Reflects v := by
  induction h with
  | fresh b => exact ⟨.empty, .start, reflects_fresh b⟩
  | step call _ hfaithful hunmixed ih =>
    obtain ⟨v, hrun, hreflects⟩ := ih
    obtain ⟨w, hstep, hw⟩ := hreflects.perform call hfaithful hunmixed
    exact ⟨w, hrun.step hstep, hw⟩

/-- **The extension refines its inventory.** Whatever calls are made, and
however the catalog answers them, an inventory gives the same answers to the
same calls, and what it then holds is what the extension shows. -/
theorem exists_inventory_of_run (h : Run Unmixed log x) : ∃ v, Inventory.Run log v ∧ v.Shows x := by
  obtain ⟨v, hrun, hreflects⟩ := h.reflects
  exact ⟨v, hrun, hreflects.shows⟩

/-- A table `orders` with one column. -/
def orders : Relation where
  oid := ⟨16384⟩
  name := "orders"
  kind := .relation
  persistence := .permanent
  tablespace := Oid.invalid
  columns := [⟨⟨1⟩, "id", .int4, true, none⟩]
  pages := 10
  tuples := 100.0

/-- A catalog with the table `orders` alone. -/
def ordersCatalog : MemoryCatalog := .holding ⟨16400⟩ [orders]

/-- Register an index on `orders`. -/
def indexOrders : AdminCall MemoryCatalog :=
  .registerIndex ordersCatalog orders.oid (.onColumns .btree ["id"])

/-- Shadow `orders` with two partitions. -/
def shadowOrders : AdminCall MemoryCatalog :=
  .registerTable ordersCatalog orders.oid
    (((Layout.blank .range ["id"]).add (.ofRange "low" .minValue (.value (.int 0)))).add
      (.ofRange "high" (.value (.int 0)) .maxValue))

theorem run_shadowOrders :
    Run Unmixed [(shadowOrders, .registered (.ok ⟨16400⟩))]
      ((fresh true).perform shadowOrders).2 := by
  have hanswer : ((fresh true).perform shadowOrders).1 = .registered (.ok ⟨16400⟩) := by rfl
  rw [← hanswer]
  exact .step shadowOrders (.fresh true) shadowOrders.faithful_memory (by decide +kernel)

/-- An extension with an index on `orders`. -/
def ordersIndexed : Extension := ((fresh true).perform indexOrders).2

/-- The same, with `orders` shadowed too. -/
def ordersShadowed : Extension := (ordersIndexed.perform shadowOrders).2

/-- The same, with the partitions dropped again. -/
def ordersDropped : Extension :=
  (ordersShadowed.perform (.dropTable orders.oid : AdminCall MemoryCatalog)).2

theorem exists_inventory_of_orders :
    ∃ v, Inventory.Run [(indexOrders, .registered (.ok ⟨16400⟩)),
      (shadowOrders, .registered (.ok ⟨16401⟩)), (.dropTable orders.oid, .dropped true)] v ∧
      v.Shows ordersDropped := by
  have h₁ : ((fresh true).perform indexOrders).1 = .registered (.ok ⟨16400⟩) := by rfl
  have h₂ : (ordersIndexed.perform shadowOrders).1 = .registered (.ok ⟨16401⟩) := by rfl
  have h₃ : (ordersShadowed.perform (.dropTable orders.oid : AdminCall MemoryCatalog)).1 =
      .dropped true := by rfl
  rw [← h₁, ← h₂, ← h₃]
  have hindexed : Run Unmixed _ ordersIndexed :=
    .step indexOrders (.fresh true) indexOrders.faithful_memory (by decide +kernel)
  have hshadowed : Run Unmixed _ ordersShadowed :=
    .step shadowOrders hindexed shadowOrders.faithful_memory (by decide +kernel)
  exact exists_inventory_of_run
    (.step (.dropTable orders.oid) hshadowed trivial (by decide +kernel))

end Extension

end WhatIf
