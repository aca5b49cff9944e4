import WhatIf.Proofs.Shadow.Refinement
/-!
# Shadow — one object more, or nothing

A registration that fails leaves the extension as it was, at whatever draw it
failed. One that succeeds adds one object: `AddsIndex` and `AddsTree` compare
every listing and every lookup before and after. That nothing else changes
takes a condition on identifiers, and `hides_over_root` shows why. A relation
that goes by the identifier of a root may be shadowed like any other, and its
tree then stands in front of the tree of that root.
-/

namespace WhatIf

variable {σ : Type} [Catalog σ]

namespace Extension

/-- **One index more**, under an identifier that was not issued, and no other
change. -/
structure AddsIndex (x y : Extension) (i : HypotheticalIndex) : Prop where
  not_issued : x.ids.isIssued i.oid = false
  isIssued_iff : ∀ oid, y.ids.isIssued oid = true ↔ x.ids.isIssued oid = true ∨ oid = i.oid
  listIndexes : y.listIndexes = x.listIndexes ++ [i]
  index?_iff : ∀ oid j, y.registry.index? oid = some j ↔
    x.registry.index? oid = some j ∨ j = i ∧ oid = i.oid
  listTables : y.listTables = x.listTables
  node? : ∀ oid, y.registry.node? oid = x.registry.node? oid
  isShadowed : ∀ relid, y.registry.isShadowed relid = x.registry.isShadowed relid
  enabled : y.enabled = x.enabled

/-- **One tree more**, over a relation that was not shadowed, under identifiers
that were not issued, and no other change. -/
structure AddsTree (x y : Extension) (relid : Oid) (t : PartitionTree) : Prop where
  oids_nodup : t.oids.Nodup
  not_issued : ∀ oid ∈ t.oids, x.ids.isIssued oid = false
  isIssued_iff : ∀ oid, y.ids.isIssued oid = true ↔ x.ids.isIssued oid = true ∨ oid ∈ t.oids
  listTables : y.listTables = x.listTables ++ t.breadthFirst
  node?_iff : ∀ oid n, y.registry.node? oid = some n ↔
    x.registry.node? oid = some n ∨ (n ∈ t.nodes ∧ n.oid = oid) ∨ n = t.node ∧ oid = relid
  not_shadowed : x.registry.isShadowed relid = false
  isShadowed_iff : ∀ o, y.registry.isShadowed o = true ↔
    x.registry.isShadowed o = true ∨ o = relid
  listIndexes : y.listIndexes = x.listIndexes
  index? : ∀ oid, y.registry.index? oid = x.registry.index? oid
  enabled : y.enabled = x.enabled

variable {x y : Extension} {v : Inventory}
variable {log : List (AdminCall σ × AdminAnswer)} {c : σ} {relid oid : Oid}

/-! ## Failure -/

/-- Whatever the catalog answers, an index that is not registered leaves no
trace. -/
theorem registerIndex_error {spec : IndexSpec} {e : Error}
    (h : (x.registerIndex c relid spec).1 = .error e) : (x.registerIndex c relid spec).2.1 = x := by
  rcases x.registerIndex_cases c relid spec with ⟨e, c', heq⟩ | ⟨r, i, c', -, -, -, heq⟩
  · rw [heq]
  · rw [heq] at h
    cases h

/-- Nor does a tree, however many of its identifiers were drawn. -/
theorem registerTable_error {l : Layout} {e : Error}
    (h : (x.registerTable c relid l).1 = .error e) : (x.registerTable c relid l).2.1 = x := by
  rcases x.registerTable_cases c relid l with ⟨e, c', heq⟩ |
    ⟨r, t, below, g', ids', c', -, -, -, -, -, -, -, -, -, heq⟩
  · rw [heq]
  · rw [heq] at h
    cases h

/-! ## Success -/

namespace Reflects

theorem not_issued (h : x.Reflects v) (hfresh : oid ∉ v.oids) : x.ids.isIssued oid = false := by
  rw [Bool.eq_false_iff, ne_eq, h.isIssued_iff]
  exact hfresh

/-- An inventory with one index more shows in the extension. -/
theorem addsIndex {i : HypotheticalIndex} (h : x.Reflects v)
    (h' : y.Reflects (v.addIndex i)) (hfresh : i.oid ∉ v.oids) (henabled : y.enabled = x.enabled) :
    x.AddsIndex y i where
  not_issued := h.not_issued hfresh
  isIssued_iff oid := by
    rw [h'.isIssued_iff, h.isIssued_iff, Inventory.mem_oids_iff, Inventory.mem_oids_iff]
    simp only [Inventory.addIndex, Inventory.nodeOids, List.mem_append, List.mem_singleton]
    constructor
    · rintro (⟨j, hj | rfl, rfl⟩ | hnode)
      · exact Or.inl (Or.inl ⟨j, hj, rfl⟩)
      · exact Or.inr rfl
      · exact Or.inl (Or.inr hnode)
    · rintro ((⟨j, hj, rfl⟩ | hnode) | rfl)
      · exact Or.inl ⟨j, Or.inl hj, rfl⟩
      · exact Or.inr hnode
      · exact Or.inl ⟨i, Or.inr rfl, rfl⟩
  listIndexes := by
    rw [h'.shows.listIndexes, h.shows.listIndexes]
    rfl
  index?_iff oid j := by
    rw [h'.shows.index?_iff, h.shows.index?_iff, Inventory.addIndex, List.mem_append,
      List.mem_singleton]
    constructor
    · rintro ⟨hj | rfl, rfl⟩
      · exact Or.inl ⟨hj, rfl⟩
      · exact Or.inr ⟨rfl, rfl⟩
    · rintro (⟨hj, rfl⟩ | ⟨rfl, rfl⟩)
      · exact ⟨Or.inl hj, rfl⟩
      · exact ⟨Or.inr rfl, rfl⟩
  listTables := by
    rw [h'.listTables, h.listTables]
    rfl
  node? oid := Option.ext fun n => by
    rw [h'.holds.node?_iff, h.holds.node?_iff]
    rfl
  isShadowed relid := by
    rw [Bool.eq_iff_iff, h'.holds.isShadowed_iff, h.holds.isShadowed_iff]
    rfl
  enabled := henabled

/-- An inventory with one tree more shows in the extension. -/
theorem addsTree {t : PartitionTree} (h : x.Reflects v) (h' : y.Reflects (v.addTree t))
    (hfresh : ∀ oid ∈ t.oids, oid ∉ v.oids) (hfree : ¬ v.Shadows relid)
    (hrelid : t.node.relid = relid) (henabled : y.enabled = x.enabled) :
    x.AddsTree y relid t where
  oids_nodup := h'.holds.oids_nodup_of_mem (List.mem_append_right _ (List.mem_singleton_self t))
  not_issued oid hoid := h.not_issued (hfresh oid hoid)
  isIssued_iff oid := by
    rw [h'.isIssued_iff, h.isIssued_iff]
    simp only [Inventory.oids, Inventory.addTree, Inventory.nodeOids, List.flatMap_append,
      List.flatMap_singleton, List.mem_append]
    exact or_assoc.symm
  listTables := by
    rw [h'.listTables, h.listTables, Inventory.addTree, List.flatMap_append, List.flatMap_singleton]
  node?_iff oid n := by
    rw [h'.holds.node?_iff, h.holds.node?_iff, Inventory.Resolves, Inventory.Resolves,
      Inventory.addTree]
    constructor
    · rintro ⟨u, hu, hresolves⟩
      rcases List.mem_append.1 hu with hu | hu
      · exact Or.inl ⟨u, hu, hresolves⟩
      · obtain rfl := List.mem_singleton.1 hu
        rcases hresolves with hmem | ⟨hn, hover⟩
        · exact Or.inr (Or.inl hmem)
        · exact Or.inr (Or.inr ⟨hn, hover.symm.trans hrelid⟩)
    · rintro (⟨u, hu, hresolves⟩ | hmem | ⟨hn, hover⟩)
      · exact ⟨u, List.mem_append_left _ hu, hresolves⟩
      · exact ⟨t, List.mem_append_right _ (List.mem_singleton_self t), Or.inl hmem⟩
      · exact ⟨t, List.mem_append_right _ (List.mem_singleton_self t),
          Or.inr ⟨hn, hrelid.trans hover.symm⟩⟩
  not_shadowed := by
    rw [Bool.eq_false_iff, ne_eq, h.holds.isShadowed_iff]
    exact hfree
  isShadowed_iff o := by
    rw [h'.holds.isShadowed_iff, h.holds.isShadowed_iff, Inventory.Shadows, Inventory.Shadows,
      Inventory.addTree]
    constructor
    · rintro ⟨u, hu, hover⟩
      rcases List.mem_append.1 hu with hu | hu
      · exact Or.inl ⟨u, hu, hover⟩
      · rw [List.mem_singleton.1 hu] at hover
        exact Or.inr (hover.symm.trans hrelid)
    · rintro (⟨u, hu, hover⟩ | rfl)
      · exact ⟨u, List.mem_append_left _ hu, hover⟩
      · exact ⟨t, List.mem_append_right _ (List.mem_singleton_self t), hrelid⟩
  listIndexes := by
    rw [h'.shows.listIndexes, h.shows.listIndexes]
    rfl
  index? oid := Option.ext fun i => by
    rw [h'.holds.index?_iff, h.holds.index?_iff]
    rfl
  enabled := henabled

end Reflects

theorem registerIndex_enabled (x : Extension) (c : σ) (relid : Oid) (spec : IndexSpec) :
    (x.registerIndex c relid spec).2.1.enabled = x.enabled := by
  rcases x.registerIndex_cases c relid spec with ⟨e, c', heq⟩ | ⟨r, i, c', -, -, -, heq⟩
  · rw [heq]
  · rw [heq]

theorem registerTable_enabled (x : Extension) (c : σ) (relid : Oid) (l : Layout) :
    (x.registerTable c relid l).2.1.enabled = x.enabled := by
  rcases x.registerTable_cases c relid l with ⟨e, c', heq⟩ |
    ⟨r, t, below, g', ids', c', -, -, -, -, -, -, -, -, -, heq⟩
  · rw [heq]
  · rw [heq]

/-- An index that is registered is the one built, and comes alone. -/
theorem Reflects.registerIndex_ok {spec : IndexSpec} (h : x.Reflects v)
    (hok : (x.registerIndex c relid spec).1 = .ok oid) :
    ∃ r i, Catalog.relation c relid = .ok r ∧ HypotheticalIndex.build oid r spec = .ok i ∧
      i.oid = oid ∧ x.AddsIndex (x.registerIndex c relid spec).2.1 i := by
  obtain ⟨w, hstep, hw⟩ := h.registerIndex c relid spec
  have hanswer : (x.perform (.registerIndex c relid spec)).1 = .registered (.ok oid) :=
    congrArg AdminAnswer.registered hok
  rw [hanswer] at hstep
  cases hstep with
  | indexRegistered hr hbuild hfresh =>
    exact ⟨_, _, hr, hbuild, rfl, h.addsIndex hw hfresh (x.registerIndex_enabled c relid spec)⟩

/-- A tree that is registered is that of the layout, and comes alone. -/
theorem Reflects.registerTable_ok {l : Layout} (h : x.Reflects v)
    (hfaithful : (AdminCall.registerTable c relid l).Faithful)
    (hunmixed : (x.registerTable c relid l).2.1.Unmixed)
    (hok : (x.registerTable c relid l).1 = .ok oid) :
    ∃ r t, Catalog.relation c relid = .ok r ∧ l.IsTree r t ∧ t.oid = oid ∧
      x.AddsTree (x.registerTable c relid l).2.1 relid t := by
  obtain ⟨w, hstep, hw⟩ := h.registerTable c relid l hfaithful hunmixed
  have hanswer : (x.perform (.registerTable c relid l)).1 = .registered (.ok oid) :=
    congrArg AdminAnswer.registered hok
  rw [hanswer] at hstep
  cases hstep with
  | tableRegistered hr hvalid hfree htree hfresh =>
    have hrelid := (htree.linked.linkedAt _ (PartitionTree.self_mem_subtrees _)).relid.trans
      (hfaithful _ hr)
    exact ⟨_, _, hr, htree, rfl,
      h.addsTree hw hfresh hfree hrelid (x.registerTable_enabled c relid l)⟩

/-- **Registration is all or nothing.** Whatever the catalog answers, a failure
leaves any extension as it was. Where no identifier issued has been that of a
shadowed relation, and the call leaves it so, a success adds the one index that was
built, or the one tree of the layout, and changes nothing else. -/
theorem all_or_nothing :
    (∀ (x : Extension) (c : σ) (relid : Oid) (e : Error),
      (∀ spec, (x.registerIndex c relid spec).1 = .error e →
        (x.registerIndex c relid spec).2.1 = x) ∧
      ∀ l, (x.registerTable c relid l).1 = .error e → (x.registerTable c relid l).2.1 = x) ∧
    ∀ x : Extension, ReachedWithin σ Unmixed x → ∀ (c : σ) (relid oid : Oid),
      (∀ r, Catalog.relation c relid = .ok r → r.oid = relid) →
        (∀ spec, (x.registerIndex c relid spec).1 = .ok oid →
          ∃ r i, Catalog.relation c relid = .ok r ∧ HypotheticalIndex.build oid r spec = .ok i ∧
            i.oid = oid ∧ x.AddsIndex (x.registerIndex c relid spec).2.1 i) ∧
        ∀ l, (x.registerTable c relid l).1 = .ok oid → (x.registerTable c relid l).2.1.Unmixed →
          ∃ r t, Catalog.relation c relid = .ok r ∧ l.IsTree r t ∧ t.oid = oid ∧
            x.AddsTree (x.registerTable c relid l).2.1 relid t := by
  refine ⟨fun x c relid e => ⟨fun spec => registerIndex_error, fun l => registerTable_error⟩, ?_⟩
  rintro x ⟨log, hrun⟩ c relid oid hfaithful
  obtain ⟨v, -, hreflects⟩ := hrun.reflects
  exact ⟨fun spec hok => hreflects.registerIndex_ok hok,
    fun l hok hunmixed => hreflects.registerTable_ok hfaithful hunmixed hok⟩

/-- Two partitions of `orders` by its column. -/
def ordersLayout : Layout :=
  ((Layout.blank .range ["id"]).add (.ofRange "low" .minValue (.value (.int 0)))).add
    (.ofRange "high" (.value (.int 0)) .maxValue)

theorem all_or_nothing_orders :
    (∃ t, t.oid = ⟨16401⟩ ∧ ordersIndexed.AddsTree ordersShadowed orders.oid t) ∧
      (ordersShadowed.perform shadowOrders).2 = ordersShadowed := by
  have hreached : ReachedWithin MemoryCatalog Unmixed ordersIndexed :=
    .perform indexOrders (.fresh true) indexOrders.faithful_memory (by decide +kernel)
  constructor
  · obtain ⟨-, hok⟩ := all_or_nothing.2 _ hreached ordersCatalog orders.oid ⟨16401⟩
      fun _ => MemoryCatalog.oid_of_relation
    obtain ⟨r, t, -, -, hoid, hadds⟩ := hok ordersLayout rfl (by decide +kernel)
    exact ⟨t, hoid, hadds⟩
  · -- the table is shadowed already
    exact (all_or_nothing.1 ordersShadowed ordersCatalog orders.oid
      (.registry (.alreadyShadowed "orders"))).2 ordersLayout rfl

/-- A catalog with a table `lines` that goes by the identifier of the root over
`orders`. -/
def linesCatalog : MemoryCatalog :=
  .holding ⟨16410⟩ [orders, { orders with oid := ⟨16400⟩, name := "lines" }]

/-- The extension with `orders` shadowed, under identifiers from 16400 on. -/
def ordersRooted : Extension := ((fresh true).perform shadowOrders).2

theorem reached_ordersRooted : ReachedWithin MemoryCatalog (fun _ => True) ordersRooted :=
  (ReachedWithin.fresh true).performAll [shadowOrders]

/-- The same, with `lines` shadowed too. -/
def linesRooted : Extension := (ordersRooted.registerTable linesCatalog ⟨16400⟩ ordersLayout).2.1

/-- **A tree over a relation that goes by the identifier of a root hides the tree
of that root**: the new tree is listed in its place. -/
theorem hides_over_root :
    Run Unmixed [(shadowOrders, .registered (.ok ⟨16400⟩))] ordersRooted ∧
      (∀ r, Catalog.relation linesCatalog ⟨16400⟩ = .ok r → r.oid = ⟨16400⟩) ∧
      (ordersRooted.registerTable linesCatalog ⟨16400⟩ ordersLayout).1 = .ok ⟨16410⟩ ∧
      ordersRooted.listTables.map (fun n => n.oid.word) = [16400, 16401, 16402] ∧
      linesRooted.listTables.map (fun n => n.oid.word) =
        [16410, 16411, 16412, 16410, 16411, 16412] ∧
      ∀ t, ¬ ordersRooted.AddsTree linesRooted ⟨16400⟩ t := by
  have hbefore : ordersRooted.listTables.map (fun n => n.oid.word) = [16400, 16401, 16402] := by
    decide +kernel
  have hafter : linesRooted.listTables.map (fun n => n.oid.word) =
      [16410, 16411, 16412, 16410, 16411, 16412] := by
    decide +kernel
  refine ⟨run_shadowOrders, fun _ => MemoryCatalog.oid_of_relation, rfl, hbefore, hafter,
    fun t hadds => ?_⟩
  · have hlist := congrArg (List.map fun n => n.oid.word) hadds.listTables
    rw [hafter, List.map_append, hbefore] at hlist
    exact absurd (List.cons.inj hlist).1 (by decide)

end Extension

end WhatIf
