import WhatIf.Proofs.Session.Mirrored
/-!
# Session — planning loses no row

A row that a query asks for goes down the tree that shadows its relation. None
of the partitions on its way is refuted by what the query asks, and the leaf
the row ends at is scanned by the plan of the query, whatever the settings
are. The tree is that of a registration in a run of calls, as long as none
drops it, and as long as each of them leaves hypothetical objects and shadowed
relations apart. Where they have been mixed up on the way, a row can be lost
(`loses_row_lines`).
-/

namespace WhatIf

variable {ι σ : Type} [Catalog σ]

/-- That a plan scans the partition of an identifier. -/
def Plan.Scans (plan : Plan) (oid : Oid) : Prop :=
  ∃ scan ∈ plan.path.scans, ∃ entry, plan.state.entry? scan.1 = some entry ∧
    entry.partition = some oid

instance (plan : Plan) (oid : Oid) : Decidable (plan.Scans oid) :=
  decidable_of_iff (∃ scan ∈ plan.path.scans, plan.partition? scan.1 = some oid) <|
    exists_congr fun _ => and_congr_right fun _ => Option.bind_eq_some_iff

/-- A plan that unfolds a tree scans the leaves that are kept. -/
theorem Plan.Unfolds.scans_of_mem_kept {refuted : PartitionTree → Bool} {t u : PartitionTree}
    {plan : Plan} (h : plan.Unfolds refuted t) (hu : u ∈ t.kept refuted)
    (hroot : u.node.isRoot = false) : plan.Scans u.oid := by
  have hmem : u.partition? ∈ plan.path.scans.map fun scan => plan.partition? scan.1 := by
    rw [h.map_scans]
    exact List.mem_map_of_mem hu
  obtain ⟨scan, hscan, heq⟩ := List.mem_map.1 hmem
  rw [PartitionTree.partition?_of_not_isRoot hroot] at heq
  obtain ⟨entry, hentry, hpartition⟩ := Option.bind_eq_some_iff.1 heq
  exact ⟨scan, hscan, entry, hentry, hpartition⟩

namespace Session

variable {x : Extension} {r : Relation} {restrictions : List Restriction}

/-- **Planning loses no row.** After a run of calls in which a relation was
shadowed and its tree was not dropped, take a row of the relation that passes
some restrictions, and let it go down the tree. No partition on its way is
refuted; and if the way ends at a leaf, an `EXPLAIN` that only plans a query with
these restrictions succeeds, and its plan scans the leaf. -/
theorem scans_of_walk
    {before after : List (AdminCall σ × AdminAnswer)} {c₀ : σ} {relid root : Oid} {l : Layout}
    (hrun : Extension.Run Extension.Unmixed
      (before ++ (.registerTable c₀ relid l, .registered (.ok root)) :: after) x)
    (hlookup : Catalog.relation c₀ relid = .ok r)
    (hspares : ∀ entry ∈ after, entry.1.Spares root r.oid)
    (hexact : r.IsExact) (row : r.Row)
    (hrestrictions : ∀ q ∈ restrictions, q.test.Passed (row.value q.attnum)) :
    ∃ top, x.registry.node? root = some top ∧
      (∀ n, x.registry.Walk row.value top n →
        Constraint.refutedBy restrictions (x.registry.boundConstraints n.oid) = false) ∧
      ∀ n, x.registry.Walk row.value top n → n.key = none →
        ∀ (c : σ) (e : Explain) (s : Session ι) (resolve : ι → Interceptor) (j : Journal),
          x.enabled = true → e.PlansOnly c r restrictions → s.RunsOver resolve x →
            ∃ result s' j' plan, s.execute c resolve (.utility (.explain e)) j =
              (.ok result, s', j') ∧ result.plan = some plan ∧ plan.Scans n.oid := by
  obtain ⟨v, hcalls, hreflects⟩ := hrun.reflects
  have h := hreflects.holds
  obtain ⟨t, ht, rfl, htree, hvalid⟩ := hcalls.exists_tree hlookup hspares
  have hlinked := htree.linked
  have hopen : ∀ n, x.registry.Walk row.value t.node n →
      Constraint.refutedBy restrictions (x.registry.boundConstraints n.oid) = false :=
    fun n => h.refutedBy_of_walk ht hlinked hexact (htree.suitedAt hvalid) hrestrictions
  refine ⟨t.node, h.node?_subtree ht t.self_mem_subtrees, hopen, ?_⟩
  intro n hwalk hleaf c e s resolve j henabled he hs
  obtain ⟨u, hu, rfl⟩ := h.subtree_of_walk ht hlinked hwalk
  have hrelid : t.node.relid = r.oid := (hlinked.linkedAt t t.self_mem_subtrees).relid
  obtain ⟨result, s', j', plan, hexecute, hplan, hunfolds⟩ :=
    execute_unfolds hs henabled h ht hlinked hrelid he j
  have hkey : u.node.isPartitioned = false := by
    rw [Node.isPartitioned, hleaf]
    rfl
  -- what is above the leaf is on the way, so nothing refutes it
  have hopen' : ∀ w ∈ t.subtrees, u ∈ w.subtrees →
      x.registry.refutes s.settings restrictions w = false := fun w hw huw =>
    Bool.and_eq_false_imp.2 fun _ =>
      hopen w.node (h.walk_of_mem_subtrees ht hlinked hwalk u hu rfl w hw huw)
  have hkept := PartitionTree.mem_kept (fun _ => hlinked.parts_eq_nil) hu hkey hopen'
  exact ⟨result, s', j', plan, hexecute, hplan,
    hunfolds.scans_of_mem_kept hkept (hlinked.isRoot_of_leaf hu hkey)⟩

/-- The row of `orders` whose `id` is 5. -/
def ordersFive : Extension.orders.Row where
  value a := if a = ⟨1⟩ then .int 5 else .null
  typed := by decide
  absent a ha := if_neg fun heq => ha _ (List.mem_singleton_self _) heq.symm

theorem scans_high_of_ordersFive :
    ∃ result s' j' plan, ((withSettings .standard : Session Unit).install ()).2.execute
      Extension.ordersCatalog (fun _ => ordersSplit.interceptor)
      (.explain ((Query.select "orders").addQual "id" (.compare .eq (.int 5))) []) [] =
        (.ok result, s', j') ∧ result.plan = some plan ∧ plan.Scans ⟨16402⟩ := by
  have hpassed : ∀ q ∈ [(⟨⟨1⟩, "id", .compare .eq (.int 5)⟩ : Restriction)],
      q.test.Passed (ordersFive.value q.attnum) := by
    intro q hq
    rw [List.mem_singleton.1 hq]
    exact ⟨by decide, by decide⟩
  obtain ⟨top, htop, -, hscans⟩ :=
    @scans_of_walk Unit MemoryCatalog _ ordersSplit _ _ [] [] _ _ _ _
      Extension.run_shadowOrders rfl (by simp) (by decide) ordersFive hpassed
  -- the row is routed to `high`, the second partition of the root
  have hroot : (ordersSplit.registry.node? ⟨16400⟩).map (fun n =>
      (n.key.map fun k => k.attnums, (ordersSplit.registry.descOf n).route? [.int 5],
        (ordersSplit.registry.descOf n).oids)) =
        some (some [⟨1⟩], some 1, [⟨16401⟩, ⟨16402⟩]) := by decide +kernel
  have hhigh : (ordersSplit.registry.node? ⟨16402⟩).map (fun n => (n.oid, n.isPartitioned)) =
      some (⟨16402⟩, false) := by decide +kernel
  rw [htop] at hroot
  obtain ⟨hattnums, hroute, hoids⟩ : top.key.map (fun k => k.attnums) = some [⟨1⟩] ∧
      (ordersSplit.registry.descOf top).route? [.int 5] = some 1 ∧
        (ordersSplit.registry.descOf top).oids = [⟨16401⟩, ⟨16402⟩] := by simpa using hroot
  obtain ⟨key, hkey, hattnums⟩ := Option.map_eq_some_iff.1 hattnums
  obtain ⟨n, hn, heq⟩ := Option.map_eq_some_iff.1 hhigh
  obtain ⟨hoid, hleaf⟩ := Prod.mk.inj heq
  have hwalk : ordersSplit.registry.Walk ordersFive.value top n := by
    refine .step .start hkey (i := 1) (by rw [hattnums]; exact hroute) ?_ hn
    rw [hoids]
    rfl
  rw [← hoid]
  exact hscans n hwalk (Option.not_isSome_iff_eq_none.1 (Bool.eq_false_iff.1 hleaf)) _ _ _ _ _ rfl
    ⟨⟨rfl, rfl, _, rfl⟩, rfl, rfl, rfl, _, rfl⟩ ⟨(), rfl, rfl⟩

/-! ## Where a row is lost -/

/-- A table with a column `weight` besides its `id`. -/
def weighed (oid : Oid) (name : String) : Relation :=
  { Extension.orders with
    oid, name
    columns := [⟨⟨1⟩, "id", .int4, true, none⟩, ⟨⟨2⟩, "weight", .int4, true, none⟩] }

/-- The row of `lines` whose `id` is -5 and whose `weight` is 100. -/
def heavyRow : (weighed ⟨16400⟩ "lines").Row where
  value a := if a = ⟨1⟩ then .int (-5) else if a = ⟨2⟩ then .int 100 else .null
  typed := by decide
  absent a ha := by
    have hid : a ≠ ⟨1⟩ := fun heq => ha _ (List.mem_cons_self ..) heq.symm
    have hweight : a ≠ ⟨2⟩ := fun heq =>
      ha _ (List.mem_cons_of_mem _ (List.mem_cons_self ..)) heq.symm
    rw [if_neg hid, if_neg hweight]

/-- The catalog of such tables, `lines` under the identifier of the root over
`orders`. -/
def weighedCatalog (next : Oid) : MemoryCatalog :=
  .holding next [Extension.orders, weighed ⟨16400⟩ "lines", weighed ⟨16386⟩ "parcels"]

/-- Two partitions by weight. -/
def weighedLayout : Layout :=
  ((Layout.blank .range ["weight"]).add (.ofRange "light" .minValue (.value (.int 0)))).add
    (.ofRange "heavy" (.value (.int 0)) .maxValue)

/-- The extension in which `lines` has been shadowed by `id`, the tree over `orders`
dropped, and `parcels` shadowed by `weight` under the identifiers of the partitions
that this has taken from `lines`. -/
def weighedMixed : Extension :=
  Extension.ordersRooted.performAll
    [.registerTable (weighedCatalog ⟨16410⟩) ⟨16400⟩ Extension.ordersLayout,
      .dropTable Extension.orders.oid,
      .registerTable (weighedCatalog ⟨16411⟩) ⟨16386⟩ weighedLayout]

theorem reached_weighedMixed :
    Extension.ReachedWithin MemoryCatalog (fun _ => True) weighedMixed :=
  Extension.reached_ordersRooted.performAll _

/-- The restriction of a query for the rows of weight 100. -/
def isHeavy : Restriction := ⟨⟨2⟩, "weight", .compare .eq (.int 100)⟩

/-- What an `EXPLAIN` of this query of `lines` answers in a new session, and what it
leaves. -/
def explainHeavy : Except Error StatementResult × Session Unit × Journal :=
  ((withSettings .standard : Session Unit).install ()).2.execute (weighedCatalog ⟨16414⟩)
    (fun _ => weighedMixed.interceptor)
    (.explain ((Query.select "lines").addQual "weight" (.compare .eq (.int 100))) []) []

/-- **A tree that has lost its partitions loses a row**, though nothing is mixed any
more when the query is planned. The root over `lines` leads to a partition of
`parcels`, whose bound on the weight is read as one on `id` on the way down, and as
one on the weight when it is to be refuted. -/
theorem loses_row_lines :
    Extension.ReachedWithin MemoryCatalog (fun _ => True) weighedMixed ∧
      (∀ oid, weighedMixed.ids.isIssued oid = true →
        Catalog.inUse (weighedCatalog ⟨16414⟩) oid = false) ∧
      Extension.ordersLayout.validate (weighed ⟨16400⟩ "lines") = .ok () ∧
      isHeavy.test.Passed (heavyRow.value isHeavy.attnum) ∧
      ∃ top n, weighedMixed.registry.node? ⟨16400⟩ = some top ∧
        weighedMixed.registry.Walk heavyRow.value top n ∧ n.key = none ∧
        Constraint.refutedBy [isHeavy] (weighedMixed.registry.boundConstraints n.oid) = true ∧
        ∃ result s' j' plan, explainHeavy = (.ok result, s', j') ∧ result.plan = some plan ∧
          ¬ plan.Scans n.oid := by
  have hapart : ∀ oid ∈ weighedMixed.ids.issued,
      Catalog.inUse (weighedCatalog ⟨16414⟩) oid = false := by decide +kernel
  refine ⟨reached_weighedMixed, fun oid hoid => hapart oid (ShadowIds.isIssued_iff.1 hoid),
    rfl, ⟨by decide, by decide⟩, ?_⟩
  obtain ⟨top, htop, key, hkey, hattnums, hroute, hoids⟩ :
      ∃ top, weighedMixed.registry.node? ⟨16400⟩ = some top ∧ ∃ key, top.key = some key ∧
        key.attnums = [⟨1⟩] ∧ (weighedMixed.registry.descOf top).route? [.int (-5)] = some 0 ∧
          (weighedMixed.registry.descOf top).oids = [⟨16412⟩] :=
    ⟨(weighedMixed.registry.node? ⟨16400⟩).get (by decide +kernel), (Option.some_get _).symm,
      _, (Option.some_get (by decide +kernel)).symm, by decide +kernel, by decide +kernel,
      by decide +kernel⟩
  obtain ⟨n, hn, hleaf, hoid⟩ : ∃ n, weighedMixed.registry.node? ⟨16412⟩ = some n ∧
      n.key.isNone ∧ n.oid = ⟨16412⟩ :=
    ⟨(weighedMixed.registry.node? ⟨16412⟩).get (by decide +kernel), (Option.some_get _).symm,
      by decide +kernel, by decide +kernel⟩
  have hwalk : weighedMixed.registry.Walk heavyRow.value top n := by
    refine .step .start hkey (i := 0) (by rw [hattnums]; exact hroute) ?_ hn
    rw [hoids]
    rfl
  refine ⟨top, n, htop, hwalk, Option.isNone_iff_eq_none.1 hleaf, by rw [hoid]; decide +kernel, ?_⟩
  obtain ⟨result, s', j', plan, hexplain, hplan, hscans⟩ :
      ∃ result s' j' plan, explainHeavy = (.ok result, s', j') ∧ result.plan = some plan ∧
        decide (plan.Scans ⟨16412⟩) = false := exists_plan (by decide +kernel)
  exact ⟨result, s', j', plan, hexplain, hplan, hoid ▸ of_decide_eq_false hscans⟩
end Session

end WhatIf
