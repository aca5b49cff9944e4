import WhatIf.Proofs.Session.Outcome
import WhatIf.Proofs.Shadow.Atomic
/-!
# Session — hypothetical objects are not seen outside their window

A statement is run twice, in a session with the extension on top of the host
and in one without. Where the extension is silent, the two runs go step by
step alike: they plan alike, open the same relations and indexes, and name
the indexes of the plan alike, since all of them are physical. Only the window
of the context may differ on the way, and the end of the statement closes it.
An empty registry is silent as long as hypothetical objects and shadowed relations
have been kept apart; where they have not, it may shadow a relation all the same
(`empty_seen_parcels`).
-/

namespace WhatIf

/-! ## The text of a plan -/

/-- The text of a plan asks only for the names of its indexes. -/
theorem Shown.ofPath_congr {m m' : MetadataPoints} {ctx ctx' : Context} {p : Plan} (path : Path) :
    (∀ oid ∈ path.indexes, m.indexName ctx oid = m'.indexName ctx' oid) →
      Shown.ofPath m ctx p path = Shown.ofPath m' ctx' p path := by
  induction path using Path.induct with
  | seqScan h => exact fun _ => rfl
  | dummy h => exact fun _ => rfl
  | indexScan h i rs =>
    intro hnames
    rw [Shown.ofPath, Shown.ofPath, Shown.indexName, Shown.indexName,
      hnames i (List.mem_singleton.2 rfl)]
  | bitmapScan h i rs =>
    intro hnames
    rw [Shown.ofPath, Shown.ofPath, Shown.indexName, Shown.indexName,
      hnames i (List.mem_singleton.2 rfl)]
  | append h ps ih =>
    intro hnames
    have hall : Shown.ofPaths m ctx p ps = Shown.ofPaths m' ctx' p ps := by
      rw [Path.indexes] at hnames
      induction ps with
      | nil => rfl
      | cons q ps ihps =>
        rw [Path.indexesOfAll] at hnames
        rw [Shown.ofPaths, Shown.ofPaths,
          ih q List.mem_cons_self fun oid hoid => hnames oid (List.mem_append_left _ hoid),
          ihps (fun q' hq' => ih q' (List.mem_cons_of_mem _ hq')) fun oid hoid =>
            hnames oid (List.mem_append_right _ hoid)]
    rw [Shown.ofPath, Shown.ofPath, hall]

theorem Plan.render_congr {m m' : MetadataPoints} {ctx ctx' : Context} {p : Plan}
    (hnames : ∀ oid ∈ p.path.indexes, m.indexName ctx oid = m'.indexName ctx' oid)
    (format : ExplainFormat) (costs : Bool) :
    p.render m ctx format costs = p.render m' ctx' format costs := by
  rw [Plan.render, Plan.render, Shown.ofPath_congr p.path hnames]

/-! ## What hides the extension -/

variable {ι σ : Type} [Catalog σ]

/-- A registry that keeps an inventory and is empty holds nothing. -/
theorem Registry.Holds.vacant {g : Registry} {v : Inventory} (h : g.Holds v)
    (hempty : g.isEmpty = true) : g.Vacant where
  isEmpty := hempty
  not_shadowed relid := by
    by_contra hshadowed
    obtain ⟨t, ht, -⟩ := h.isShadowed_iff.1 (by simpa using hshadowed)
    obtain ⟨k, hk⟩ := (h.nodes.live_iff t.node).2 (Holds.node_mem_nodes ht t.self_mem_subtrees)
    rw [SimulationArena.isEmpty_iff.1 (Bool.and_eq_true_iff.1 hempty).2 k] at hk
    cases hk

namespace Extension

/-- **What hides the extension from a statement**: that the statement is
anything but an `EXPLAIN` that only plans, that the extension is disabled, or
that its registry holds nothing, as after a reset or once every object
registered in a run of calls was dropped. -/
inductive Hidden (x : Extension) (s : Statement) : Prop
  | executed (h : ∀ e, s = .utility (.explain e) →
      ∃ o ∈ e.options, Text.sameName o.name "analyze" = true)
  | disabled (h : x.enabled = false)
  | vacant (h : x.registry.Vacant)
  | reset {y : Extension} (h : x = y.resetAll)
  | emptied {τ : Type} [Catalog τ] (h : ReachedWithin τ Unmixed x)
      (hempty : x.registry.isEmpty = true)

/-- That no hypothetical index goes by the identifier of an index the catalog
lists. -/
def IndexesApart (x : Extension) (c : σ) : Prop :=
  ∀ relid is, Catalog.indexes c relid = .ok is → ∀ i ∈ is, x.registry.index? i.oid = none

variable {x : Extension} {c : σ} {ctx ctx' : Context} {task : Task} {j : Journal} {s : Statement}

/-- A reset leaves nothing. -/
theorem vacant_resetAll (y : Extension) : y.resetAll.registry.Vacant :=
  Registry.holds_reset.vacant (Bool.and_eq_true_iff.2
    ⟨SimulationArena.isEmpty_iff.2 fun _ => SimulationArena.get?_reset,
      SimulationArena.isEmpty_iff.2 fun _ => SimulationArena.get?_reset⟩)

/-- A statement the extension is hidden from runs in a window that shows
nothing. -/
theorem Hidden.silent (h : x.Hidden s) (ctx : Context) :
    x.Silent (x.opening ctx (.ofStatement s)) := by
  cases h with
  | executed h =>
    refine Or.inl ?_
    have hplan : (PlannedStatement.ofStatement s).isPlanOnly = false := by
      rcases s with q | e | ⟨name, value⟩
      · rfl
      · obtain ⟨o, ho, hname⟩ := h e rfl
        show (e.option? "analyze").isNone = false
        rw [Explain.option?, Option.isNone_eq_false_iff, List.find?_isSome]
        exact ⟨o, ho, hname⟩
      · rfl
    show ((PlannedStatement.ofStatement s).isPlanOnly && x.enabled) = false
    rw [hplan, Bool.false_and]
  | disabled h =>
    refine Or.inl ?_
    show ((PlannedStatement.ofStatement s).isPlanOnly && x.enabled) = false
    rw [h, Bool.and_false]
  | vacant h => exact Or.inr h
  | reset h => exact Or.inr (h ▸ vacant_resetAll _)
  | emptied h hempty =>
    obtain ⟨log, hrun⟩ := h
    obtain ⟨v, -, hreflects⟩ := hrun.reflects
    exact Or.inr (hreflects.holds.vacant hempty)

/-! ## One statement, twice -/

/-- **An `EXPLAIN` over a silent extension** goes as over the host alone. -/
theorem Silent.runExplain (h : x.Silent ctx) (hapart : x.IndexesApart c) (e : Explain) :
    ∃ answer task' j',
      PhysicalHost.runExplain c (x.metadataOver c) (x.planningOver c) e (⟨ctx, task⟩, j) =
        (answer, ⟨ctx, task'⟩, j') ∧
      PhysicalHost.runExplain c (PhysicalHost.metadata c)
        (PhysicalHost.planning c (PhysicalHost.metadata c)) e (⟨ctx', task⟩, j) =
        (answer, ⟨ctx', task'⟩, j') := by
  rw [PhysicalHost.runExplain_apply, PhysicalHost.runExplain_apply, @plan_eq σ _ x c ctx ctx' h]
  rcases e.choice with error | choice
  · exact ⟨.error error, task, j, rfl, rfl⟩
  dsimp only
  have hplanned := @PhysicalHost.plan_yields σ _ c ctx' task.settings e.query j
  generalize e.query.plan c (PhysicalHost.metadata c) (PhysicalHost.planning c
    (PhysicalHost.metadata c)) ctx' task.settings ((), j) = planned at hplanned ⊢
  rcases planned with ⟨error | plan, _, j₁⟩
  · exact ⟨.error error, task, j₁, rfl, rfl⟩
  dsimp only
  -- the indexes of the plan are physical, so both runs name them alike
  have hnames : ∀ oid ∈ plan.path.indexes, (x.metadataOver c).indexName ctx oid =
      (PhysicalHost.metadata c).indexName ctx' oid := by
    intro oid hoid
    obtain ⟨relid, is, his, i, hi, rfl⟩ := PhysicalHost.listed_of_grounded hplanned hoid
    exact indexName_eq (hapart relid is his i hi)
  rcases PhysicalHost.opened c choice.analyze plan task.trace with error | trace
  · exact ⟨.error error, task, j₁, rfl, rfl⟩
  dsimp only
  rw [plan.render_congr hnames]
  generalize plan.render (PhysicalHost.metadata c) ctx' choice.format choice.costs ((), j₁) = shown
  rcases shown with ⟨error | text, _, j₂⟩
  · exact ⟨.error error, _, j₂, rfl, rfl⟩
  · exact ⟨.ok (), _, j₂, rfl, rfl⟩

/-- **A statement the extension is hidden from** runs as over the host alone,
but for its window. -/
theorem Hidden.runStatement (h : x.Hidden s) (hapart : x.IndexesApart c) (id : Nat) :
    ∃ answer ctx task' j',
      Session.runStatement c (x.pointsOver c) (.ofStatement s) (⟨.start id, task⟩, j) =
        (answer, ⟨ctx, task'⟩, j') ∧
      Session.runStatement c ((PhysicalHost.host c).behind []) (.ofStatement s)
        (⟨.start id, task⟩, j) = (answer, ⟨.start id, task'⟩, j') := by
  rw [PhysicalHost.behind_nil]
  rcases s with q | e | ⟨name, value⟩
  · -- a `SELECT` opens no window
    have hsilent : x.Silent (.start id) := Or.inl rfl
    show ∃ answer ctx task' j', Session.runSelect c (x.pointsOver c) (some q) _ = _ ∧
      Session.runSelect c _ (some q) _ = _
    rw [Session.runSelect_apply, Session.runSelect_apply, pointsOver_metadata, pointsOver_planning,
      @Silent.plan_eq σ _ x c (.start id) (.start id) hsilent]
    dsimp only
    generalize q.plan c (PhysicalHost.metadata c) (PhysicalHost.planning c
      (PhysicalHost.metadata c)) (.start id) task.settings ((), j) = planned
    rcases planned with ⟨error | plan, _, j₁⟩
    · exact ⟨.error error, .start id, task, j₁, rfl, rfl⟩
    dsimp only
    rcases plan.execute c with error | trace
    · exact ⟨.error error, .start id, task, j₁, rfl, rfl⟩
    · exact ⟨.ok (), .start id, _, j₁, rfl, rfl⟩
  · obtain ⟨answer, task', j', hover, hhost⟩ :=
      @Silent.runExplain σ _ x c _ (.start id) task j (h.silent (.start id)) hapart e
    exact ⟨answer, _, task', j', (utility_explain rfl).trans hover, hhost⟩
  · show ∃ answer ctx task' j', (x.pointsOver c).statement.utility _ _ = _ ∧
      PhysicalHost.runSet name value _ = _
    rw [utility_set rfl]
    unfold PhysicalHost.runSet
    rw [Edit.bind_apply, Edit.bind_apply]
    dsimp only [Edit.value]
    rw [Edit.bind_apply, Edit.bind_apply]
    dsimp only [Edit.ofExcept]
    rcases task.settings.set name value with error | settings
    · exact ⟨.error error, _, task, j, rfl, rfl⟩
    · exact ⟨.ok (), _, { task with settings }, j, rfl, rfl⟩

end Extension

namespace Session

/-- **Hypothetical objects are not seen outside their window.** A session with
the extension installed executes a statement that it is hidden from as the
session without it does: the answer, what is noted, and everything left but
the installation are the same. -/
theorem execute_install_eq {c : σ} {x : Extension} {resolve : ι → Interceptor} {item : ι}
    {s : Session ι} (hitem : resolve item = x.interceptor) (halone : s.stack.items = [])
    (hapart : x.IndexesApart c) {statement : Statement} (hhidden : x.Hidden statement)
    (j : Journal) :
    ∃ answer s' j', s.execute c resolve statement j = (answer, s', j') ∧
      (s.install item).2.execute c resolve statement j =
        (answer, { s' with stack := (s.install item).2.stack }, j') := by
  have hpoints : s.points c resolve = (PhysicalHost.host c).behind [] := by
    rw [points, halone]
    rfl
  have hruns : (s.install item).2.RunsOver resolve x := ⟨item, congrArg (item :: ·) halone, hitem⟩
  have hinstalled : (s.install item).2.points c resolve = x.pointsOver c := hruns.points
  obtain ⟨answer, ctx, task', j', hover, hhost⟩ :=
    @Extension.Hidden.runStatement σ _ x c (.ofStatement (.ofStatement statement) s.settings) j
      statement hhidden hapart (s.statements + 1)
  refine ⟨answer.map fun _ => task'.result, s.after (.ofStatement statement) answer task', j',
    execute_eq (hpoints ▸ hhost) (hpoints ▸ rfl), ?_⟩
  exact execute_eq (hinstalled ▸ hover) (hinstalled ▸ Extension.executorEnd_apply)

/-- The catalog of `orders` with an index of its own. -/
def ordersKeyed : MemoryCatalog :=
  { Extension.ordersCatalog with
    indexes := [⟨⟨16390⟩, "orders_id", Extension.orders.oid, .btree, [⟨1⟩], true, 2, 100.0, 0⟩] }

theorem execute_install_orders :
    ∃ answer s' j',
      (withSettings .standard : Session Unit).execute ordersKeyed
        (fun _ => Extension.ordersIndexed.interceptor) (.explainAnalyze (.select "orders")) [] =
          (answer, s', j') ∧
      ((withSettings .standard : Session Unit).install ()).2.execute ordersKeyed
        (fun _ => Extension.ordersIndexed.interceptor) (.explainAnalyze (.select "orders")) [] =
          (answer, { s' with stack := ((withSettings .standard : Session Unit).install ()).2.stack },
            j') := by
  have hapart : Extension.ordersIndexed.IndexesApart ordersKeyed := by
    intro relid is his i hi
    have hlist : ordersKeyed.indexesOn relid = .ok is := his
    unfold MemoryCatalog.indexesOn at hlist
    split at hlist
    · cases hlist
    · obtain rfl := Except.ok.inj hlist
      rw [List.mem_singleton.1 (List.mem_of_mem_filter hi)]
      decide +kernel
  refine @execute_install_eq Unit MemoryCatalog _ ordersKeyed Extension.ordersIndexed _ () _
    rfl rfl hapart _ (.executed ?_) []
  rintro e ⟨⟩
  exact ⟨_, List.mem_singleton_self _, by decide +kernel⟩

/-! ## Where an empty registry is seen -/

/-- The catalog of `orders`, of `lines` under the identifier of its first partition,
and of `parcels`. -/
def parcelsListed (next : Oid) : MemoryCatalog :=
  .holding next [Extension.orders, { Extension.orders with oid := ⟨16401⟩, name := "lines" },
    { Extension.orders with oid := ⟨16386⟩, name := "parcels" }]

/-- The extension in which `lines` has been shadowed, the tree over `orders` dropped,
`parcels` shadowed under the identifiers of the partitions that this has taken from
`lines`, and the tree over `lines` dropped. -/
def parcelsEmptied : Extension :=
  Extension.ordersRooted.performAll
    [.registerTable (parcelsListed ⟨16410⟩) ⟨16401⟩ Extension.ordersLayout,
      .dropTable Extension.orders.oid,
      .registerTable (parcelsListed ⟨16411⟩) ⟨16386⟩ Extension.ordersLayout,
      .dropTable ⟨16410⟩]

theorem reached_parcelsEmptied :
    Extension.ReachedWithin MemoryCatalog (fun _ => True) parcelsEmptied :=
  Extension.reached_ordersRooted.performAll _

/-- The text of an `EXPLAIN` of `parcels` without costs. -/
def explainParcels (s : Session Unit) : Option String :=
  (s.execute (parcelsListed ⟨16414⟩) (fun _ => parcelsEmptied.interceptor)
    (.explain (.select "parcels") [⟨"costs", some "off"⟩]) []).1.toOption.bind
      fun result => result.explain

/-- **An empty registry that is seen.** Dropping the tree over `lines` takes that over
`parcels` with it, whose root it named as a partition; but the relation stays
shadowed. -/
theorem empty_seen_parcels :
    Extension.ReachedWithin MemoryCatalog (fun _ => True) parcelsEmptied ∧
      parcelsEmptied.registry.isEmpty = true ∧ parcelsEmptied.ids.issued = [] ∧
      parcelsEmptied.IndexesApart (parcelsListed ⟨16414⟩) ∧
      explainParcels (withSettings .standard) = some "Seq Scan on parcels" ∧
      explainParcels ((withSettings .standard : Session Unit).install ()).2 =
        some "Append\n  ->  Seq Scan on parcels" := by
  have hapart : parcelsEmptied.IndexesApart (parcelsListed ⟨16414⟩) := by
    intro relid is his i hi
    have hlist : (parcelsListed ⟨16414⟩).indexesOn relid = .ok is := his
    unfold MemoryCatalog.indexesOn at hlist
    split at hlist
    · cases hlist
    · obtain rfl := Except.ok.inj hlist
      cases hi
  exact ⟨reached_parcelsEmptied, by decide +kernel, by decide +kernel, hapart, by decide +kernel,
    by decide +kernel⟩

end Session

end WhatIf
