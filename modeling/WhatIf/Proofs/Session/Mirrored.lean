import WhatIf.Proofs.Session.Outcome
import WhatIf.Proofs.Shadow.Failures
import WhatIf.Proofs.Shadow.Lifetime
import WhatIf.Proofs.Shadow.Pruning
import WhatIf.Proofs.Shadow.Walks
/-!
# Session — the plan of a shadowed relation

An `EXPLAIN` that only plans a query of a shadowed relation cannot fail, and its
plan is the tree over again: an entry for each partition, a link for each pair,
the partitions without rows noted as pruned, and the leaves with rows scanned
in their order (`Plan.Mirrors`). This is so while hypothetical objects and shadowed
relations have been kept apart all along; that they are apart when the query is
planned is not enough (`lines_unmirrored`).
-/

namespace WhatIf

variable {ι σ : Type} [Catalog σ]

/-- **An `EXPLAIN` that only plans**, of a query for the rows of a relation and
its partitions that satisfy some restrictions. -/
structure Explain.PlansOnly (e : Explain) (c : σ) (r : Relation) (restrictions : List Restriction) :
    Prop where
  serves : Catalog.Serves c e.query.relation r
  whole : e.query.only = false
  resolved : Query.resolve r e.query.quals = .ok restrictions
  planOnly : e.option? "analyze" = none
  readable : ∃ choice, e.choice = .ok choice

/-! ## What the plan is -/

/-- The partition that an entry of a plan stands for. -/
def Plan.partition? (plan : Plan) (i : RangeIndex) : Option Oid :=
  (plan.state.entry? i).bind fun e => e.partition

/-- **A plan that mirrors a tree**, of which some partitions are known to have no
matching rows. It has one entry for the relation and one for each partition at
every level, and a link for each node and each of its partitions, those of one
node in order. Noted as pruned are the partitions without rows, each once. The
path scans the leaves with rows, each once and from left to right, and reads
nothing exactly if there are none; this is so exactly if every partition of
the root is without rows. -/
structure Plan.Mirrors (t : PartitionTree) (dummy : PartitionTree → Bool) (plan : Plan) : Prop where
  entries : (plan.state.entries.map fun e => (e.relid, e.partition)).Perm
    ((t.node.relid, none) :: t.partitions.map fun s => (t.node.relid, some s.oid))
  links : (plan.state.links.map fun l => (l.parentId, l.childId)).Perm
    (t.subtrees.flatMap fun s => s.parts.map fun c => (s.plannedAs, c.oid))
  ordered : ∀ s ∈ t.subtrees,
    ((plan.state.links.filter fun l => l.parentId == s.plannedAs).map fun l => l.childId) =
      s.parts.map PartitionTree.oid
  pruned : (plan.pruned.map plan.partition?).Perm
    ((t.partitions.filter dummy).map fun s => some s.oid)
  scans : (plan.path.scans.map fun scan => plan.partition? scan.1) =
    (t.survivors dummy).map fun u => some u.oid
  isDummy : plan.path.isDummy = true ↔ t.survivors dummy = []
  isDummy_iff_parts : plan.path.isDummy = true ↔ ∀ s ∈ t.parts, dummy s = true

section Holds

variable {g : Registry} {v : Inventory} {t s u : PartitionTree} {r : Relation} {plan : Plan}
variable {refuted : PartitionTree → Bool} {p : PlanState} {i : RangeIndex}

/-- What an entry stands for is read off the plan. -/
theorem PlanState.At.partition? (h : plan.state.At i u) : plan.partition? i = u.partition? := by
  obtain ⟨e, he, hstands⟩ := h
  rw [Plan.partition?, he, Option.bind_some, hstands.partition]

/-- Lists that stand for each other, element by element, are read alike. -/
theorem map_eq_of_forall₂ {α β γ : Type} {R : α → β → Prop} {f : α → γ} {g : β → γ} {as : List α}
    {bs : List β} (h : List.Forall₂ R as bs) (hR : ∀ a b, R a b → f a = g b) :
    as.map f = bs.map g := by
  induction h with
  | nil => rfl
  | cons hab _ ih => rw [List.map_cons, List.map_cons, hR _ _ hab, ih]

namespace Plan.Unfolds

/-- There is an entry for the relation, and one for each partition. -/
theorem map_entries_perm (hlinked : t.Linked r) (hplan : plan.Unfolds refuted t) :
    (plan.state.entries.map fun e => (e.relid, e.partition)).Perm
      ((t.node.relid, none) :: t.partitions.map fun s => (t.node.relid, some s.oid)) := by
  have hentries : (plan.state.entries.map fun e => (e.relid, e.partition)) =
      (t :: t.edges.map Prod.snd).map fun s => (s.node.relid, s.partition?) :=
    map_eq_of_forall₂ hplan.entries fun e s hs => by rw [hs.relid, hs.partition]
  rw [hentries, List.map_cons, PartitionTree.partition?_of_isRoot hlinked.isRoot_self]
  refine List.Perm.cons _ ((t.edges_snd_perm.map _).trans (List.Perm.of_eq ?_))
  refine List.map_congr_left fun s hs => ?_
  have hrelid : s.node.relid = t.node.relid :=
    (hlinked.linkedAt s (PartitionTree.mem_subtrees_of_mem_partitions hs)).relid.trans
      (hlinked.linkedAt t t.self_mem_subtrees).relid.symm
  rw [hlinked.partition?_of_mem_partitions hs, hrelid]

/-- There is a link for each node and each of its partitions. -/
theorem map_links_perm (hlinked : t.Linked r) (hplan : plan.Unfolds refuted t) :
    (plan.state.links.map fun l => (l.parentId, l.childId)).Perm
      (t.subtrees.flatMap fun s => s.parts.map fun c => (s.plannedAs, c.oid)) := by
  rw [hplan.links]
  refine (t.edges_perm.map _).trans (List.Perm.of_eq ?_)
  rw [List.map_flatMap]
  refine List.flatMap_congr fun s hs => ?_
  rw [List.map_map]
  exact List.map_congr_left fun c hc =>
    congrArg (s.plannedAs, ·) (hlinked.plannedAs_of_mem_parts hs hc)

/-- The links of one node lead to its partitions, in order. -/
theorem links_of_parent (h : g.Holds v) (ht : t ∈ v.trees) (hlinked : t.Linked r)
    (hplan : plan.Unfolds refuted t) (hs : s ∈ t.subtrees) :
    ((plan.state.links.filter fun l => l.parentId == s.plannedAs).map fun l => l.childId) =
      s.parts.map PartitionTree.oid := by
  have hedges : (t.edges.filter fun e => e.1.plannedAs == s.plannedAs) =
      s.parts.map fun c => (s, c) := by
    rw [← PartitionTree.filter_edges (h.oids_nodup_of_mem ht) hs]
    refine List.filter_congr fun e he => Bool.eq_iff_iff.2 ?_
    rw [beq_iff_eq, beq_iff_eq]
    have hmem := (PartitionTree.mem_edges_iff.1 he).1
    constructor
    · intro heq
      rw [h.eq_of_plannedAs ht hlinked hmem hs heq]
    · intro heq
      rw [h.eq_of_oid ht hmem hs heq]
  calc (plan.state.links.filter fun l => l.parentId == s.plannedAs).map (fun l => l.childId)
    _ = ((plan.state.links.map fun l => (l.parentId, l.childId)).filter
          fun e => e.1 == s.plannedAs).map Prod.snd := by
        rw [List.filter_map, List.map_map]
        rfl
    _ = (t.edges.filter fun e => e.1.plannedAs == s.plannedAs).map fun e => e.2.plannedAs := by
        rw [hplan.links, List.filter_map, List.map_map]
        rfl
    _ = s.parts.map PartitionTree.oid := by
        rw [hedges, List.map_map]
        exact List.map_congr_left fun c hc => hlinked.plannedAs_of_mem_parts hs hc

/-- What is scanned, as partitions. -/
theorem map_scans (hplan : plan.Unfolds refuted t) :
    (plan.path.scans.map fun scan => plan.partition? scan.1) =
      (t.kept refuted).map PartitionTree.partition? :=
  map_eq_of_forall₂ hplan.scans fun _ _ hu => hu.partition?

/-- **A plan that unfolds a tree mirrors it.** -/
theorem mirrors (h : g.Holds v) (ht : t ∈ v.trees) (hlinked : t.Linked r)
    (hopen : refuted t = false) (hplan : plan.Unfolds refuted t) :
    plan.Mirrors t (PartitionTree.emptied refuted) where
  entries := hplan.map_entries_perm hlinked
  links := hplan.map_links_perm hlinked
  ordered _ hs := hplan.links_of_parent h ht hlinked hs
  pruned := by
    have hpruned : plan.pruned.map plan.partition? =
        (t.emptiedWithin refuted).map PartitionTree.partition? :=
      map_eq_of_forall₂ hplan.pruned fun i s hs => hs.partition?
    rw [hpruned]
    refine (hlinked.emptiedWithin_perm.map _).trans (List.Perm.of_eq ?_)
    exact List.map_congr_left fun s hs =>
      hlinked.partition?_of_mem_partitions (List.mem_of_mem_filter hs)
  scans := by
    rw [hplan.map_scans, hlinked.kept_eq_survivors (h.oids_nodup_of_mem ht) hopen]
    exact List.map_congr_left fun u hu =>
      hlinked.partition?_of_mem_partitions (List.mem_of_mem_filter hu)
  isDummy := by
    rw [hplan.isDummy, ← hlinked.kept_eq_survivors (h.oids_nodup_of_mem ht) hopen,
      PartitionTree.kept_eq_nil_iff]
  isDummy_iff_parts := by
    have hpartitioned : t.node.isPartitioned = true := hlinked.key
    rw [hplan.isDummy, PartitionTree.emptied_eq, hopen, hpartitioned, Bool.false_or, Bool.true_and,
      List.all_eq_true]

end Plan.Unfolds

end Holds

/-! ## From a call to its plan -/

namespace Session

variable {x : Extension} {c : σ} {s : Session ι} {resolve : ι → Interceptor} {v : Inventory}
variable {t : PartitionTree} {r r₀ : Relation} {restrictions : List Restriction} {e : Explain}

/-- **An `EXPLAIN` that only plans cannot fail** over a shadowed relation, in a
session over an extension that is enabled. -/
theorem execute_unfolds (hs : s.RunsOver resolve x) (henabled : x.enabled = true)
    (h : x.registry.Holds v) (ht : t ∈ v.trees) (hlinked : t.Linked r₀)
    (hrelid : t.node.relid = r.oid) (he : e.PlansOnly c r restrictions) (j : Journal) :
    ∃ result s' j' plan, s.execute c resolve (.utility (.explain e)) j = (.ok result, s', j') ∧
      result.plan = some plan ∧
        plan.Unfolds (x.registry.refutes s.settings restrictions) t := by
  have hactive : (x.opening (.start (s.statements + 1))
      (.ofStatement (.utility (.explain e)))).window.isActive = true :=
    Bool.and_eq_true_iff.2 ⟨Option.isNone_iff_eq_none.2 he.planOnly, henabled⟩
  have hyields : Edit.Yields (e.query.plan c (x.metadataOver c) (x.planningOver c)
      (x.opening (.start (s.statements + 1)) (.ofStatement (.utility (.explain e)))) s.settings) ()
      (fun plan _ => plan.Unfolds (x.registry.refutes s.settings restrictions) t)
      fun _ => False :=
    Extension.plan_unfolds hactive h ht hlinked hrelid he.serves he.whole he.resolved rfl s.settings
  obtain ⟨plan, _, j₁, hplan, hunfolds⟩ := hyields.exists_ok j
  obtain ⟨choice, hchoice⟩ := he.readable
  have hanswer := @execute_planOnly ι σ _ x c s resolve e hs he.planOnly j
  rw [hchoice, planned, hplan] at hanswer
  generalize s.execute c resolve (.utility (.explain e)) j = executed at hanswer ⊢
  rcases executed with ⟨error | result, s', j'⟩
  · cases hanswer
  · exact ⟨result, s', j', plan, rfl, Except.ok.inj hanswer, hunfolds⟩

/-- **The plan of a shadowed relation mirrors its tree.** After a run of calls, each
of which leaves hypothetical objects and shadowed relations apart, take any tree that
is registered, and any `EXPLAIN` that only plans a query of the relation it shadows.
It succeeds, and its plan mirrors the tree, whose siblings stand in the order of a
valid layout. Without rows are the partitions
that constraint exclusion refutes, and those all of whose partitions are
without rows. -/
theorem mirrors_of_registered {log : List (AdminCall σ × AdminAnswer)}
    (hrun : Extension.Run Extension.Unmixed log x) :
    ∃ v, Inventory.Run log v ∧ v.Shows x ∧ ∀ t ∈ v.trees,
      (∃ (r₀ : Relation) (l : Layout), l.validate r₀ = .ok () ∧ l.IsTree r₀ t) ∧
      ∀ (c : σ) (r : Relation) (restrictions : List Restriction) (e : Explain) (s : Session ι)
        (resolve : ι → Interceptor) (j : Journal),
        t.node.relid = r.oid → e.PlansOnly c r restrictions → x.enabled = true →
          s.RunsOver resolve x →
            ∃ result s' j' plan, s.execute c resolve (.utility (.explain e)) j =
              (.ok result, s', j') ∧ result.plan = some plan ∧
                plan.Mirrors t
                  (PartitionTree.emptied (x.registry.refutes s.settings restrictions)) := by
  obtain ⟨v, hcalls, hreflects⟩ := hrun.reflects
  refine ⟨v, hcalls, hreflects.shows, fun t ht => ⟨hcalls.planted t ht, ?_⟩⟩
  intro c r restrictions e s resolve j hrelid he henabled hs
  obtain ⟨r₀, hlinked⟩ := hreflects.holds.linked t ht
  obtain ⟨result, s', j', plan, hexecute, hplan, hunfolds⟩ :=
    execute_unfolds hs henabled hreflects.holds ht hlinked hrelid he j
  have hopen : x.registry.refutes s.settings restrictions t = false := by
    rw [Registry.refutes, hlinked.isRoot_self]
    rfl
  exact ⟨result, s', j', plan, hexecute, hplan,
    hunfolds.mirrors hreflects.holds ht hlinked hopen⟩

/-- An extension with `orders` shadowed by the partitions `low` and `high`. -/
def ordersSplit : Extension := ((Extension.fresh true).perform Extension.shadowOrders).2

/-- The restriction of a query for the rows of `orders` whose `id` is 5. -/
def idIsFive : Restriction := ⟨⟨1⟩, "id", .compare .eq (.int 5)⟩

/-- The tree over `orders`: two leaves. -/
theorem parts_ordersSplit {v : Inventory} {t : PartitionTree} {r : Relation}
    (hshows : v.Shows ordersSplit) (ht : t ∈ v.trees) (hlinked : t.Linked r)
    (hrelid : t.node.relid = Extension.orders.oid) :
    ∃ low high : Node, t.parts = [.mk low [], .mk high []] ∧ low.oid = ⟨16401⟩ ∧
      high.oid = ⟨16402⟩ ∧ low.isPartitioned = false ∧ high.isPartitioned = false := by
  have hchildren : (ordersSplit.registry.node? Extension.orders.oid).map (fun n => n.children) =
      some [⟨16401⟩, ⟨16402⟩] := by decide +kernel
  rw [(hshows.node?_iff _ t.node).2 ⟨t, ht, Or.inr ⟨rfl, hrelid⟩⟩, Option.map_some,
    (hlinked.linkedAt t t.self_mem_subtrees).children, Option.some.injEq] at hchildren
  obtain ⟨low, rest, hparts, hlow, hrest⟩ := List.map_eq_cons_iff.1 hchildren
  obtain ⟨high, rest, rfl, hhigh, hnil⟩ := List.map_eq_cons_iff.1 hrest
  obtain rfl := List.map_eq_nil_iff.1 hnil
  -- neither of the two is divided further
  have hleaf : ∀ s ∈ t.parts, (ordersSplit.registry.node? s.oid).map (fun n => n.isPartitioned) =
      some false → s.node.isPartitioned = false ∧ s = .mk s.node [] := by
    intro s hs hkey
    have hmem := PartitionTree.parts_mem_subtrees t.self_mem_subtrees hs
    rw [(hshows.node?_iff s.oid s.node).2
      ⟨t, ht, Or.inl ⟨PartitionTree.node_mem_nodes hmem, rfl⟩⟩] at hkey
    refine ⟨Option.some.inj hkey, ?_⟩
    have hnone := hlinked.parts_eq_nil hmem (Option.some.inj hkey)
    cases s
    exact congrArg (PartitionTree.mk _) hnone
  rw [hparts] at hleaf
  obtain ⟨hlowkey, hlowleaf⟩ := hleaf low List.mem_cons_self (by rw [hlow]; decide +kernel)
  obtain ⟨hhighkey, hhighleaf⟩ := hleaf high (by simp) (by rw [hhigh]; decide +kernel)
  refine ⟨low.node, high.node, ?_, hlow, hhigh, hlowkey, hhighkey⟩
  rw [hparts, ← hlowleaf, ← hhighleaf]

theorem mirrors_ordersSplit :
    ∃ result s' j' plan, ((withSettings .standard : Session Unit).install ()).2.execute
      Extension.ordersCatalog (fun _ => ordersSplit.interceptor)
      (.explain ((Query.select "orders").addQual "id" (.compare .eq (.int 5))) []) [] =
        (.ok result, s', j') ∧ result.plan = some plan ∧
          plan.pruned.map plan.partition? = [some ⟨16401⟩] ∧
          (plan.path.scans.map fun scan => plan.partition? scan.1) = [some ⟨16402⟩] := by
  obtain ⟨v, -, hshows, hmirrors⟩ := mirrors_of_registered (ι := Unit) (x := ordersSplit)
    Extension.run_shadowOrders
  have hshadowed : ordersSplit.registry.isShadowed Extension.orders.oid = true := by decide +kernel
  obtain ⟨t, ht, hrelid⟩ := (hshows.isShadowed_iff _).1 hshadowed
  obtain ⟨⟨r₀, l, -, htree⟩, hplans⟩ := hmirrors t ht
  have hlinked := htree.linked
  obtain ⟨low, high, hparts, hlow, hhigh, hlowkey, hhighkey⟩ :=
    parts_ordersSplit hshows ht hlinked hrelid
  obtain ⟨result, s', j', plan, hexecute, hplan, h⟩ := hplans Extension.ordersCatalog _
    [idIsFive] ⟨(Query.select "orders").addQual "id" (.compare .eq (.int 5)), []⟩
    ((withSettings .standard : Session Unit).install ()).2 (fun _ => ordersSplit.interceptor) []
    hrelid ⟨⟨rfl, rfl, _, rfl⟩, rfl, rfl, rfl, _, rfl⟩ rfl ⟨(), rfl, rfl⟩
  refine ⟨result, s', j', plan, hexecute, hplan, ?_⟩
  have hpartitions : t.partitions = [.mk low [], .mk high []] := by
    rw [PartitionTree.partitions, hparts]
    rfl
  -- a leaf is without rows if it is refuted
  have hemptied : ∀ n : Node, PartitionTree.mk n [] ∈ t.partitions → n.isPartitioned = false →
      (PartitionTree.mk n []).emptied (ordersSplit.registry.refutes
        ((withSettings .standard : Session Unit).install ()).2.settings [idIsFive]) =
          (!(ordersSplit.registry.boundConstraints n.oid).isEmpty &&
            Constraint.refutedBy [idIsFive] (ordersSplit.registry.boundConstraints n.oid)) := by
    intro n hn hkey
    rw [PartitionTree.emptied_eq, PartitionTree.node_mk, hkey, Bool.false_and, Bool.or_false,
      Registry.refutes, hlinked.isRoot_of_mem_partitions hn]
    rfl
  have hlowdummy := hemptied low (by simp [hpartitions]) hlowkey
  have hhighdummy := hemptied high (by simp [hpartitions]) hhighkey
  rw [hlow] at hlowdummy
  rw [hhigh] at hhighdummy
  have hlowrefuted : (!(ordersSplit.registry.boundConstraints ⟨16401⟩).isEmpty &&
      Constraint.refutedBy [idIsFive] (ordersSplit.registry.boundConstraints ⟨16401⟩)) = true := by
    decide +kernel
  have hhighopen : (!(ordersSplit.registry.boundConstraints ⟨16402⟩).isEmpty &&
      Constraint.refutedBy [idIsFive] (ordersSplit.registry.boundConstraints ⟨16402⟩)) = false := by
    decide +kernel
  rw [hlowrefuted] at hlowdummy
  rw [hhighopen] at hhighdummy
  have hlowoid : (PartitionTree.mk low []).oid = ⟨16401⟩ := hlow
  have hhighoid : (PartitionTree.mk high []).oid = ⟨16402⟩ := hhigh
  have hlowoids : (PartitionTree.mk low []).oids = [⟨16401⟩] := congrArg (fun o => [o]) hlow
  have hhighoids : (PartitionTree.mk high []).oids = [⟨16402⟩] := congrArg (fun o => [o]) hhigh
  constructor
  · have hpruned := h.pruned
    rw [hpartitions] at hpruned
    simpa [List.filter_cons, hlowdummy, hhighdummy, hlowoid] using hpruned
  · have hscans := h.scans
    rw [PartitionTree.survivors, hpartitions] at hscans
    simpa [List.filter_cons, hlowdummy, hhighdummy, hlowkey, hhighkey, hlowoid, hhighoid, hlowoids,
      hhighoids] using hscans

/-! ## Where it does not mirror the tree -/

/-- The catalog of `lines` and `parcels`, whose trees have been mixed up. -/
def mixedCatalog : MemoryCatalog :=
  .holding ⟨16414⟩ [{ Extension.orders with oid := ⟨16400⟩, name := "lines" },
    { Extension.orders with oid := ⟨16386⟩, name := "parcels" }]

/-- What an `EXPLAIN` of `lines` answers in a new session, and what it leaves. -/
def explainLines : Except Error StatementResult × Session Unit × Journal :=
  ((withSettings .standard : Session Unit).install ()).2.execute mixedCatalog
    (fun _ => Extension.parcelsRooted.interceptor) (.explain (.select "lines") []) []

/-- What can be read off the plan of an outcome shows that there is one. -/
theorem exists_plan {α : Type} {f : Plan → α} {a : α}
    {executed : Except Error StatementResult × Session ι × Journal}
    (h : executed.1.toOption.bind (fun result => result.plan.map f) = some a) :
    ∃ result s' j' plan, executed = (.ok result, s', j') ∧ result.plan = some plan ∧
      f plan = a := by
  rcases executed with ⟨error | result, s', j'⟩
  · cases h
  · obtain ⟨plan, hplan, hf⟩ := Option.map_eq_some_iff.1 h
    exact ⟨result, s', j', plan, rfl, hplan, hf⟩

/-- **A tree that has lost its partitions is not mirrored**, though nothing is mixed
any more when the query is planned. The root over `lines` leads into the tree over
`parcels`, whose root is planned as an entry for `lines` once more. -/
theorem lines_unmirrored :
    Extension.ReachedWithin MemoryCatalog (fun _ => True) Extension.parcelsRooted ∧
      (∀ oid, Extension.parcelsRooted.ids.isIssued oid = true →
        Catalog.inUse mixedCatalog oid = false) ∧
      Extension.parcelsRooted.registry.isShadowed ⟨16400⟩ = true ∧
      ∃ result s' j' plan, explainLines = (.ok result, s', j') ∧ result.plan = some plan ∧
        ∀ t dummy, ¬ plan.Mirrors t dummy := by
  have hapart : ∀ oid ∈ Extension.parcelsRooted.ids.issued,
      Catalog.inUse mixedCatalog oid = false := by decide +kernel
  refine ⟨Extension.reached_parcelsRooted,
    fun oid hoid => hapart oid (ShadowIds.isIssued_iff.1 hoid), by decide +kernel, ?_⟩
  obtain ⟨result, s', j', plan, hexplain, hplan, hentries⟩ :
      ∃ result s' j' plan, explainLines = (.ok result, s', j') ∧ result.plan = some plan ∧
        (plan.state.entries.map fun e => (e.relid, e.partition)) =
          [(⟨16400⟩, none), (⟨16400⟩, none), (⟨16386⟩, some ⟨16412⟩)] :=
    exists_plan (by decide +kernel)
  refine ⟨result, s', j', plan, hexplain, hplan, fun t dummy h => ?_⟩
  -- of the entries of a plan that mirrors a tree, only one stands for no partition
  have hcount := h.entries.countP_eq fun e => e.2.isNone
  rw [hentries] at hcount
  have hpartitions : (t.partitions.map fun s => (t.node.relid, some s.oid)).countP
      (fun e => e.2.isNone) = 0 := List.countP_eq_zero.2 (by simp)
  have hone : ((t.node.relid, none) :: t.partitions.map fun s => (t.node.relid, some s.oid)).countP
      (fun e => e.2.isNone) = 1 := by
    rw [List.countP_cons, hpartitions]
    rfl
  exact absurd (hcount.trans hone) (by decide)

end Session

end WhatIf
