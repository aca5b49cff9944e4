import WhatIf.Proofs.Catalog.Lookups
import WhatIf.Proofs.Plan.Additional
import WhatIf.Proofs.Registry.Additional
import WhatIf.Proofs.Shadow.Concealment
import WhatIf.Proofs.Shadow.Refinement
/-!
# Shadow — planning with one index more

Over the host, an extension whose registry has some indexes more gives them to
the relations they are on, after the candidates these had. Its points are alike
in everything else, since the trees are the same and nothing but the window of a
statement is asked for. Registering an index makes such an extension, whatever
calls were made before, and dropping it makes one that plans as before.
-/

namespace WhatIf

variable {σ : Type} [Catalog σ]

/-! ## What is presented -/

namespace Registry.Gains

variable {g g' : Registry} {new : Oid → Prop} (h : g.Gains new g')

include h

/-- The candidates of a relation, with those that are new. -/
theorem attachIndexes {r : RelState} {oid : Oid} {kind : RelKind} (hpaths : r.paths = []) :
    (g.attachIndexes oid kind r).Gains new (g'.attachIndexes oid kind r) := by
  obtain ⟨extra, hnew, hindexes⟩ := h.indexesOn oid
  have hcandidates : ∃ more : List Candidate, (∀ x ∈ more, new x.oid) ∧
      g'.candidatesOn oid kind = g.candidatesOn oid kind ++ more := by
    unfold Registry.candidatesOn
    split
    · refine ⟨extra.map HypotheticalIndex.candidate, fun x hx => ?_, ?_⟩
      · obtain ⟨i, hi, rfl⟩ := List.mem_map.1 hx
        exact hnew i hi
      · rw [hindexes, List.map_append]
    · exact ⟨[], by simp, rfl⟩
  obtain ⟨more, hmore, heq⟩ := hcandidates
  refine ⟨hpaths, more, hmore, ?_⟩
  unfold Registry.attachIndexes
  rw [heq, List.append_assoc]

theorem descOf (n : Node) : g'.descOf n = g.descOf n := by
  have hbound : g'.boundOf? = g.boundOf? := by
    funext oid
    rw [boundOf?, boundOf?, h.node?]
  rw [Registry.descOf, Registry.descOf, hbound]

theorem inheritors? (oid : Oid) : g'.inheritors? oid = g.inheritors? oid := by
  rw [Registry.inheritors?, Registry.inheritors?, hasNode, hasNode, h.node?, h.descendants]

theorem childNodes? (oid : Oid) : g'.childNodes? oid = g.childNodes? oid := by
  rw [Registry.childNodes?, Registry.childNodes?, h.partitioned?, funext h.node?]

/-- The node a relation stands for is presented as before. -/
theorem attachPartitioning (state : PlanState) (r : RelState) :
    g'.attachPartitioning state r = g.attachPartitioning state r := by
  have hpartition : ∀ n, g'.partition n r = g.partition n r := by
    intro n
    unfold Registry.partition
    rw [h.descOf]
  have hnarrow : ∀ n r, g'.narrow n r = g.narrow n r := by
    intro n r
    rw [Registry.narrow, Registry.narrow, h.boundConstraints]
  unfold Registry.attachPartitioning nodeOfEntry?
  simp only [h.node?, hpartition, hnarrow]

end Registry.Gains

/-- Presenting the node a relation stands for does the same to both. -/
theorem RelState.Gains.attachPartitioning {g : Registry} {new : Oid → Prop} {r r' : RelState}
    (h : r.Gains new r') (state : PlanState) :
    (g.attachPartitioning state r).Gains new (g.attachPartitioning state r') := by
  obtain ⟨hpaths, extra, hnew, rfl⟩ := h
  unfold Registry.attachPartitioning
  dsimp only
  rcases g.nodeOfEntry? state r.entry with _ | n
  · exact ⟨hpaths, extra, hnew, rfl⟩
  dsimp only
  have hpartition : (g.partition n r).Gains new
      (g.partition n { r with candidates := r.candidates ++ extra }) := by
    unfold Registry.partition
    split
    · exact ⟨hpaths, extra, hnew, rfl⟩
    · exact ⟨hpaths, extra, hnew, rfl⟩
  split
  · exact hpartition
  · obtain ⟨hpaths, extra, hnew, heq⟩ := hpartition
    rw [heq]
    refine ⟨hpaths, extra.map (Registry.scaleCandidate n.share), fun x hx => ?_, ?_⟩
    · obtain ⟨z, hz, rfl⟩ := List.mem_map.1 hx
      exact hnew z hz
    · unfold Registry.narrow
      dsimp only
      rw [List.map_append]

/-- Finding that no row matches finds it of both. -/
theorem RelState.DiffersBy.excludeRefuted {new : Oid → Prop} {r r' : RelState} {s : Settings}
    (h : r.DiffersBy new r') : (r.excludeRefuted s).DiffersBy new (r'.excludeRefuted s) := by
  obtain ⟨candidates, paths, rfl, hpaths⟩ := h
  have hexcluded : ({ r with candidates, paths } : RelState).isExcluded s = r.isExcluded s := rfl
  unfold RelState.excludeRefuted
  rw [hexcluded]
  split
  · exact ⟨candidates, _, rfl, Path.rel_differsBy_self _⟩
  · exact ⟨candidates, paths, rfl, hpaths⟩

/-! ## Points -/

namespace Extension

variable {x y : Extension} {new : Oid → Prop} {c c' : σ} {ctx ctx' : Context}

theorem orNext_congr {α : Type} {own own' : Option α} {next next' : Ask α}
    (hwindow : ctx'.window = ctx.window) (hown : own' = own) (hnext : next' = next) :
    orNext ctx' own' next' = orNext ctx own next := by
  unfold orNext
  rw [hwindow, hown, hnext]

section Gains

variable (h : x.registry.Gains new y.registry) (hwindow : ctx'.window = ctx.window)

include h

/-- A relation is presented with its new indexes. -/
theorem inject_gains {oid : Oid} {inherits : Bool} {s : Scope} (hpaths : s.rel.paths = []) :
    (x.inject oid inherits s).rel.Gains new (y.inject oid inherits s).rel := by
  unfold inject
  dsimp only
  rw [h.attachPartitioning]
  split
  · exact RelState.Gains.attachPartitioning ⟨hpaths, [], by simp, by rw [List.append_nil]⟩ s.state
  · exact (h.attachIndexes hpaths).attachPartitioning s.state

include hwindow

/-! ### Metadata -/

theorem partitionDesc_gains (oid : Oid) :
    (y.metadataOver c).partitionDesc ctx' oid = (x.metadataOver c).partitionDesc ctx oid := by
  refine orNext_congr hwindow ?_ rfl
  rw [h.partitioned?, funext h.descOf]

theorem hasSubclass_gains (oid : Oid) :
    (y.metadataOver c).hasSubclass ctx' oid = (x.metadataOver c).hasSubclass ctx oid := by
  refine orNext_congr hwindow ?_ rfl
  rw [hasPartitions, hasPartitions, h.isShadowed, h.partitioned?]

theorem inheritors_gains (oid : Oid) :
    (y.metadataOver c).inheritors ctx' oid = (x.metadataOver c).inheritors ctx oid :=
  orNext_congr hwindow (h.inheritors? oid) rfl

theorem finishChild_gains (parent child : Oid) :
    (y.metadataOver c).finishChild ctx' parent child =
      (x.metadataOver c).finishChild ctx parent child := by
  have hown : y.finishChild ctx' child = x.finishChild ctx child := by
    unfold Extension.finishChild
    rw [hwindow, h.node?]
  show (pure () >>= fun _ => y.finishChild ctx' child) = (pure () >>= fun _ => x.finishChild ctx child)
  rw [hown]

/-! ### Planning -/

theorem hostExpandChildren_gains (i : RangeIndex) (desc : Option PartitionDesc) :
    PhysicalHost.expandChildren c (y.metadataOver c) ctx' i desc =
      PhysicalHost.expandChildren c (x.metadataOver c) ctx i desc := by
  have hmembers : ∀ parentId oids,
      PhysicalHost.addMembers c (y.metadataOver c) ctx' i parentId oids =
        PhysicalHost.addMembers c (x.metadataOver c) ctx i parentId oids := by
    intro parentId oids
    induction oids with
    | nil => rfl
    | cons oid oids ih =>
      rw [PhysicalHost.addMembers, PhysicalHost.addMembers, ih]
      unfold PhysicalHost.addMember
      rw [finishChild_gains h hwindow]
  unfold PhysicalHost.expandChildren
  simp only [hmembers, inheritors_gains h hwindow]

theorem expandChildren_gains (i : RangeIndex) (desc : Option PartitionDesc) :
    (y.planningOver c).expandChildren ctx' i desc = (x.planningOver c).expandChildren ctx i desc := by
  have hfinish : ∀ oid, (y.metadataOver c).finishChild ctx' oid =
      (x.metadataOver c).finishChild ctx oid :=
    fun oid => funext fun child => finishChild_gains h hwindow oid child
  have hhost := @hostExpandChildren_gains σ _ x y new c ctx ctx' h hwindow i desc
  show (if ctx'.window.isActive then y.expandChildren (y.metadataOver c) ctx' i
      (PhysicalHost.expandChildren c (y.metadataOver c) ctx' i desc)
    else PhysicalHost.expandChildren c (y.metadataOver c) ctx' i desc) = _
  rw [hhost, hwindow]
  unfold Extension.expandChildren
  simp only [h.childNodes?, hfinish]
  rfl

/-- **Asked about a relation**, the two fill in the same but for its new
indexes. -/
theorem relationInfo_gains {oid : Oid} {inherits : Bool} {s : Scope} (hpaths : s.rel.paths = []) :
    Edit.Coupled ((x.planningOver c).relationInfo ctx oid inherits) s
      ((y.planningOver c).relationInfo ctx' oid inherits) s
      fun _ u _ u' => u'.state = u.state ∧ u.rel.Gains new u'.rel := by
  refine .bind (.of_yields (PhysicalHost.relationInfo_yields (E := fun _ => True)
    fun _ _ => trivial) fun _ u hu => ?_)
  have hblank : u.rel.paths = [] := hu.paths.trans hpaths
  rw [hwindow]
  split
  · exact .change ⟨rfl, inject_gains h hblank⟩
  · exact .pure ⟨rfl, hblank, [], by simp, by rw [List.append_nil]⟩

omit h in
theorem relationPaths_gains {i : RangeIndex} {state : PlanState} {r r' : RelState}
    (hr : r.DiffersBy new r') :
    Edit.Coupled ((x.planningOver c).relationPaths ctx i) ⟨state, r⟩
      ((y.planningOver c).relationPaths ctx' i) ⟨state, r'⟩
      fun _ u _ u' => u'.state = u.state ∧ u.rel.DiffersBy new u'.rel := by
  refine .bind (.pure ?_)
  rw [hwindow]
  split
  · exact .change ⟨rfl, hr.excludeRefuted⟩
  · exact .pure ⟨rfl, hr⟩

/-- **The points differ by the new indexes alone.** -/
theorem gain : Draft.Gain new (x.metadataOver c) (y.metadataOver c) (x.planningOver c)
    (y.planningOver c) ctx ctx' where
  partitionDesc := partitionDesc_gains h hwindow
  relationInfo _ _ _ hpaths := relationInfo_gains h hwindow hpaths
  relationPaths _ _ _ _ hr := relationPaths_gains hwindow hr
  expandChildren := expandChildren_gains h hwindow

/-- **A query is planned with some indexes more**, by a catalog that answers
lookups alike: it fails as before, or its plan differs by these indexes alone. -/
theorem plan_gains (hlookups : Catalog.SameLookups c c') (q : Query) (s : Settings) :
    Edit.Coupled (q.plan c (x.metadataOver c) (x.planningOver c) ctx s) ()
      (q.plan c' (y.metadataOver c') (y.planningOver c') ctx' s) ()
      fun plan _ plan' _ => plan.DiffersBy new plan' := by
  -- the catalog is seen through its lookups only
  have hmetadata : y.metadataOver c' = y.metadataOver c := by
    rw [metadataOver, metadataOver, hlookups.metadata]
  have hplanning : y.planningOver c' = y.planningOver c := by
    rw [planningOver, planningOver, hmetadata, hlookups.planning]
  rw [hmetadata, hplanning, hlookups.plan]
  refine Query.plan_coupled (gain h hwindow) (fun r => ?_) s
  unfold Query.readsChildren
  rw [hasSubclass_gains h hwindow]

end Gains

/-! ## Registration -/

/-- **An extension that any calls have led to**, from one without objects. No
identifier is kept apart from any other. -/
inductive Reached (σ : Type) [Catalog σ] : Extension → Prop
  | fresh (b : Bool) : Reached σ (.fresh b)
  | perform {x : Extension} (h : Reached σ x) (call : AdminCall σ) : Reached σ (x.perform call).2

/-- Any calls keep the order of registration. -/
theorem Reached.ordered (h : Reached σ x) : x.registry.Ordered := by
  induction h with
  | fresh b => exact Registry.ordered_empty
  | @perform x _ call ih =>
    cases call with
    | registerIndex c relid spec =>
      rcases x.registerIndex_cases c relid spec with ⟨e, c', heq⟩ | ⟨r, i, c', -, -, -, heq⟩
      · rw [Extension.perform, heq]
        exact ih
      · rw [Extension.perform, heq]
        exact ih.insertIndex
    | registerTable c relid l =>
      rcases x.registerTable_cases c relid l with ⟨e, c', heq⟩ |
        ⟨r, t, below, g', ids', c', -, -, -, -, -, hinsert, -, -, -, heq⟩
      · rw [Extension.perform, heq]
        exact ih
      · rw [Extension.perform, heq]
        exact ih.insertTree? hinsert
    | dropIndex oid =>
      show (x.dropIndex oid).2.registry.Ordered
      unfold Extension.dropIndex
      split
      · exact ih
      · rename_i hremove
        exact ih.removeIndex? hremove
    | dropTable oid =>
      show (x.dropTable oid).2.registry.Ordered
      unfold Extension.dropTable
      split
      · exact ih
      · rename_i hremove
        exact ih.removeTree? hremove
    | resetAll => exact Registry.ordered_reset
    | setEnabled b => exact ih

/-- **Registering an index adds it, and dropping it takes it away again.** -/
theorem Reached.registered {relid oid : Oid} {spec : IndexSpec} (h : Reached σ x)
    (hregistered : x.registerIndex c relid spec = (.ok oid, y, c')) :
    x.registry.Gains (· = oid) y.registry ∧ y.enabled = x.enabled ∧
      (y.dropIndex oid).1 = true ∧
        x.registry.Gains (fun _ => False) (y.dropIndex oid).2.registry ∧
        (y.dropIndex oid).2.enabled = x.enabled := by
  rcases x.registerIndex_cases c relid spec with ⟨e, c₁, heq⟩ | ⟨r, i, c₁, -, -, -, heq⟩
  · rw [heq] at hregistered
    cases hregistered
  · rw [heq] at hregistered
    cases hregistered
    obtain ⟨g', hremove, hgains⟩ := h.ordered.removeIndex?_insertIndex (i := i)
    refine ⟨h.ordered.gains_insertIndex, rfl, ?_⟩
    unfold Extension.dropIndex
    dsimp only
    rw [hremove]
    exact ⟨rfl, hgains, rfl⟩

end Extension

end WhatIf
