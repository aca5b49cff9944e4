import WhatIf.Shadow.Extension
import WhatIf.Proofs.Plan.Physical
import WhatIf.Proofs.Store.Slots
/-!
# Shadow — when the extension shows nothing

Over the host, the extension answers as the host alone does as long as it is
silent: its window is not active, or its registry holds nothing. Planning then
goes as without it. The one point that does not ask for the window is the name
of an index, which differs from the host's for hypothetical indexes only.
-/

namespace WhatIf

variable {σ : Type} [Catalog σ]

/-- **A registry that holds nothing**: no object, and no relation it takes for
shadowed. -/
structure Registry.Vacant (g : Registry) : Prop where
  isEmpty : g.isEmpty = true
  not_shadowed : ∀ relid, g.isShadowed relid = false

namespace Registry.Vacant

variable {g : Registry} (h : g.Vacant)

include h

theorem indexesOn (relid : Oid) : g.indexesOn relid = [] := by
  have hempty := SimulationArena.isEmpty_iff.1 (Bool.and_eq_true_iff.1 h.isEmpty).1
  have hlist : g.indexList = [] := List.filterMap_eq_nil_iff.2 fun k _ => hempty k
  rw [Registry.indexesOn, hlist]
  rfl

theorem node? (oid : Oid) : g.node? oid = none := by
  have hempty := SimulationArena.isEmpty_iff.1 (Bool.and_eq_true_iff.1 h.isEmpty).2
  rw [Registry.node?, exactNode?, Option.bind_eq_none_iff]
  exact fun k _ => hempty k

theorem partitioned? (oid : Oid) : g.partitioned? oid = none := by
  rw [Registry.partitioned?, h.node?]
  rfl

end Registry.Vacant

namespace Extension

/-- The context of a statement in an active window. -/
def simulating : Context := ⟨1, ⟨true, true⟩⟩

/-- **An extension that shows nothing** to a statement. -/
def Silent (x : Extension) (ctx : Context) : Prop :=
  ctx.window.isActive = false ∨ x.registry.Vacant

/-- The metadata points of the extension over the host. -/
def metadataOver (x : Extension) (c : σ) : MetadataPoints := x.metadata (PhysicalHost.metadata c)

/-- The planning points of the extension over the host. -/
def planningOver (x : Extension) (c : σ) : PlanningPoints :=
  x.planning (x.metadataOver c) (PhysicalHost.planning c (x.metadataOver c))

variable {x : Extension} {c : σ} {ctx ctx' : Context} (h : x.Silent ctx)

/-- Without an answer of its own, a point is left to those under the
extension. -/
theorem orNext_eq {α : Type} {own : Option α} {next : Ask α}
    (hown : ctx.window.isActive = false ∨ own = none) : orNext ctx own next = next := by
  unfold orNext
  rcases hown with hinactive | rfl
  · rw [hinactive]
    rfl
  · split
    · rfl
    · rfl

/-- What is only done while the window is active is not done. -/
theorem bind_if_eq {s : Type} {next : Edit s Unit} {F : s → s}
    (hF : ctx.window.isActive = false ∨ F = id) :
    (do next; if ctx.window.isActive then Edit.change F : Edit s Unit) = next := by
  have hrest : (if ctx.window.isActive then Edit.change F else pure () : Edit s Unit) =
      pure () := by
    rcases hF with hinactive | rfl
    · rw [hinactive]
      rfl
    · split
      · rfl
      · rfl
  show (next >>= fun _ => if ctx.window.isActive then Edit.change F else pure ()) = next
  rw [hrest]
  exact bind_pure next

/-! ## Metadata -/

section Silent

include h

theorem Silent.partitionDesc (oid : Oid) :
    (x.metadataOver c).partitionDesc ctx oid = (PhysicalHost.metadata c).partitionDesc ctx' oid :=
  orNext_eq (h.imp id fun hv => by rw [hv.partitioned?]; rfl)

theorem Silent.hasSubclass (oid : Oid) :
    (x.metadataOver c).hasSubclass ctx oid = (PhysicalHost.metadata c).hasSubclass ctx' oid := by
  refine orNext_eq (h.imp id fun hv => if_neg ?_)
  rw [hasPartitions, hv.not_shadowed, hv.partitioned?]
  simp

theorem Silent.inheritors (oid : Oid) :
    (x.metadataOver c).inheritors ctx oid = (PhysicalHost.metadata c).inheritors ctx' oid := by
  refine orNext_eq (h.imp id fun hv => ?_)
  rw [Registry.inheritors?, Registry.hasNode, hv.node?]
  rfl

theorem Silent.finishChild (parent child : Oid) :
    (x.metadataOver c).finishChild ctx parent child =
      (PhysicalHost.metadata c).finishChild ctx' parent child := by
  have hown : x.finishChild ctx child = pure () := by
    unfold Extension.finishChild
    rcases h with hinactive | hv
    · rw [hinactive]
      rfl
    · rw [hv.node?]
      split
      · rfl
      · rfl
  show (pure () >>= fun _ => x.finishChild ctx child) = pure ()
  rw [hown]
  rfl

end Silent

/-- An index that is not hypothetical has the name the host gives it. -/
theorem indexName_eq {oid : Oid} (hnone : x.registry.index? oid = none) :
    (x.metadataOver c).indexName ctx oid = (PhysicalHost.metadata c).indexName ctx' oid := by
  unfold metadataOver Extension.metadata
  dsimp only
  rw [hnone]
  rfl

/-! ## Planning -/

section Silent

include h

theorem Silent.relationInfo (oid : Oid) (inherits : Bool) :
    (x.planningOver c).relationInfo ctx oid inherits = PhysicalHost.relationInfo c oid inherits := by
  refine bind_if_eq (h.imp id fun hv => ?_)
  funext s
  have hnode : x.registry.nodeOfEntry? s.state s.rel.entry = none := by
    rw [Registry.nodeOfEntry?, Option.bind_eq_none_iff]
    exact fun e _ => hv.node? e.logicalId
  have hindexes : ∀ kind (rel : RelState), x.registry.attachIndexes oid kind rel = rel := by
    intro kind rel
    rw [Registry.attachIndexes, Registry.candidatesOn, hv.indexesOn, List.map_nil, ite_self,
      List.append_nil]
  have hpartitioning : x.registry.attachPartitioning s.state s.rel = s.rel := by
    rw [Registry.attachPartitioning, hnode]
  unfold inject
  dsimp only
  rw [hindexes, ite_self, hpartitioning]
  rfl

theorem Silent.addMembers (parent : RangeIndex) (parentId : Oid) (oids : List Oid) :
    PhysicalHost.addMembers c (x.metadataOver c) ctx parent parentId oids =
      PhysicalHost.addMembers c (PhysicalHost.metadata c) ctx' parent parentId oids := by
  induction oids with
  | nil => rfl
  | cons oid oids ih =>
    have hone : PhysicalHost.addMember c (x.metadataOver c) ctx parent parentId oid =
        PhysicalHost.addMember c (PhysicalHost.metadata c) ctx' parent parentId oid := by
      unfold PhysicalHost.addMember
      exact bind_congr fun r => by rw [h.finishChild]
    rw [PhysicalHost.addMembers, PhysicalHost.addMembers, hone, ih]

/-- The host expands an entry as if the extension were not there. -/
theorem Silent.hostExpandChildren (i : RangeIndex) (desc : Option PartitionDesc) :
    PhysicalHost.expandChildren c (x.metadataOver c) ctx i desc =
      PhysicalHost.expandChildren c (PhysicalHost.metadata c) ctx' i desc := by
  unfold PhysicalHost.expandChildren
  refine bind_congr fun state => ?_
  split
  · rfl
  · rename_i entry _
    rw [h.inheritors, funext fun oids => h.addMembers i entry.relid oids]

theorem Silent.expandChildren (i : RangeIndex) (desc : Option PartitionDesc) :
    (x.planningOver c).expandChildren ctx i desc =
      PhysicalHost.expandChildren c (PhysicalHost.metadata c) ctx' i desc := by
  have hnext : (x.planningOver c).expandChildren ctx i desc =
      PhysicalHost.expandChildren c (x.metadataOver c) ctx i desc := by
    show (if ctx.window.isActive then _ else _) = _
    rcases h with hinactive | hv
    · rw [hinactive]
      rfl
    · split
      · unfold Extension.expandChildren
        have hnone : ∀ e : RangeEntry, x.registry.childNodes? e.logicalId = none := by
          intro e
          rw [Registry.childNodes?, hv.partitioned?]
          rfl
        funext ⟨state, j⟩
        rw [Edit.bind_apply]
        dsimp only [Edit.value]
        rcases state.entry? i with _ | e
        · rfl
        · dsimp only
          rw [hnone]
          rfl
      · rfl
  rw [hnext, h.hostExpandChildren]

end Silent

/-- A relation whose rows are not known to satisfy anything keeps its paths. -/
theorem relationPaths_eq (i : RangeIndex) {rel : RelState} (hrel : rel.constraints = []) :
    Draft.onRel ((x.planningOver c).relationPaths ctx i) rel = Draft.onRel (pure ()) rel := by
  have hkeep : ∀ settings, rel.excludeRefuted settings = rel := by
    intro settings
    rw [RelState.excludeRefuted, RelState.isExcluded, hrel]
    simp
  have hscope : ∀ state j, (x.planningOver c).relationPaths ctx i (⟨state, rel⟩, j) =
      (.ok (), ⟨state, rel⟩, j) := by
    intro state j
    show (pure () >>= fun _ => if ctx.window.isActive then _ else _ : Edit Scope Unit) _ = _
    rw [pure_bind]
    split
    · show (Except.ok (), (⟨state, rel.excludeRefuted state.settings⟩ : Scope), j) = _
      rw [hkeep]
    · rfl
  funext ⟨d, j⟩
  unfold Draft.onRel
  rw [Edit.bind_apply, Edit.bind_apply]
  dsimp only [Edit.value]
  rw [Edit.bind_apply, Edit.bind_apply]
  unfold Edit.lend
  dsimp only
  rw [hscope]
  rfl

/-! ## Whole plans -/

/-- **A silent extension plans as the host alone.** -/
theorem Silent.alike (h : x.Silent ctx) :
    Draft.Alike (x.metadataOver c) (PhysicalHost.metadata c) (x.planningOver c)
      (PhysicalHost.planning c (PhysicalHost.metadata c)) ctx ctx' where
  partitionDesc := h.partitionDesc
  relationInfo := h.relationInfo
  unconstrained _ _ _ hs :=
    (PhysicalHost.relationInfo_yields fun _ _ => trivial).imp fun _ _ hinfo =>
      hinfo.constraints.trans hs
  relationPaths i _ hrel := relationPaths_eq i hrel
  expandChildren := h.expandChildren

theorem Silent.plan_eq (h : x.Silent ctx) (q : Query) (settings : Settings) :
    q.plan c (x.metadataOver c) (x.planningOver c) ctx settings =
      q.plan c (PhysicalHost.metadata c) (PhysicalHost.planning c (PhysicalHost.metadata c)) ctx'
        settings := by
  unfold Query.plan Query.readsChildren
  refine bind_congr fun ⟨r, restrictions⟩ => ?_
  dsimp only
  rw [h.hasSubclass, (h.alike).planEntry]

end Extension

end WhatIf
