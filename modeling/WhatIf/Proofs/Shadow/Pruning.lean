import WhatIf.Proofs.Catalog.Counter
import WhatIf.Proofs.Plan.Physical
import WhatIf.Proofs.Shadow.Mirror
/-!
# Shadow — planning down a partition tree

While the window is active, the entry of a shadowed relation is planned through
its partitions, level by level. Over a catalog that answers for the relation
this cannot fail. The range table grows by the whole tree, the children noted
as pruned are the partitions left without rows, and the path that is chosen
scans the leaves that are kept (`Draft.Planned`).
-/

namespace WhatIf

variable {t s u part : PartitionTree} {p q : PlanState} {i j : RangeIndex} {e : RangeEntry}

/-- A tree has no more levels than there are identifiers. -/
theorem PartitionTree.height_le_count (t : PartitionTree) (hnodup : t.oids.Nodup) :
    t.height ≤ Oid.count := by
  calc t.height ≤ t.subtrees.length := t.height_le_length
    _ = t.oids.length := by rw [PartitionTree.oids_eq, List.length_map]
    _ ≤ Oid.count := Oid.length_le_count hnodup

/-- **A catalog that answers for a relation**, by its name and by its
identifier. -/
structure Catalog.Serves {σ : Type} [Catalog σ] (c : σ) (name : String) (r : Relation) : Prop where
  named : Catalog.relationNamed c name = .ok r
  relation : Catalog.relation c r.oid = .ok r
  indexes : ∃ is, Catalog.indexes c r.oid = .ok is

/-- **That a partition is refuted**: constraint exclusion is not off, the
partition has constraints, and they contradict the restrictions. -/
def Registry.refutes (g : Registry) (settings : Settings) (rs : List Restriction)
    (s : PartitionTree) : Bool :=
  !s.node.isRoot && settings.exclusion != .off && !(g.boundConstraints s.oid).isEmpty &&
    Constraint.refutedBy rs (g.boundConstraints s.oid)

/-! ## The paths of a relation -/

/-- A path that reads nothing scans nothing. -/
theorem Path.scans_eq_nil {path : Path} (h : path.isDummy = true) : path.scans = [] := by
  cases path with
  | dummy _ => rw [Path.scans]
  | _ => cases h

/-- What is left out because it reads nothing scans nothing. -/
theorem Path.flatMap_scans_filter (paths : List Path) :
    (paths.filter fun path => !path.isDummy).flatMap Path.scans = paths.flatMap Path.scans := by
  induction paths with
  | nil => rfl
  | cons path paths ih =>
    rw [List.filter_cons, List.flatMap_cons]
    split
    · rw [List.flatMap_cons, ih]
    · rename_i hdummy
      have hdummy' : path.isDummy = true := by simpa using hdummy
      rw [ih, Path.scans_eq_nil hdummy', List.nil_append]

namespace RelState

variable {rel : RelState} {settings : Settings}

theorem addBasePaths_paths : (rel.addBasePaths settings).paths ≠ [] :=
  List.append_ne_nil_of_right_ne_nil _ (List.cons_ne_nil _ _)

/-- **A relation without paths, read through those of its children.** It is known
to have no matching rows if none of them reads anything, and else it is read by
what they all scan. -/
structure Appends (rel : RelState) (children : List Path) (rel' : RelState) : Prop where
  entry : rel'.entry = rel.entry
  restrictions : rel'.restrictions = rel.restrictions
  constraints : rel'.constraints = rel.constraints
  isDummy : rel'.isDummy = children.all Path.isDummy
  nonempty : rel'.paths ≠ []
  paths : ∀ path ∈ rel'.paths,
    path.isDummy = rel'.isDummy ∧ path.scans = children.flatMap Path.scans

theorem addAppendPath_appends (hpaths : rel.paths = []) (hdummy : rel.isDummy = false)
    (children : List Path) :
    rel.Appends children (rel.addAppendPath (children.filter fun path => !path.isDummy)) := by
  have hscans := Path.flatMap_scans_filter children
  have hall : children.all Path.isDummy = (children.filter fun path => !path.isDummy).isEmpty := by
    rw [Bool.eq_iff_iff, List.isEmpty_iff, List.filter_eq_nil_iff]
    simp
  generalize children.filter (fun path => !path.isDummy) = read at hscans hall
  rcases read with _ | ⟨first, others⟩
  · refine ⟨rfl, rfl, rfl, hall.symm, List.cons_ne_nil _ _, fun path hpath => ?_⟩
    rw [List.mem_singleton.1 hpath]
    exact ⟨rfl, hscans⟩
  · refine ⟨rfl, rfl, rfl, hdummy.trans hall.symm, ?_, fun path hpath => ?_⟩
    · exact List.append_ne_nil_of_right_ne_nil _ (List.cons_ne_nil _ _)
    · unfold addAppendPath at hpath
      dsimp only [addPath] at hpath
      rw [hpaths, List.nil_append, List.mem_singleton] at hpath
      rw [hpath, Path.scans_append]
      exact ⟨hdummy.symm, hscans⟩

end RelState

/-- **What an entry's node adds to a relation**: as far as planning is concerned,
its constraints, if it is a partition. -/
theorem Registry.attachPartitioning_known {g : Registry} {state : PlanState} {rel : RelState}
    {n : Node} (hnode : g.nodeOfEntry? state rel.entry = some n) :
    (g.attachPartitioning state rel).entry = rel.entry ∧
      (g.attachPartitioning state rel).restrictions = rel.restrictions ∧
      (g.attachPartitioning state rel).paths = rel.paths ∧
      (g.attachPartitioning state rel).isDummy = rel.isDummy ∧
      (g.attachPartitioning state rel).constraints =
        if n.isRoot then rel.constraints else g.boundConstraints n.oid := by
  have hpartition : (g.partition n rel).entry = rel.entry ∧
      (g.partition n rel).restrictions = rel.restrictions ∧
      (g.partition n rel).paths = rel.paths ∧ (g.partition n rel).isDummy = rel.isDummy ∧
      (g.partition n rel).constraints = rel.constraints := by
    unfold partition
    split
    · exact ⟨rfl, rfl, rfl, rfl, rfl⟩
    · exact ⟨rfl, rfl, rfl, rfl, rfl⟩
  obtain ⟨hentry, hrestrictions, hpaths, hdummy, hconstraints⟩ := hpartition
  unfold attachPartitioning
  rw [hnode]
  dsimp only
  split
  · exact ⟨hentry, hrestrictions, hpaths, hdummy, hconstraints⟩
  · exact ⟨hentry, hrestrictions, hpaths, hdummy, rfl⟩

/-! ## Nodes that were planned -/

/-- **What planning nodes of a tree comes to**, each at its entry: the range
table has grown by what is below them, the children noted are the partitions
without rows, and the paths scan the leaves that are kept. -/
structure Draft.Planned (refuted : PartitionTree → Bool) (js : List RangeIndex)
    (ss : List PartitionTree) (d d' : Draft) (paths : List Path) : Prop where
  grown : d.state.Grown d'.state js (ss.flatMap PartitionTree.edges)
  pruned : ∃ noted, d'.pruned = d.pruned ++ noted ∧
    List.Forall₂ d'.state.At noted (ss.flatMap (PartitionTree.emptiedWithin refuted))
  scans : List.Forall₂ (fun scan u => d'.state.At scan.1 u) (paths.flatMap Path.scans)
    (ss.flatMap (PartitionTree.kept refuted))
  isDummy : paths.map Path.isDummy = ss.map (PartitionTree.emptied refuted)

namespace Draft

variable {refuted : PartitionTree → Bool} {ss : List PartitionTree} {js : List RangeIndex}
variable {d d' w : Draft} {path : Path} {paths : List Path} {settings : Settings}
variable {E : Error → Prop}

theorem Planned.nil (refuted : PartitionTree → Bool) (d : Draft) :
    Planned refuted [] [] d d [] :=
  ⟨.refl d.state [], ⟨[], (List.append_nil _).symm, .nil⟩, .nil, rfl⟩

/-- One node after the other. -/
theorem Planned.cons (h : Planned refuted [j] [s] d d' [path])
    (h' : Planned refuted js ss d' w paths) :
    Planned refuted (j :: js) (s :: ss) d w (path :: paths) := by
  have hextends := h'.grown.extends
  have hgrown := h.grown
  have hscans := h.scans
  obtain ⟨noted, hnoted, hat⟩ := h.pruned
  obtain ⟨noted', hnoted', hat'⟩ := h'.pruned
  rw [List.flatMap_singleton] at hgrown hat
  rw [List.flatMap_singleton, List.flatMap_singleton] at hscans
  refine ⟨?_, ⟨noted ++ noted', ?_, ?_⟩, ?_, ?_⟩
  · rw [List.flatMap_cons]
    exact hgrown.trans h'.grown (fun i hi => List.mem_cons.2 (Or.inl (List.mem_singleton.1 hi)))
      fun i hi => Or.inl (List.mem_cons_of_mem _ hi)
  · rw [hnoted', hnoted, List.append_assoc]
  · rw [List.flatMap_cons]
    exact List.rel_append (hat.imp fun _ _ h => h.extends hextends) hat'
  · rw [List.flatMap_cons, List.flatMap_cons]
    exact List.rel_append (hscans.imp fun _ _ h => h.extends hextends) h'.scans
  · rw [List.map_cons, List.map_cons, h'.isDummy]
    exact congrArg (· :: _) (List.cons.inj h.isDummy).1

/-- **Planning the nodes one after the other**, at entries that have no children
yet. -/
theorem mapM_planned {plan : RangeIndex → Edit Draft Path}
    (hplan : ∀ s ∈ ss, ∀ (j : RangeIndex) (w : Draft), w.state.settings = settings →
      w.state.Closed → w.state.Unexpanded j → w.state.At j s →
        Edit.Yields (plan j) w (fun path w' => Planned refuted [j] [s] w w' [path]) E) :
    ∀ {js : List RangeIndex} {d : Draft}, d.state.settings = settings → d.state.Closed →
      List.Forall₂ d.state.At js ss → js.Nodup → (∀ j ∈ js, d.state.Unexpanded j) →
        Edit.Yields (js.mapM plan) d (fun paths w => Planned refuted js ss d w paths) E := by
  induction ss with
  | nil =>
    intro js d _ _ hat _ _
    obtain rfl := List.forall₂_nil_right_iff.1 hat
    rw [List.mapM_nil]
    exact .pure (.nil refuted d)
  | cons s ss ih =>
    intro js d hsettings hclosed hat hnodup hfresh
    obtain ⟨j, js, hatj, hats, rfl⟩ := List.forall₂_cons_right_iff.1 hat
    obtain ⟨hother, hnodup⟩ := List.nodup_cons.1 hnodup
    rw [List.mapM_cons]
    refine .bind ((hplan s List.mem_cons_self j d hsettings hclosed
      (hfresh j List.mem_cons_self) hatj).imp fun path d' hd' => .bind ?_)
    have hextends := hd'.grown.extends
    have hats' : List.Forall₂ d'.state.At js ss := hats.imp fun _ _ h => h.extends hextends
    -- planning one node gives the entries of the others no children
    have hfresh' : ∀ k ∈ js, d'.state.Unexpanded k := by
      intro k hk
      obtain ⟨u, hatk⟩ : ∃ u, d.state.At k u := by
        obtain ⟨n, hn, rfl⟩ := List.getElem_of_mem hk
        exact ⟨_, hats.get hn (hats.length_eq ▸ hn)⟩
      refine hd'.grown.unexpanded (hfresh k (List.mem_cons_of_mem _ hk)) hatk.position_le ?_
      intro hmem
      exact hother (List.mem_singleton.1 hmem ▸ hk)
    exact (ih (fun u hu => hplan u (List.mem_cons_of_mem _ hu)) (hextends.settings.trans hsettings)
      (hd'.grown.closed hclosed) hats' hnodup hfresh').imp fun paths w hw => .pure (hd'.cons hw)

end Draft

/-- **A plan that unfolds a tree**: its entries stand for the root and, pair by
pair, for the partitions, its links are the pairs, the children noted as pruned
are the partitions without rows, and the path scans the leaves that are
kept. -/
structure Plan.Unfolds (refuted : PartitionTree → Bool) (t : PartitionTree) (plan : Plan) :
    Prop where
  entries : List.Forall₂ RangeEntry.StandsFor plan.state.entries (t :: t.edges.map Prod.snd)
  links : (plan.state.links.map fun l => (l.parentId, l.childId)) =
    t.edges.map fun e => (e.1.plannedAs, e.2.plannedAs)
  pruned : List.Forall₂ plan.state.At plan.pruned (t.emptiedWithin refuted)
  scans : List.Forall₂ (fun scan u => plan.state.At scan.1 u) plan.path.scans (t.kept refuted)
  isDummy : plan.path.isDummy = t.emptied refuted

/-- Planning the root alone, in a range table that holds its entry alone. -/
theorem Draft.Planned.unfolds {refuted : PartitionTree → Bool} {settings : Settings} {d : Draft}
    {path : Path}
    (h : Draft.Planned refuted [((PlanState.ofSettings settings).addEntry e).1] [t]
      ⟨((PlanState.ofSettings settings).addEntry e).2, [], []⟩ d [path])
    (he : e.StandsFor t) :
    Plan.Unfolds refuted t ⟨d.state, path, d.widths, d.pruned⟩ := by
  have hgrown := h.grown
  have hscans := h.scans
  obtain ⟨noted, hnoted, hat⟩ := h.pruned
  rw [List.flatMap_singleton] at hgrown hat
  rw [List.flatMap_singleton, List.flatMap_singleton] at hscans
  obtain ⟨entries, hentries, hstand⟩ := hgrown.entries
  obtain ⟨links, hlinks, hpairs, -⟩ := hgrown.links
  refine ⟨?_, ?_, ?_, hscans, (List.cons.inj h.isDummy).1⟩
  · show List.Forall₂ _ d.state.entries _
    rw [hentries]
    exact .cons he hstand
  · show (d.state.links.map _) = _
    rw [hlinks]
    exact hpairs
  · show List.Forall₂ _ d.pruned _
    rw [hnoted]
    exact hat

/-! ## Planning an entry -/

namespace Extension

variable {σ : Type} [Catalog σ] {x : Extension} {c : σ} {ctx : Context} {v : Inventory}
variable {r r₀ : Relation} {E : Error → Prop} {rs : List Restriction} {name : String}
variable {settings : Settings}

/-- What is known of a relation that stands for a node. -/
structure Knows (x : Extension) (rs : List Restriction) (s : PartitionTree) (i : RangeIndex)
    (rel : RelState) : Prop where
  entry : rel.entry = i
  restrictions : rel.restrictions = rs
  constraints : rel.constraints =
    if s.node.isRoot then [] else x.registry.boundConstraints s.oid

/-- What is known once the extension was asked too, and no path was found
yet. -/
structure Asked (x : Extension) (rs : List Restriction) (s : PartitionTree) (i : RangeIndex)
    (rel : RelState) : Prop where
  knows : x.Knows rs s i rel
  paths : rel.paths = []
  isDummy : rel.isDummy = false

/-- What has been found for a relation that stands for a node: its partitions
were planned, and its paths scan what is kept of them. -/
structure Found (x : Extension) (rs : List Restriction) (refuted : PartitionTree → Bool)
    (s : PartitionTree) (i : RangeIndex) (d d' : Draft) (rel : RelState) : Prop where
  knows : x.Knows rs s i rel
  grown : d.state.Grown d'.state [i] s.edges
  pruned : ∃ noted, d'.pruned = d.pruned ++ noted ∧
    List.Forall₂ d'.state.At noted (s.parts.flatMap (PartitionTree.emptiedWithin refuted))
  isDummy : rel.isDummy =
    (s.node.isPartitioned && s.parts.all (PartitionTree.emptied refuted))
  nonempty : rel.paths ≠ []
  paths : ∀ path ∈ rel.paths, path.isDummy = rel.isDummy ∧
    List.Forall₂ (fun scan u => d'.state.At scan.1 u) path.scans
      (if s.node.isPartitioned then s.parts.flatMap (PartitionTree.kept refuted) else [s])

/-- A relation is excluded where its node is refuted, unless that is known
already. -/
theorem Knows.isExcluded {rel : RelState} (h : x.Knows rs s i rel) :
    rel.isExcluded settings = (!rel.isDummy && x.registry.refutes settings rs s) := by
  have happlies : settings.exclusion.applies true = (settings.exclusion != .off) := by
    cases settings.exclusion with
    | _ => rfl
  unfold RelState.isExcluded Registry.refutes
  rw [h.constraints, h.restrictions, happlies]
  cases s.node.isRoot with
  | true => simp
  | false => simp [Bool.and_assoc, Bool.and_left_comm]

variable (hactive : ctx.window.isActive = true) (h : x.registry.Holds v) (ht : t ∈ v.trees)
variable (hlinked : t.Linked r₀) (hrelid : t.node.relid = r.oid)
variable (hserves : Catalog.Serves c name r)

section Asked

include hactive h ht hlinked hrelid hserves

theorem relationInfo_yields (hs : s ∈ t.subtrees) (he : p.entry? i = some e)
    (hstands : e.StandsFor s) :
    Edit.Yields ((x.planningOver c).relationInfo ctx e.relid e.inherits)
      ⟨p, .blank i e.relid e.label rs⟩
      (fun _ scope => scope.state = p ∧ x.Asked rs s i scope.rel) E := by
  have hrelid : e.relid = r.oid := by
    rw [hstands.relid, (hlinked.linkedAt s hs).relid, ← hrelid,
      (hlinked.linkedAt t t.self_mem_subtrees).relid]
  have hhost : Edit.Yields (PhysicalHost.relationInfo c e.relid e.inherits)
      ⟨p, .blank i e.relid e.label rs⟩
      (fun _ => PhysicalHost.Informed c e.relid e.inherits ⟨p, .blank i e.relid e.label rs⟩) E := by
    refine PhysicalHost.relationInfo_yields fun error herror => ?_
    obtain ⟨is, his⟩ := hserves.indexes
    rw [hrelid, hserves.relation, his] at herror
    rcases herror with herror | herror
    · cases herror
    · cases herror
  refine .bind (hhost.imp fun _ scope hscope => ?_)
  rw [if_pos hactive]
  refine .change ?_
  have hstate : scope.state = p := hscope.state
  -- with or without indexes, the same is known of the relation
  have hasked : ∀ rel : RelState, rel.entry = i → rel.restrictions = rs → rel.paths = [] →
      rel.constraints = [] → rel.isDummy = false →
        x.Asked rs s i (x.registry.attachPartitioning scope.state rel) := by
    intro rel hentry hrestrictions hpaths hconstraints hdummy
    have hnode : x.registry.nodeOfEntry? scope.state rel.entry = some s.node := by
      rw [Registry.nodeOfEntry?, hstate, hentry, he, Option.bind_some, hstands.logicalId]
      exact h.node?_plannedAs ht hlinked hs
    obtain ⟨hentry', hrestrictions', hpaths', hdummy', hconstraints'⟩ :=
      Registry.attachPartitioning_known hnode
    rw [hconstraints] at hconstraints'
    exact ⟨⟨hentry'.trans hentry, hrestrictions'.trans hrestrictions, hconstraints'⟩,
      hpaths'.trans hpaths, hdummy'.trans hdummy⟩
  unfold inject
  dsimp only
  split
  · exact ⟨hstate, hasked _ hscope.entry hscope.restrictions hscope.paths hscope.constraints
      hscope.isDummy⟩
  · exact ⟨hstate, hasked _ hscope.entry hscope.restrictions hscope.paths hscope.constraints
      hscope.isDummy⟩

end Asked

theorem partitionDesc_yields (oid : Oid) :
    Edit.Yields ((x.metadataOver c).partitionDesc ctx oid) () (fun _ _ => True) E := by
  show Edit.Yields (orNext ctx _ (pure none)) () _ E
  unfold orNext
  split
  · split
    · exact .pure trivial
    · exact .pure trivial
  · exact .pure trivial

section Choice

variable {d d' : Draft} {rel : RelState}

/-- **Adjusting what has been found**: the relation is known to have no matching
rows exactly if its node is without rows, and its paths scan the leaves that
are kept. -/
theorem Found.adjusted (hfound : x.Found rs (x.registry.refutes settings rs) s i d d' rel) :
    (rel.excludeRefuted settings).paths ≠ [] ∧
      (rel.excludeRefuted settings).isDummy =
        s.emptied (x.registry.refutes settings rs) ∧
      ∀ path ∈ (rel.excludeRefuted settings).paths,
        path.isDummy = s.emptied (x.registry.refutes settings rs) ∧
          List.Forall₂ (fun scan u => d'.state.At scan.1 u) path.scans
            (s.kept (x.registry.refutes settings rs)) := by
  have hemptied : s.emptied (x.registry.refutes settings rs) =
      (x.registry.refutes settings rs s || rel.isDummy) := by
    rw [PartitionTree.emptied_eq, hfound.isDummy]
  -- what reads nothing scans what is kept of a node without rows
  have hnothing : ∀ path : Path, path.isDummy = true →
      s.emptied (x.registry.refutes settings rs) = true →
        List.Forall₂ (fun scan u => d'.state.At scan.1 u) path.scans
          (s.kept (x.registry.refutes settings rs)) := by
    intro path hdummy hall
    rw [Path.scans_eq_nil hdummy, PartitionTree.kept_eq_nil_iff.2 hall]
    exact .nil
  unfold RelState.excludeRefuted
  rw [hfound.knows.isExcluded]
  cases hdummy : rel.isDummy with
  | true =>
    rw [hdummy, Bool.or_true] at hemptied
    rw [hemptied]
    refine ⟨hfound.nonempty, hdummy, fun path hpath => ?_⟩
    have hpath' := (hfound.paths path hpath).1.trans hdummy
    exact ⟨hpath', hnothing path hpath' hemptied⟩
  | false =>
    rw [hdummy, Bool.or_false] at hemptied
    rw [Bool.not_false, Bool.true_and, hemptied]
    cases hrefuted : x.registry.refutes settings rs s with
    | true =>
      rw [hrefuted] at hemptied
      refine ⟨List.cons_ne_nil _ _, rfl, fun path hpath => ?_⟩
      rw [List.mem_singleton.1 hpath]
      exact ⟨rfl, hnothing _ rfl hemptied⟩
    | false =>
      refine ⟨hfound.nonempty, hdummy, fun path hpath => ?_⟩
      obtain ⟨hpath', hscans⟩ := hfound.paths path hpath
      refine ⟨hpath'.trans hdummy, ?_⟩
      rw [PartitionTree.kept_eq, hrefuted, if_neg Bool.false_ne_true]
      exact hscans

include hactive

/-- What has been found is adjusted, one of the paths is chosen, and a
partition without rows is noted. -/
theorem choose_yields (hfound : x.Found rs (x.registry.refutes settings rs) s i d d' rel)
    (hat : d.state.At i s) (he : d.state.entry? i = some e)
    (hsettings : d.state.settings = settings) :
    Edit.Yields (do
        let rel ← Draft.onRel ((x.planningOver c).relationPaths ctx i) rel
        Draft.choose i e rel) d'
      (fun path w => Draft.Planned (x.registry.refutes settings rs) [i] [s] d w [path]) E := by
  have hsettings' : d'.state.settings = settings := hfound.grown.settings.trans hsettings
  obtain ⟨hnonempty, hdummy, hpaths⟩ := hfound.adjusted
  obtain ⟨entry, hentry, hstands⟩ := hat
  obtain rfl := Option.some.inj (he.symm.trans hentry)
  have hati : d'.state.At i s := ⟨e, hfound.grown.extends.entry? he, hstands⟩
  refine .bind (Draft.onRel_yields (.bind (.pure ?_)))
  rw [if_pos hactive]
  refine .change (Draft.choose_yields (fun path hpath => ?_) fun hnone => ?_)
  · dsimp only at hpath ⊢
    rw [hsettings'] at hpath ⊢
    obtain ⟨hpathdummy, hscans⟩ := hpaths path hpath
    refine ⟨?_, ?_, ?_, ?_⟩
    · rw [Draft.noting_state, List.flatMap_singleton]
      exact hfound.grown
    · rw [Draft.noting_state, List.flatMap_singleton, PartitionTree.emptiedWithin_eq]
      obtain ⟨noted, hnoted, hatnoted⟩ := hfound.pruned
      have hchild : ((rel.excludeRefuted settings).isDummy && e.parent.isSome) =
          (!s.node.isRoot && s.emptied (x.registry.refutes settings rs)) := by
        rw [hdummy, ← hstands.parent, Bool.and_comm]
        cases e.parent with
        | none => rfl
        | some _ => rfl
      unfold Draft.noting
      rw [hchild]
      split
      · refine ⟨noted ++ [i], ?_, List.rel_append hatnoted (.cons hati .nil)⟩
        rw [← List.append_assoc, ← hnoted]
      · refine ⟨noted, hnoted, ?_⟩
        rw [List.append_nil]
        exact hatnoted
    · rw [Draft.noting_state, List.flatMap_singleton, List.flatMap_singleton]
      exact hscans
    · exact congrArg (fun b => [b]) hpathdummy
  · rw [hsettings'] at hnone
    exact absurd hnone hnonempty

end Choice

section Found

variable {d : Draft} {rel : RelState} {plan : RangeIndex → Edit Draft Path}
variable {refuted : PartitionTree → Bool}

/-- The paths of a leaf scan it. -/
theorem found_addBasePaths (hkey : s.node.isPartitioned = false) (hparts : s.parts = [])
    (hat : d.state.At i s) (hasked : x.Asked rs s i rel) :
    x.Found rs refuted s i d d (rel.addBasePaths settings) where
  knows := ⟨hasked.knows.entry, hasked.knows.restrictions, hasked.knows.constraints⟩
  grown := by
    rw [PartitionTree.edges_eq, hparts]
    exact .refl d.state [i]
  pruned := ⟨[], (List.append_nil _).symm, by rw [hparts]; exact .nil⟩
  isDummy := by
    rw [hkey, Bool.false_and]
    exact hasked.isDummy
  nonempty := RelState.addBasePaths_paths
  paths path hpath := by
    obtain ⟨index?, hscan⟩ : ∃ index?, path.scans = [(i, index?)] := by
      rw [← hasked.knows.entry]
      rcases RelState.mem_addBasePaths hpath with hold | hseq | ⟨x, -, hindex⟩
      · rw [hasked.paths] at hold
        cases hold
      · exact ⟨_, hseq⟩
      · exact ⟨_, hindex⟩
    have hmem : (i, index?) ∈ path.scans := by
      rw [hscan]
      exact List.mem_singleton_self _
    refine ⟨(Path.isDummy_of_mem_scans hmem).trans hasked.isDummy.symm, ?_⟩
    rw [hkey, if_neg Bool.false_ne_true, hscan]
    exact .cons hat .nil

include hactive h ht hlinked

/-- **Finding the paths of a node**, whose partitions can be planned. -/
theorem findPaths_yields (hs : s ∈ t.subtrees) (he : d.state.entry? i = some e)
    (hstands : e.StandsFor s) (hclosed : d.state.Closed) (hfresh : d.state.Unexpanded i)
    (hasked : x.Asked rs s i rel) (hsettings : d.state.settings = settings)
    (hplan : ∀ part ∈ s.parts, ∀ (j : RangeIndex) (w : Draft), w.state.settings = settings →
      w.state.Closed → w.state.Unexpanded j → w.state.At j part →
        Edit.Yields (plan j) w (fun path w' => Draft.Planned refuted [j] [part] w w' [path]) E) :
    Edit.Yields (Draft.findPaths (x.metadataOver c) (x.planningOver c) ctx plan i e rel) d
      (fun rel' d' => x.Found rs refuted s i d d' rel') E := by
  have hat : d.state.At i s := ⟨e, he, hstands⟩
  unfold Draft.findPaths
  split
  · -- a partitioned node, read through its partitions
    rename_i hinherits
    have hpartitioned : s.node.isPartitioned = true := hstands.inherits ▸ hinherits
    refine .bind (Draft.expand_yields ((partitionDesc_yields _).imp fun desc _ _ => ?_))
    refine (expandChildren_yields hactive h ht hlinked hs hpartitioned hat hfresh desc).imp
      fun _ q hq => .bind ?_
    obtain ⟨js, hjs, hats, hnodup, hafter⟩ := hq.children
    rw [PlanState.childrenOf_eq_nil hfresh, List.nil_append] at hjs
    rw [hjs]
    refine (Draft.mapM_planned (d := { d with state := q }) hplan
      (hq.grown.settings.trans hsettings) (hq.grown.closed hclosed) hats hnodup fun j hj =>
        hq.unexpanded hclosed hat.position_le (hafter j hj)).imp fun paths w hw => .pure ?_
    have happends := RelState.addAppendPath_appends hasked.paths hasked.isDummy paths
    have hall : paths.all Path.isDummy = s.parts.all (PartitionTree.emptied refuted) := by
      have heq := congrArg (fun bs : List Bool => bs.all id) hw.isDummy
      simpa [List.all_map] using heq
    refine ⟨⟨happends.entry.trans hasked.knows.entry,
      happends.restrictions.trans hasked.knows.restrictions,
      happends.constraints.trans hasked.knows.constraints⟩, ?_, hw.pruned, ?_, happends.nonempty, ?_⟩
    · rw [PartitionTree.edges_eq]
      exact hq.grown.trans hw.grown (fun _ => id) fun j hj => Or.inr (hafter j hj)
    · rw [happends.isDummy, hall, hpartitioned, Bool.true_and]
    · intro path hpath
      obtain ⟨hdummy, hscans⟩ := happends.paths path hpath
      rw [hscans, if_pos hpartitioned]
      exact ⟨hdummy, hw.scans⟩
  · -- a leaf, read as the relation
    rename_i hinherits
    have hkey : s.node.isPartitioned = false :=
      hstands.inherits.symm.trans (Bool.eq_false_iff.2 hinherits)
    have hparts : s.parts = [] := hlinked.parts_eq_nil hs hkey
    exact .bind (.value (.pure (found_addBasePaths hkey hparts hat hasked)))

end Found

include hactive h ht hlinked hrelid hserves

/-- **Planning the entry of a node** that has no children yet cannot fail. -/
theorem planEntry_planned (fuel : Nat) : ∀ {i : RangeIndex} {s : PartitionTree} {d : Draft},
    s ∈ t.subtrees → s.height ≤ fuel → d.state.settings = settings → d.state.Closed →
      d.state.Unexpanded i → d.state.At i s →
        Edit.Yields (Draft.planEntry (x.metadataOver c) (x.planningOver c) ctx rs fuel i) d
          (fun path d' =>
            Draft.Planned (x.registry.refutes settings rs) [i] [s] d d' [path]) E := by
  induction fuel with
  | zero =>
    intro i s d _ hheight
    exact absurd s.height_pos (Nat.not_lt.2 hheight)
  | succ fuel ih =>
    intro i s d hs hheight hsettings hclosed hfresh hat
    obtain ⟨e, he, hstands⟩ := hat
    have hbelow : ∀ part ∈ s.parts, part.height ≤ fuel := PartitionTree.height_le_succ_iff.1 hheight
    rw [Draft.planEntry_succ]
    refine .bind (.value ?_)
    rw [he]
    refine .bind (Draft.onRel_yields ((relationInfo_yields hactive h ht hlinked hrelid hserves hs he
      hstands).imp fun _ scope hscope => ?_))
    rcases scope with ⟨state, rel⟩
    obtain ⟨rfl, hasked⟩ := hscope
    refine .bind (Draft.noteWidth_yields (.bind ?_))
    -- the partitions have fewer levels, so the induction plans them
    refine (findPaths_yields (d := { d with widths := Keyed.insert d.widths i rel.width })
      hactive h ht hlinked hs he hstands hclosed hfresh hasked hsettings
      fun part hpart j w hw hclosedw hfreshj hatj =>
        ih (PartitionTree.parts_mem_subtrees hs hpart) (hbelow part hpart) hw hclosedw hfreshj
          hatj).imp fun rel' d' hfound => ?_
    -- what is found does not depend on the widths noted
    have hfound' : x.Found rs (x.registry.refutes settings rs) s i d d' rel' :=
      ⟨hfound.knows, hfound.grown, hfound.pruned, hfound.isDummy, hfound.nonempty, hfound.paths⟩
    exact choose_yields hactive hfound' ⟨e, he, hstands⟩ he hsettings

/-- **Planning a query of a shadowed relation**, if its partitions are read,
cannot fail, and the plan unfolds the tree. -/
theorem plan_unfolds {q : Query} (honly : q.only = false) (hquals : Query.resolve r q.quals = .ok rs)
    (hname : q.relation = name) (settings : Settings) :
    Edit.Yields (q.plan c (x.metadataOver c) (x.planningOver c) ctx settings) ()
      (fun plan _ => plan.Unfolds (x.registry.refutes settings rs) t) E := by
  have hbind : q.bind c = .ok (r, rs) := by
    unfold Query.bind
    rw [hname, hserves.named]
    dsimp only
    rw [hquals]
    rfl
  unfold Query.plan
  rw [hbind]
  refine .bind (.ofExcept (fun found hfound => .bind ?_) fun _ herror => nomatch herror)
  obtain rfl := Except.ok.inj hfound
  -- a shadowed relation has children
  have hreads : Edit.Yields (q.readsChildren (x.metadataOver c) ctx r) ()
      (fun inherits _ => inherits = true) E := by
    unfold Query.readsChildren
    rw [honly, if_neg Bool.false_ne_true]
    split
    · exact .pure rfl
    · show Edit.Yields (orNext ctx _ _) () _ E
      have hshadowed : x.registry.isShadowed r.oid = true := h.isShadowed_iff.2 ⟨t, ht, hrelid⟩
      unfold orNext hasPartitions
      rw [if_pos hactive, hshadowed, Bool.true_or, if_pos rfl]
      exact .pure rfl
  refine hreads.imp fun inherits _ hinherits => .bind (.lend ?_)
  have hstands : (RangeEntry.ofRelation r.oid r.kind r.name inherits).StandsFor t :=
    ⟨hrelid.symm, hinherits.trans hlinked.key.symm,
      (PartitionTree.partition?_of_isRoot hlinked.isRoot_self).symm, hlinked.isRoot_self.symm⟩
  have hat : ((PlanState.ofSettings settings).addEntry
      (.ofRelation r.oid r.kind r.name inherits)).2.At
        ((PlanState.ofSettings settings).addEntry (.ofRelation r.oid r.kind r.name inherits)).1 t :=
    ⟨_, rfl, hstands⟩
  refine (planEntry_planned hactive h ht hlinked hrelid hserves Draft.maxDepth t.self_mem_subtrees
    (t.height_le_count (h.oids_nodup_of_mem ht)) rfl (fun l hl => by cases hl)
    (fun l hl => by cases hl) hat).imp fun path draft hdraft => ?_
  exact .pure (hdraft.unfolds hstands)

end Extension

end WhatIf
