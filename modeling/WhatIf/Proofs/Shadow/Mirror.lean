import WhatIf.Proofs.Partition.Descent
import WhatIf.Proofs.Plan.Entry
import WhatIf.Proofs.Registry.Routing
import WhatIf.Proofs.Shadow.Concealment
/-!
# Shadow — a partition tree in the range table

While the window is active, the entries below that of a shadowed relation stand
for the nodes of its tree. The range table only grows by entries that stand for
partitions, each linked to that of the node it is a partition of (`Grown`).
Expanding an entry fails for no reason, and adds exactly the partitions of its
node, in order (`Expanded`).
-/

namespace WhatIf

variable {t s u part : PartitionTree} {p q w : PlanState} {i j : RangeIndex} {e : RangeEntry}
variable {is js : List RangeIndex} {es es' : List (PartitionTree × PartitionTree)}

/-- **An entry that stands for a node of a tree.** It reads the shadowed
relation; the entry of the relation itself stands for the root. -/
structure RangeEntry.StandsFor (e : RangeEntry) (s : PartitionTree) : Prop where
  relid : e.relid = s.node.relid
  inherits : e.inherits = s.node.isPartitioned
  partition : e.partition = s.partition?
  parent : e.parent.isNone = s.node.isRoot

theorem RangeEntry.StandsFor.logicalId (h : e.StandsFor s) : e.logicalId = s.plannedAs := by
  rw [RangeEntry.logicalId, h.partition, h.relid]
  rfl

namespace PlanState

/-- That the entry at a position stands for a node. -/
def At (p : PlanState) (i : RangeIndex) (s : PartitionTree) : Prop :=
  ∃ e, p.entry? i = some e ∧ e.StandsFor s

/-- **A range table grown by pairs of a node and one of its partitions.** It has
an entry more for each partition, and a link; the links lead from given
entries or from those added. -/
structure Grown (p q : PlanState) (is : List RangeIndex)
    (es : List (PartitionTree × PartitionTree)) : Prop where
  settings : q.settings = p.settings
  entries : ∃ added, q.entries = p.entries ++ added ∧
    List.Forall₂ RangeEntry.StandsFor added (es.map Prod.snd)
  links : ∃ added, q.links = p.links ++ added ∧
    (added.map fun l => (l.parentId, l.childId)) = (es.map fun e => (e.1.plannedAs, e.2.plannedAs)) ∧
      ∀ l ∈ added, (l.parent ∈ is ∨ p.entries.length < l.parent.position) ∧
        l.parent.position ≤ q.entries.length

/-- That every link leads from an entry. -/
def Closed (p : PlanState) : Prop := ∀ l ∈ p.links, l.parent.position ≤ p.entries.length

/-- That an entry has no children yet. -/
def Unexpanded (p : PlanState) (i : RangeIndex) : Prop := ∀ l ∈ p.links, l.parent ≠ i

/-! ## Growing -/

theorem At.extends (h : p.At i s) (hpq : p.Extends q) : q.At i s := by
  obtain ⟨e, he, hstands⟩ := h
  exact ⟨e, hpq.entry? he, hstands⟩

theorem At.position_le (h : p.At i s) : i.position ≤ p.entries.length := by
  obtain ⟨e, he, -⟩ := h
  unfold PlanState.entry? at he
  split at he
  · cases he
  · have hslot := (List.getElem?_eq_some_iff.1 he).1
    unfold RangeIndex.slot at hslot
    omega

theorem Grown.extends (h : p.Grown q is es) : p.Extends q where
  entries := by
    obtain ⟨added, hadded, -⟩ := h.entries
    exact ⟨added, hadded.symm⟩
  links := by
    obtain ⟨added, hadded, -⟩ := h.links
    exact ⟨added, hadded.symm⟩
  settings := h.settings

theorem Grown.length_le (h : p.Grown q is es) : p.entries.length ≤ q.entries.length :=
  h.extends.entries.length_le

theorem Grown.refl (p : PlanState) (is : List RangeIndex) : p.Grown p is [] :=
  ⟨rfl, ⟨[], (List.append_nil _).symm, .nil⟩, ⟨[], (List.append_nil _).symm, rfl, by simp⟩⟩

/-- **Growing twice.** What is grown from the second time may be what was added
the first time. -/
theorem Grown.trans {ks : List RangeIndex} (h : p.Grown q is es) (h' : q.Grown w js es')
    (his : ∀ i ∈ is, i ∈ ks) (hjs : ∀ j ∈ js, j ∈ ks ∨ p.entries.length < j.position) :
    p.Grown w ks (es ++ es') := by
  have hlength := h.length_le
  have hlength' := h'.length_le
  obtain ⟨entries, hentries, hstand⟩ := h.entries
  obtain ⟨entries', hentries', hstand'⟩ := h'.entries
  obtain ⟨links, hlinks, hpairs, hfrom⟩ := h.links
  obtain ⟨links', hlinks', hpairs', hfrom'⟩ := h'.links
  refine ⟨h'.settings.trans h.settings, ⟨entries ++ entries', ?_, ?_⟩, links ++ links', ?_, ?_, ?_⟩
  · rw [hentries', hentries, List.append_assoc]
  · rw [List.map_append]
    exact List.rel_append hstand hstand'
  · rw [hlinks', hlinks, List.append_assoc]
  · rw [List.map_append, List.map_append, hpairs, hpairs']
  · intro l hl
    rcases List.mem_append.1 hl with hl | hl
    · exact ⟨(hfrom l hl).1.imp (his _) id, (hfrom l hl).2.trans hlength'⟩
    · refine ⟨?_, (hfrom' l hl).2⟩
      rcases (hfrom' l hl).1 with hmem | hlt
      · exact hjs _ hmem
      · exact Or.inr (hlength.trans_lt hlt)

theorem Grown.closed (h : p.Grown q is es) (hp : p.Closed) : q.Closed := by
  have hlength := h.length_le
  obtain ⟨links, hlinks, -, hfrom⟩ := h.links
  intro l hl
  rw [hlinks] at hl
  rcases List.mem_append.1 hl with hl | hl
  · exact (hp l hl).trans hlength
  · exact (hfrom l hl).2

/-- Growing from other entries gives an entry no children. -/
theorem Grown.unexpanded (h : p.Grown q is es) (hj : p.Unexpanded j)
    (hle : j.position ≤ p.entries.length) (hother : j ∉ is) : q.Unexpanded j := by
  obtain ⟨links, hlinks, -, hfrom⟩ := h.links
  intro l hl heq
  rw [hlinks] at hl
  rcases List.mem_append.1 hl with hl | hl
  · exact hj l hl heq
  · rcases (hfrom l hl).1 with hmem | hlt
    · exact hother (heq ▸ hmem)
    · rw [heq] at hlt
      omega

/-! ## Adding children -/

theorem hasChild_iff {oid : Oid} :
    p.hasChild i oid = true ↔ ∃ l ∈ p.links, l.parent = i ∧ l.childId = oid := by
  simp [hasChild]

theorem childrenOf_eq_nil (h : p.Unexpanded i) : p.childrenOf i = [] := by
  unfold childrenOf
  rw [List.filter_eq_nil_iff.2 fun l hl heq => h l hl (beq_iff_eq.1 heq), List.map_nil]

/-- An entry that was added is found where it was added. -/
theorem entry?_addChild (p : PlanState) (i : RangeIndex) (e : RangeEntry) :
    PlanState.entry? (p.addChild i e).2 (p.addChild i e).1 = some { e with parent := some i } := by
  unfold PlanState.entry?
  rw [if_neg]
  · show (p.entries ++ [_])[(p.entries ++ [_]).length - 1]? = _
    simp
  · show (p.entries ++ [_]).length ≠ 0
    simp

theorem position_addChild (p : PlanState) (i : RangeIndex) (e : RangeEntry) :
    (p.addChild i e).1.position = p.entries.length + 1 := by
  show (p.entries ++ [_]).length = _
  simp

/-- **An entry after some of its partitions were added**, each as a child. -/
structure Expanded (s : PartitionTree) (i : RangeIndex) (parts : List PartitionTree)
    (p q : PlanState) : Prop where
  grown : p.Grown q [i] (parts.map fun c => (s, c))
  links : ∀ l ∈ q.links, l ∈ p.links ∨ l.parent = i ∧ l.childId ∈ parts.map PartitionTree.oid
  children : ∃ js, q.childrenOf i = p.childrenOf i ++ js ∧ List.Forall₂ q.At js parts ∧ js.Nodup ∧
    ∀ j ∈ js, p.entries.length < j.position

theorem Expanded.refl (s : PartitionTree) (i : RangeIndex) (p : PlanState) :
    Expanded s i [] p p :=
  ⟨.refl p [i], fun _ => Or.inl, [], (List.append_nil _).symm, .nil, List.nodup_nil, by simp⟩

/-- Adding one partition. -/
theorem expanded_addChild (hat : p.At i s) (he : { e with parent := some i }.StandsFor part)
    (hroot : part.node.isRoot = false) : Expanded s i [part] p (p.addChild i e).2 := by
  have hposition := p.position_addChild i e
  have hfound := p.entry?_addChild i e
  have hle := hat.position_le
  obtain ⟨entry, hentry, hstands⟩ := hat
  have hlogical : e.logicalId = part.plannedAs := he.logicalId
  have hlinks : (p.addChild i e).2.links =
      p.links ++ [⟨i, (p.addChild i e).1, s.plannedAs, part.plannedAs⟩] := by
    rw [← hlogical, ← hstands.logicalId]
    unfold addChild
    rw [hentry]
    rfl
  have hlength : (p.addChild i e).2.entries.length = p.entries.length + 1 := hposition
  refine ⟨⟨rfl, ⟨_, rfl, .cons he .nil⟩, _, hlinks, rfl, ?_⟩, ?_, ?_⟩
  · intro l hl
    rw [List.mem_singleton.1 hl, hlength]
    exact ⟨Or.inl (List.mem_singleton_self _), hle.trans (Nat.le_succ _)⟩
  · intro l hl
    rw [hlinks] at hl
    refine (List.mem_append.1 hl).imp id fun hl => ?_
    rw [List.mem_singleton.1 hl]
    exact ⟨rfl, List.mem_singleton.2 (PartitionTree.plannedAs_of_not_isRoot hroot)⟩
  · refine ⟨[(p.addChild i e).1], ?_, .cons ⟨_, hfound, he⟩ .nil, List.nodup_singleton _, ?_⟩
    · unfold childrenOf
      rw [hlinks, List.filter_append, List.map_append]
      simp
    · intro j hj
      rw [List.mem_singleton.1 hj, hposition]
      exact Nat.lt_succ_self _

/-- Adding more partitions. -/
theorem Expanded.cons {parts : List PartitionTree} (h : Expanded s i [part] p q)
    (h' : Expanded s i parts q w) : Expanded s i (part :: parts) p w := by
  have hlength := h.grown.length_le
  obtain ⟨js, hjs, hat, -, hafter⟩ := h.children
  obtain ⟨js', hjs', hat', hnodup', hafter'⟩ := h'.children
  obtain ⟨j, js₀, hatj, hnil, rfl⟩ := List.forall₂_cons_right_iff.1 hat
  obtain rfl := List.forall₂_nil_right_iff.1 hnil
  refine ⟨h.grown.trans h'.grown (fun _ => id) fun _ => Or.inl, ?_, j :: js', ?_, ?_, ?_, ?_⟩
  · intro l hl
    rcases h'.links l hl with hl | ⟨hparent, hid⟩
    · refine (h.links l hl).imp id fun hnew => ⟨hnew.1, ?_⟩
      exact List.mem_cons.2 (Or.inl (List.mem_singleton.1 hnew.2))
    · exact Or.inr ⟨hparent, List.mem_cons_of_mem _ hid⟩
  · rw [hjs', hjs, List.append_assoc, List.singleton_append]
  · exact .cons (hatj.extends h'.grown.extends) hat'
  · -- the entries added later come after those that were there
    refine List.nodup_cons.2 ⟨fun hmem => ?_, hnodup'⟩
    exact absurd hatj.position_le (Nat.not_le.2 (hafter' j hmem))
  · intro k hk
    rcases List.mem_cons.1 hk with rfl | hk
    · exact hafter _ (List.mem_singleton_self _)
    · exact hlength.trans_lt (hafter' k hk)

/-- The entries of the partitions have no children yet. -/
theorem Expanded.unexpanded {parts : List PartitionTree} (h : Expanded s i parts p q)
    (hp : p.Closed) (hi : i.position ≤ p.entries.length) (hj : p.entries.length < j.position) :
    q.Unexpanded j := by
  rintro l hl rfl
  rcases h.links l hl with hl | ⟨heq, -⟩
  · exact absurd (hp l hl) (Nat.not_le.2 hj)
  · rw [heq] at hj
    omega

end PlanState

/-! ## What an entry stands for -/

section Holds

variable {g : Registry} {v : Inventory} {r : Relation} (h : g.Holds v) (ht : t ∈ v.trees)
variable (hlinked : t.Linked r)

include h ht hlinked

/-- The registry finds a node by the identifier it is planned under. -/
theorem Registry.Holds.node?_plannedAs (hs : s ∈ t.subtrees) :
    g.node? s.plannedAs = some s.node := by
  by_cases hroot : s.node.isRoot = true
  · obtain rfl := hlinked.eq_of_isRoot hs hroot
    rw [PartitionTree.plannedAs_of_isRoot hroot]
    exact h.node?_relid ht
  · rw [PartitionTree.plannedAs_of_not_isRoot (Bool.eq_false_iff.2 hroot)]
    exact h.node?_subtree ht hs

/-- No two nodes are planned under one identifier. -/
theorem Registry.Holds.eq_of_plannedAs (hs : s ∈ t.subtrees) (hu : u ∈ t.subtrees)
    (heq : s.plannedAs = u.plannedAs) : s = u := by
  have hnode := h.node?_plannedAs ht hlinked hs
  rw [heq, h.node?_plannedAs ht hlinked hu] at hnode
  exact h.eq_of_oid ht hs hu (congrArg (fun n => n.oid) (Option.some.inj hnode).symm)

end Holds

/-! ## Expansion -/

namespace Extension

variable {σ : Type} [Catalog σ] {x : Extension} {c : σ} {ctx : Context} {v : Inventory}
variable {r : Relation} {E : Error → Prop}
variable (hactive : ctx.window.isActive = true) (h : x.registry.Holds v) (ht : t ∈ v.trees)
variable (hlinked : t.Linked r)

include hactive h ht hlinked

/-- The entry of a partition is finished as one that stands for it. -/
theorem finishChild_yields (hs : s ∈ t.subtrees) (hpart : part ∈ s.parts) (parentId : Oid) :
    Edit.Yields ((x.metadataOver c).finishChild ctx parentId part.oid) e
      (fun _ e' => e' = e.standFor part.node) E := by
  refine .bind (.pure ?_)
  have hnode := h.node?_subtree ht (PartitionTree.parts_mem_subtrees hs hpart)
  -- only the entries of partitions are finished so, not that of the root
  have hroot := hlinked.isRoot_of_mem_parts hs hpart
  unfold Extension.finishChild
  rw [if_pos hactive, hnode, Option.filter_some, hroot]
  exact .change rfl

/-- Adding the entry of one partition that the parent does not have yet. -/
theorem addOneChild_yields (hs : s ∈ t.subtrees) (hpart : part ∈ s.parts) (parentId : Oid)
    (hat : p.At i s) (hnew : p.hasChild i part.oid = false) :
    Edit.Yields (PlanState.addOneChild ((x.metadataOver c).finishChild ctx parentId) i e part.oid) p
      (fun _ q => PlanState.Expanded s i [part] p q) E := by
  have hroot := hlinked.isRoot_of_mem_parts hs hpart
  unfold PlanState.addOneChild
  refine .bind (.lend ?_)
  refine (finishChild_yields hactive h ht hlinked hs hpart parentId).imp fun _ e' he' => ?_
  have hstands : { e' with parent := some i }.StandsFor part := by
    refine ⟨he' ▸ rfl, he' ▸ rfl, ?_, hroot.symm⟩
    rw [PartitionTree.partition?_of_not_isRoot hroot, he']
    rfl
  have hlogical : e'.logicalId = part.oid :=
    hstands.logicalId.trans (PartitionTree.plannedAs_of_not_isRoot hroot)
  refine .bind (.value ?_)
  rw [hlogical, hnew, if_neg Bool.false_ne_true]
  exact .bind (.put (.pure (PlanState.expanded_addChild hat hstands hroot)))

theorem addEachChild_yields (hs : s ∈ t.subtrees) (parentId : Oid) (parts : List PartitionTree) :
    ∀ {p : PlanState}, (∀ part ∈ parts, part ∈ s.parts) → (parts.map PartitionTree.oid).Nodup →
      (∀ part ∈ parts, p.hasChild i part.oid = false) → p.At i s →
      Edit.Yields (PlanState.addEachChild ((x.metadataOver c).finishChild ctx parentId) i e
          (parts.map PartitionTree.oid)) p
        (fun _ q => PlanState.Expanded s i parts p q) E := by
  induction parts with
  | nil => exact fun _ _ _ _ => .pure (.refl s i _)
  | cons part parts ih =>
    intro p hparts hnodup hnew hat
    rw [List.map_cons, List.nodup_cons] at hnodup
    rw [List.map_cons, PlanState.addEachChild]
    refine .bind ((addOneChild_yields hactive h ht hlinked hs (hparts part List.mem_cons_self)
      parentId hat (hnew part List.mem_cons_self)).imp fun _ q hq => .bind ?_)
    -- the link added leads to another partition
    have hstill : ∀ part' ∈ parts, q.hasChild i part'.oid = false := by
      intro part' hpart'
      refine Bool.eq_false_iff.2 fun hchild => ?_
      obtain ⟨l, hl, hparent, hid⟩ := PlanState.hasChild_iff.1 hchild
      rcases hq.links l hl with hold | ⟨-, hadded⟩
      · exact Bool.eq_false_iff.1 (hnew part' (List.mem_cons_of_mem _ hpart'))
          (PlanState.hasChild_iff.2 ⟨l, hold, hparent, hid⟩)
      · rw [hid] at hadded
        exact hnodup.1 (List.mem_singleton.1 hadded ▸ List.mem_map_of_mem hpart')
    exact (ih (fun part' hpart' => hparts part' (List.mem_cons_of_mem _ hpart')) hnodup.2 hstill
      (hat.extends hq.grown.extends)).imp fun _ w hw => .pure (hq.cons hw)

omit hactive in
/-- The partitions of the node an entry stands for. -/
theorem childNodes?_eq (hs : s ∈ t.subtrees) (he : e.StandsFor s)
    (hpartitioned : s.node.isPartitioned = true) :
    x.registry.childNodes? e.logicalId = some (s.parts.map PartitionTree.node) := by
  rw [Registry.childNodes?, Registry.partitioned?, he.logicalId, h.node?_plannedAs ht hlinked hs,
    Option.filter_some, if_pos hpartitioned, Option.map_some, (hlinked.linkedAt s hs).children,
    List.filterMap_map, ← List.filterMap_eq_map]
  refine congrArg some (List.filterMap_congr fun part hpart => ?_)
  exact h.node?_subtree ht (PartitionTree.parts_mem_subtrees hs hpart)

/-- **Expanding the entry of a partitioned node** gives each of its partitions
an entry. -/
theorem expandChildren_yields (hs : s ∈ t.subtrees) (hpartitioned : s.node.isPartitioned = true)
    (hat : p.At i s) (hfresh : p.Unexpanded i) (desc : Option PartitionDesc) :
    Edit.Yields ((x.planningOver c).expandChildren ctx i desc) p
      (fun _ q => PlanState.Expanded s i s.parts p q) E := by
  obtain ⟨e, he, hstands⟩ := hat
  show Edit.Yields (if ctx.window.isActive then _ else _) p _ E
  rw [if_pos hactive]
  unfold Extension.expandChildren
  refine .bind (.value ?_)
  rw [he]
  dsimp only
  rw [childNodes?_eq h ht hlinked hs hstands hpartitioned]
  have hoids : ((s.parts.map PartitionTree.node).map fun n => n.oid) =
      s.parts.map PartitionTree.oid := by
    rw [List.map_map]
    rfl
  dsimp only
  rw [hoids]
  refine .bind ?_
  unfold PlanState.expandInto
  refine .bind (.value ?_)
  rw [he]
  have hnodup : (s.parts.map PartitionTree.oid).Nodup :=
    PartitionTree.map_parts_nodup (h.oids_nodup_of_mem ht) hs
  have hnew : ∀ part ∈ s.parts, p.hasChild i part.oid = false := by
    intro part _
    refine Bool.eq_false_iff.2 fun hchild => ?_
    obtain ⟨l, hl, hparent, -⟩ := PlanState.hasChild_iff.1 hchild
    exact hfresh l hl hparent
  exact (addEachChild_yields hactive h ht hlinked hs _ s.parts (fun _ hpart => hpart) hnodup hnew
    ⟨e, he, hstands⟩).imp fun _ q hq => .pure hq

end Extension

end WhatIf
