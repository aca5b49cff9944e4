import WhatIf.Proofs.Catalog.Inheritors
import WhatIf.Proofs.Plan.Enforced
import WhatIf.Proofs.Shadow.Expansion
import WhatIf.Proofs.Shadow.Metadata
/-!
# Plan — what the restrictions are bound to

The conjuncts of a query are bound once, to the columns of the relation it names,
and every scan of the plan is given these restrictions. The relation it reads is
that one or one below it, down any number of inheritance links, whether or not the
entry stands for a partition (`RangeEntry.Under`). So a restriction names a column
of the relation it is checked on where every child has the columns of its parent,
under the same numbers and names (`plan_binds`). A child that numbers its columns
in another way is read by tests on the wrong ones (`plan_misbinds`).
-/

namespace WhatIf

/-! ## Columns -/

/-- **That a restriction names a column of a relation**: the relation has a column
of its number, and this goes by its name. -/
def Restriction.NamesColumnOf (s : Restriction) (r : Relation) : Prop :=
  ∃ column ∈ r.columns, column.attnum = s.attnum ∧ column.name = s.column

instance (s : Restriction) (r : Relation) : Decidable (s.NamesColumnOf r) :=
  inferInstanceAs (Decidable (∃ column ∈ r.columns, column.attnum = s.attnum ∧
    column.name = s.column))

/-- That a relation has the columns of another under the same numbers and names. It
may have others, and list them in any order. -/
def Relation.HasColumnsOf (r' r : Relation) : Prop :=
  ∀ column ∈ r.columns, ∃ column' ∈ r'.columns,
    column'.attnum = column.attnum ∧ column'.name = column.name

instance (r' r : Relation) : Decidable (r'.HasColumnsOf r) :=
  inferInstanceAs (Decidable (∀ column ∈ r.columns, ∃ column' ∈ r'.columns,
    column'.attnum = column.attnum ∧ column'.name = column.name))

theorem Relation.HasColumnsOf.refl (r : Relation) : r.HasColumnsOf r :=
  fun column hcolumn => ⟨column, hcolumn, rfl, rfl⟩

theorem Relation.HasColumnsOf.trans {r r' r'' : Relation} (h : r''.HasColumnsOf r')
    (h' : r'.HasColumnsOf r) : r''.HasColumnsOf r := by
  intro column hcolumn
  obtain ⟨column', hcolumn', hattnum', hname'⟩ := h' column hcolumn
  obtain ⟨column'', hcolumn'', hattnum, hname⟩ := h column' hcolumn'
  exact ⟨column'', hcolumn'', hattnum.trans hattnum', hname.trans hname'⟩

namespace Restriction

variable {s : Restriction} {r r' : Relation}

theorem NamesColumnOf.of_hasColumnsOf (h : s.NamesColumnOf r) (hr : r'.HasColumnsOf r) :
    s.NamesColumnOf r' := by
  obtain ⟨column, hcolumn, hattnum, hname⟩ := h
  obtain ⟨column', hcolumn', hattnum', hname'⟩ := hr column hcolumn
  exact ⟨column', hcolumn', hattnum'.trans hattnum, hname'.trans hname⟩

/-- A conjunct is bound to a column of its relation. -/
theorem namesColumnOf_of_resolve? {q : Qual} (h : q.resolve? r = some s) : s.NamesColumnOf r := by
  obtain ⟨column, hcolumn, rfl⟩ := Option.map_eq_some_iff.1 h
  exact ⟨column, List.mem_of_find?_eq_some hcolumn, rfl, rfl⟩

end Restriction

/-! ## Below a relation -/

namespace Catalog

variable {σ : Type} [Catalog σ] {c : σ} {start oid : Oid} {found queue oids : List Oid}

/-- **That inheritance links lead down to an identifier**, as the catalog answers
for each in turn. -/
inductive Below (c : σ) (start : Oid) : Oid → Prop
  | start : Below c start start
  | link {parent child : Oid} {oids : List Oid} (h : Below c start parent)
    (hchildren : Catalog.children c parent = .ok oids) (hchild : child ∈ oids) :
    Below c start child

theorem Below.trans {middle : Oid} (h : Below c start middle) (h' : Below c middle oid) :
    Below c start oid := by
  induction h' with
  | start => exact h
  | link _ hchildren hchild ih => exact ih.link hchildren hchild

/-- **That what lies below a relation conforms to it**: each child has the columns of
its parent. The relation itself is found by its identifier. -/
structure Conforms (c : σ) (r : Relation) : Prop where
  relation : Catalog.relation c r.oid = .ok r
  child : ∀ oid parent oids, Below c r.oid oid → Catalog.relation c oid = .ok parent →
    Catalog.children c oid = .ok oids →
      ∀ child ∈ oids, ∃ r', Catalog.relation c child = .ok r' ∧ r'.HasColumnsOf parent

/-- **What lies below has the columns**, however many links lead there. -/
theorem Conforms.hasColumnsOf {r : Relation} (hc : Conforms c r) (h : Below c r.oid oid) :
    ∃ r', Catalog.relation c oid = .ok r' ∧ r'.HasColumnsOf r := by
  induction h with
  | start => exact ⟨r, hc.relation, .refl r⟩
  | link hbelow hchildren hchild ih =>
    obtain ⟨r', hr', hcolumns'⟩ := ih
    obtain ⟨r'', hr'', hcolumns''⟩ := hc.child _ _ _ hbelow hr' hchildren _ hchild
    exact ⟨r'', hr'', hcolumns''.trans hcolumns'⟩

/-- A walk finds what lies below where it started. -/
theorem below_of_mem_walk (fuel : Nat) (hfound : ∀ o ∈ found, Below c start o)
    (hqueue : ∀ o ∈ queue, Below c start o)
    (h : PhysicalHost.walk c fuel found queue = .ok oids) : ∀ o ∈ oids, Below c start o := by
  induction fuel generalizing found queue with
  | zero =>
    rw [PhysicalHost.walk] at h
    exact Except.ok.inj h ▸ hfound
  | succ fuel ih =>
    rcases queue with _ | ⟨front, rest⟩
    · rw [PhysicalHost.walk] at h
      · exact Except.ok.inj h ▸ hfound
      · exact Nat.succ_ne_zero fuel
    · rw [PhysicalHost.walk] at h
      split at h
      · cases h
      rename_i children hchildren
      have hnew : ∀ o ∈ PhysicalHost.fresh found children, Below c start o := fun o ho =>
        (hqueue front List.mem_cons_self).link hchildren (MemoryCatalog.mem_fresh_iff.1 ho).1
      refine ih (fun o ho => ?_) (fun o ho => ?_) h
      · exact (List.mem_append.1 ho).elim (hfound o) (hnew o)
      · exact (List.mem_append.1 ho).elim (fun ho => hqueue o (List.mem_cons_of_mem _ ho)) (hnew o)

theorem below_of_mem_inheritors (h : PhysicalHost.inheritors c start = .ok oids) :
    ∀ o ∈ oids, Below c start o := by
  have hstart : ∀ o ∈ [start], Below c start o := fun o ho =>
    List.mem_singleton.1 ho ▸ .start
  exact below_of_mem_walk Oid.count hstart hstart h

end Catalog

/-- In a catalog in memory whose relations have identifiers of their own it is enough
to look at the links. -/
theorem MemoryCatalog.conforms {c : MemoryCatalog} (hoids : (c.relations.map fun r => r.oid).Nodup)
    {r : Relation} (hr : r ∈ c.relations) (hlinks : ∀ link ∈ c.links, ∀ parent ∈ c.relations,
      parent.oid = link.1 → ∃ r' ∈ c.relations, r'.oid = link.2 ∧ r'.HasColumnsOf parent) :
    Catalog.Conforms c r where
  relation := (relation_iff_of_nodup hoids).2 ⟨hr, rfl⟩
  child oid parent oids _ hparent hchildren child hchild := by
    obtain ⟨hmem, hoid⟩ := (relation_iff_of_nodup hoids).1 hparent
    obtain rfl : c.childrenOf oid = oids := Except.ok.inj hchildren
    obtain ⟨r', hmem', hoid', hcolumns⟩ := hlinks _ (mem_childrenOf_iff.1 hchild) _ hmem hoid
    exact ⟨r', (relation_iff_of_nodup hoids).2 ⟨hmem', hoid'⟩, hcolumns⟩

/-! ## Paths -/

namespace Path

mutual

/-- The restrictions attached to the scans of a path, as index condition or filter,
each with the relation that is scanned. -/
def attached : Path → List (Oid × Restriction)
  | append _ children => attachedOfAll children
  | indexScan h _ conditions => (conditions ++ h.filter).map fun r => (h.relid, r)
  | bitmapScan h _ conditions => (conditions ++ h.filter).map fun r => (h.relid, r)
  | seqScan h => h.filter.map fun r => (h.relid, r)
  | dummy _ => []

/-- The restrictions attached to the scans of each of several paths. -/
def attachedOfAll : List Path → List (Oid × Restriction)
  | [] => []
  | p :: ps => attached p ++ attachedOfAll ps

end

theorem attachedOfAll_eq (ps : List Path) : attachedOfAll ps = ps.flatMap attached := by
  induction ps with
  | nil => rfl
  | cons p ps ih => rw [attachedOfAll, ih, List.flatMap_cons]

theorem mem_attached_append {head : PathHead} {ps : List Path} {a : Oid × Restriction} :
    a ∈ (append head ps).attached ↔ ∃ p ∈ ps, a ∈ p.attached := by
  rw [attached, attachedOfAll_eq, List.mem_flatMap]

end Path

namespace RelState

variable {offers : Oid → Candidate → Prop} {rs : List Restriction} {rel : RelState} {s : Settings}
variable {p : Path} {oid : Oid} {x : Candidate} {a : Oid × Restriction}

/-- A scan through an index is given restrictions of its relation. -/
theorem attached_of_mem_indexPaths (hp : p ∈ rel.indexPaths s x) (ha : a ∈ p.attached) :
    a.1 = rel.relid ∧ a.2 ∈ rel.restrictions := by
  obtain ⟨-, -, head, conditions, hscan, rfl, cost, rfl⟩ := mem_indexPaths hp
  have hattached : p.attached = (rel.restrictions.filter x.answers ++ rel.restrictions.filter
      fun r => !(rel.restrictions.filter x.answers).contains r).map fun r => (rel.relid, r) := by
    rcases hscan with rfl | rfl
    · rw [Path.attached]
      rfl
    · rw [Path.attached]
      rfl
  rw [hattached] at ha
  obtain ⟨r, hr, rfl⟩ := List.mem_map.1 ha
  rcases List.mem_append.1 hr with hr | hr
  · exact ⟨rfl, (List.mem_filter.1 hr).1⟩
  · exact ⟨rfl, (List.mem_filter.1 hr).1⟩

/-- **A base relation is scanned with restrictions of the query.** -/
theorem Ready.attached (h : Ready offers rs oid rel) (hp : p ∈ (rel.addBasePaths s).paths)
    (ha : a ∈ p.attached) : a.1 = oid ∧ a.2 ∈ rs := by
  obtain ⟨rfl, rfl, hpaths, -⟩ := h
  rw [paths_addBasePaths, hpaths, List.nil_append] at hp
  rcases List.mem_cons.1 hp with rfl | hp
  · rw [seqPath, Path.attached] at ha
    obtain ⟨r, hr, rfl⟩ := List.mem_map.1 ha
    exact ⟨rfl, hr⟩
  · obtain ⟨y, -, hp⟩ := List.mem_flatMap.1 hp
    have hindex : a.1 = rel.estimated.relid ∧ a.2 ∈ rel.estimated.restrictions :=
      attached_of_mem_indexPaths hp ha
    exact hindex

end RelState

/-! ## Entries -/

/-- An identifier that no node has leads to the root over its relation, if to any
node. -/
theorem Registry.Holds.isRoot_of_not_mem {g : Registry} {v : Inventory} (h : g.Holds v) {n : Node}
    {oid : Oid} (hoid : oid ∉ v.nodeOids) (hn : g.node? oid = some n) :
    n.isRoot = true ∧ n.relid = oid := by
  obtain ⟨t, ht, ⟨hmem, rfl⟩ | ⟨rfl, rfl⟩⟩ := h.node?_iff.1 hn
  · exact absurd (Inventory.mem_nodeOids_of_mem (Inventory.mem_nodes_iff.2 ⟨t, ht, hmem⟩)) hoid
  · obtain ⟨r, hlinked⟩ := h.linked t ht
    exact ⟨hlinked.isRoot_self, rfl⟩

variable {σ : Type} [Catalog σ]

/-- **An entry that reads a relation below another.** A partition that it stands for
is one over the relation it reads. -/
structure RangeEntry.Under (c : σ) (g : Registry) (start : Oid) (e : RangeEntry) : Prop where
  below : Catalog.Below c start e.relid
  partition : ∀ oid, e.partition = some oid → ∃ n, g.node? oid = some n ∧ n.relid = e.relid

/-- A range table of such entries. -/
def PlanState.Under (c : σ) (g : Registry) (start : Oid) (p : PlanState) : Prop :=
  ∀ e ∈ p.entries, e.Under c g start

theorem PlanState.Under.addNew {c : σ} {g : Registry} {start : Oid} {p : PlanState}
    {e : RangeEntry} (h : p.Under c g start) (he : e.Under c g start) (i : RangeIndex) :
    (p.addNew i e).Under c g start := by
  unfold PlanState.addNew
  split
  · exact h
  · intro e' he'
    rcases List.mem_append.1 he' with he' | he'
    · exact h e' he'
    · rw [List.mem_singleton.1 he']
      exact ⟨he.below, he.partition⟩

namespace Extension

variable {x : Extension} {c : σ} {ctx : Context} {v : Inventory} {start oid child parentId : Oid}
variable {e : RangeEntry} {p : PlanState} {i : RangeIndex} {oids : List Oid} {r : Relation}
variable {rs : List Restriction} {settings : Settings}

theorem finishChild_yields_finished {Q : Unit → RangeEntry → Prop} {E : Error → Prop}
    (h : Q () (x.finished ctx child e)) :
    Edit.Yields ((x.metadataOver c).finishChild ctx parentId child) e Q E := by
  intro j
  rw [x.finishChild_eq]
  exact h

section

variable (h : x.registry.Holds v)
variable (hfree : ∀ oid r, Catalog.relation c oid = .ok r → oid ∉ v.nodeOids)

include h

/-- An entry that is finished for a partition of its relation, or for no partition,
is still one that reads a relation below. -/
theorem finished_under (he : e.Under c x.registry start)
    (hnode : ∀ n, x.registry.node? child = some n → n.isRoot = false → n.relid = e.relid) :
    (x.finished ctx child e).Under c x.registry start := by
  unfold finished
  split
  · split
    · rename_i n hn
      obtain ⟨hn, hroot⟩ := Option.filter_eq_some_iff.1 hn
      have hrelid : n.relid = e.relid := hnode n hn (by simpa using hroot)
      refine ⟨?_, fun oid hoid => ?_⟩
      · show Catalog.Below c start n.relid
        rw [hrelid]
        exact he.below
      · obtain rfl : n.oid = oid := Option.some.inj hoid
        exact ⟨n, h.node?_self hn, rfl⟩
    · exact he
  · exact he

include hfree

/-- The node that an entry goes by is one over the relation it reads. -/
theorem relid_of_logicalId (he : e.Under c x.registry start)
    (hr : Catalog.relation c e.relid = .ok r) {n : Node}
    (hn : x.registry.node? e.logicalId = some n) : n.relid = e.relid := by
  rcases hpartition : e.partition with _ | oid
  · rw [RangeEntry.logicalId, hpartition] at hn
    exact (h.isRoot_of_not_mem (hfree _ _ hr) hn).2
  · rw [RangeEntry.logicalId, hpartition] at hn
    obtain ⟨m, hm, hrelid⟩ := he.partition oid hpartition
    obtain rfl : n = m := Option.some.inj (hn.symm.trans hm)
    exact hrelid

/-- The host adds entries that read relations below. No node goes by the identifier
of one of these, so they are finished as they are. -/
theorem addMembers_yields_under (hp : p.Under c x.registry start)
    (hoids : ∀ oid ∈ oids, ∀ r, Catalog.relation c oid = .ok r → Catalog.Below c start oid) :
    Edit.Yields (PhysicalHost.addMembers c (x.metadataOver c) ctx i parentId oids) p
      (fun _ q => q.Under c x.registry start) fun _ => True := by
  induction oids generalizing p with
  | nil => exact .pure hp
  | cons oid oids ih =>
    rw [List.forall_mem_cons] at hoids
    refine .bind (.bind (PhysicalHost.answer_yields (fun r hr => .bind (.lend ?_))
      fun _ _ => trivial))
    refine finishChild_yields_finished (.change (ih ?_ hoids.2))
    refine hp.addNew (finished_under h ⟨hoids.1 r hr, fun _ hnone => by cases hnone⟩ ?_) i
    intro n hn hroot
    rw [(h.isRoot_of_not_mem (hfree _ _ hr) hn).1] at hroot
    cases hroot

/-- What the points list below a relation is below it, or no relation. -/
theorem inheritors_yields_below (hbelow : Catalog.Below c start oid) :
    Edit.Yields ((x.metadataOver c).inheritors ctx oid) () (fun oids _ =>
      ∀ o ∈ oids, ∀ r, Catalog.relation c o = .ok r → Catalog.Below c start o) fun _ => True := by
  have hhost : Edit.Yields (PhysicalHost.answer (PhysicalHost.inheritors c oid)) () (fun oids _ =>
      ∀ o ∈ oids, ∀ r, Catalog.relation c o = .ok r → Catalog.Below c start o) fun _ => True :=
    PhysicalHost.answer_yields (fun oids hoids o ho _ _ =>
      hbelow.trans (Catalog.below_of_mem_inheritors hoids o ho)) fun _ _ => trivial
  show Edit.Yields (orNext ctx (x.registry.inheritors? oid) _) () _ _
  unfold orNext Registry.inheritors?
  split
  · split
    · refine .pure fun o ho r hr => ?_
      rename_i hown
      split at hown
      · obtain rfl := Option.some.inj hown
        rcases List.mem_cons.1 ho with rfl | ho
        · exact hbelow
        · exact absurd (h.mem_nodeOids_of_mem_descendants ho) (hfree o r hr)
      · cases hown
    · exact hhost
  · exact hhost

/-- The entry of a partition reads the relation of the node that is expanded. -/
theorem finished_part_under (he : e.Under c x.registry start)
    (hr : Catalog.relation c e.relid = .ok r) {children : List Node}
    (hchildren : x.registry.childNodes? e.logicalId = some children) {m : Node}
    (hm : m ∈ children) :
    (x.finished ctx m.oid (.ofRelation e.relid e.kind e.label false)).Under c x.registry start := by
  obtain ⟨n, hn, rfl⟩ := Option.map_eq_some_iff.1 hchildren
  obtain ⟨hn, -⟩ := Option.filter_eq_some_iff.1 hn
  obtain ⟨child, hchild, hm⟩ := List.mem_filterMap.1 hm
  obtain ⟨m', hm', rfl, hrelid⟩ := h.exists_of_mem_children hn hchild
  obtain rfl : m = m' := Option.some.inj (hm.symm.trans hm')
  refine finished_under h ⟨he.below, fun _ hnone => by cases hnone⟩ fun k hk _ => ?_
  obtain rfl : m = k := Option.some.inj (hm.symm.trans hk)
  exact hrelid.trans (relid_of_logicalId h hfree he hr hn)

omit h hfree in
/-- Partitions are described only where the registry has some. -/
theorem partitionDesc_yields_none
    (hnone : ctx.window.isActive = true → x.registry.childNodes? oid = none) :
    Edit.Yields ((x.metadataOver c).partitionDesc ctx oid) () (fun desc _ => desc = none)
      fun _ => True := by
  show Edit.Yields (orNext ctx _ (pure none)) () _ _
  unfold orNext
  split
  · rename_i hactive
    rw [Option.map_eq_none_iff.1 (hnone hactive)]
    exact .pure rfl
  · exact .pure rfl

/-- **Expanding an entry** adds entries that read relations below. -/
theorem expandChildren_yields_under (hp : p.Under c x.registry start) (he : p.entry? i = some e)
    (hr : Catalog.relation c e.relid = .ok r) :
    Edit.Yields ((x.metadataOver c).partitionDesc ctx e.logicalId) () (fun desc _ =>
      Edit.Yields ((x.planningOver c).expandChildren ctx i desc) p
        (fun _ q => q.Under c x.registry start) fun _ => True) fun _ => True := by
  have hunder : e.Under c x.registry start := hp e (PlanState.mem_of_entry? he)
  by_cases hown : ctx.window.isActive = true ∧ (x.registry.childNodes? e.logicalId).isSome
  · -- the partitions of the node that the entry goes by
    obtain ⟨hactive, hsome⟩ := hown
    obtain ⟨children, hchildren⟩ := Option.isSome_iff_exists.1 hsome
    refine Edit.Yields.any.imp fun desc _ _ j => ?_
    have hadds := (PlanState.addEachChild_adds (i := i) (e := e) (fun oid j =>
      x.finishChild_eq c ctx e.logicalId oid _ j) (children.map fun n => n.oid)).bind
        fun _ => PlanState.Adds.pure (i := i) ()
    obtain ⟨u, hu⟩ := hadds p j
    rw [x.expandChildren_own c ctx hactive he hchildren, hu, List.append_nil, List.map_map]
    refine PlanState.addAllNew_keeps hp fun q hq e' he' => hq.addNew ?_ i
    obtain ⟨m, hm, rfl⟩ := List.mem_map.1 he'
    exact finished_part_under h hfree hunder hr hchildren hm
  · -- the entry goes by no partitioned node, so the host lists what is below
    have hnone : ctx.window.isActive = true → x.registry.childNodes? e.logicalId = none :=
      fun hactive => Option.not_isSome_iff_eq_none.1 fun hsome => hown ⟨hactive, hsome⟩
    refine (partitionDesc_yields_none hnone).imp fun desc _ hdesc j => ?_
    rw [hdesc, x.expandChildren_host c ctx (fun hactive e' he' => ?_),
      x.hostExpandChildren_apply c ctx he]
    · exact Edit.Yields.bind (.ask ((inheritors_yields_below h hfree hunder.below).imp
        fun oids _ hoids => addMembers_yields_under h hfree hp hoids)) j
    · obtain rfl := Option.some.inj (he.symm.trans he')
      exact hnone hactive

/-- **Every entry is planned by scans of relations below**, given restrictions of
the query. -/
theorem upholds_bound : Draft.Upholds (x.metadataOver c) (x.planningOver c) ctx rs
    (PlanState.Under c x.registry start) (fun e => ∃ r, Catalog.relation c e.relid = .ok r)
    (fun path => ∀ a ∈ path.attached, a.2 ∈ rs ∧ Catalog.Below c start a.1 ∧
      ∃ r, Catalog.relation c a.1 = .ok r) where
  dummy _ _ ha := absurd ha List.not_mem_nil
  append head paths hpaths a ha := by
    obtain ⟨path, hpath, ha⟩ := Path.mem_attached_append.1 ha
    exact hpaths path hpath a ha
  relationInfo i entry state hstate hentry := by
    refine (relationInfo_found.and (relationInfo_ready (RelState.ready_blank i _))).imp
      fun _ s ⟨⟨hsame, r, hr⟩, hready⟩ => ⟨hsame, ⟨r, hr⟩, hready.paths, ?_⟩
    intro settings path hpath a ha
    obtain ⟨hrelid, hmem⟩ := hready.attached hpath ha
    rw [hrelid]
    exact ⟨hmem, (hstate entry (PlanState.mem_of_entry? hentry)).below, r, hr⟩
  expandChildren i entry state hstate hentry := by
    rintro ⟨r, hr⟩
    exact expandChildren_yields_under h hfree hstate hentry hr
  relationPaths _ _ := relationPaths_keeps fun _ _ ha => absurd ha List.not_mem_nil

end

/-- **What the restrictions in a plan are bound to**, where no relation of the catalog
has an identifier that is issued. Each that is attached to a
scan is one of the query, bound to a column of the relation that the query names.
The relation scanned is that one or one below it. Where each child has the columns
of its parent, under the same numbers and names, the restriction names a column of
the relation scanned. -/
theorem plan_binds {τ : Type} [Catalog τ] (h : ReachedWithin τ Unmixed x)
    (hreal : ∀ oid r, Catalog.relation c oid = .ok r → x.ids.isIssued oid = false) {q : Query}
    {j j' : Journal}
    {plan : Plan} (hplan : q.plan c (x.metadataOver c) (x.planningOver c) ctx settings ((), j) =
      (.ok plan, (), j')) :
    ∃ r rs, q.bind c = .ok (r, rs) ∧ ∀ a ∈ plan.path.attached,
      a.2 ∈ rs ∧ a.2.NamesColumnOf r ∧
        ∃ scanned, Catalog.relation c a.1 = .ok scanned ∧ Catalog.Below c r.oid a.1 ∧
          (Catalog.Conforms c r → a.2.NamesColumnOf scanned) := by
  obtain ⟨log, hrun⟩ := h
  obtain ⟨v, -, hreflects⟩ := hrun.reflects
  have hfree : ∀ oid r, Catalog.relation c oid = .ok r → oid ∉ v.nodeOids := by
    intro oid r hr hmem
    have hissued := (hreflects.isIssued_iff oid).2 (Inventory.mem_oids_iff.2 (Or.inr hmem))
    rw [hreal oid r hr] at hissued
    cases hissued
  have hyields : Edit.Yields (q.plan c (x.metadataOver c) (x.planningOver c) ctx settings) ()
      (fun plan _ => ∃ r rs, q.bind c = .ok (r, rs) ∧ ∀ a ∈ plan.path.attached, a.2 ∈ rs ∧
        Catalog.Below c r.oid a.1 ∧ ∃ r, Catalog.relation c a.1 = .ok r) fun _ => True := by
    refine Query.plan_yields (I := fun r => PlanState.Under c x.registry r.oid) fun r rs _ =>
      ⟨upholds_bound hreflects.holds hfree, fun inherits e he => ?_⟩
    rw [List.mem_singleton.1 he]
    exact ⟨.start, fun _ hnone => by cases hnone⟩
  have houtcome := hyields j
  rw [hplan] at houtcome
  obtain ⟨r, rs, hbind, hattached⟩ := houtcome
  refine ⟨r, rs, hbind, fun a ha => ?_⟩
  obtain ⟨hmem, hbelow, scanned, hscanned⟩ := hattached a ha
  obtain ⟨qual, -, hqual⟩ := Query.exists_of_mem_resolve (Query.bind_ok hbind).2 a.2 hmem
  have hnames := Restriction.namesColumnOf_of_resolve? hqual
  refine ⟨hmem, hnames, scanned, hscanned, hbelow, fun hc => ?_⟩
  obtain ⟨r', hr', hcolumns⟩ := hc.hasColumnsOf hbelow
  obtain rfl := Except.ok.inj (hscanned.symm.trans hr')
  exact hnames.of_hasColumnsOf hcolumns

/-- A column of integers with a thousand values. -/
def intColumn (number : Int) (name : String) : Column :=
  ⟨⟨number⟩, name, .int4, false, some 1000.0⟩

/-- A table of ten thousand rows. -/
def tableOf (oid : Oid) (name : String) (columns : List Column) : Relation where
  oid := oid
  name := name
  kind := .relation
  persistence := .permanent
  tablespace := Oid.invalid
  columns := columns
  pages := 100
  tuples := 10000.0

/-- A catalog with a table `t`, a child `u` of it that has given columns, and a BRIN
index on one of these. -/
def withChild (columns : List Column) (key : AttNum) : MemoryCatalog where
  next := ⟨16387⟩
  relations := [tableOf ⟨16384⟩ "t" [intColumn 1 "id", intColumn 2 "status"],
    tableOf ⟨16385⟩ "u" columns]
  names := [("u", ⟨16385⟩), ("t", ⟨16384⟩)]
  indexes := [{
    oid := ⟨16386⟩, name := "u_status", relid := ⟨16385⟩, method := .brin, keys := [key]
    unique := false, pages := 29, tuples := 10000.0, height := 1 }]
  links := [(⟨16384⟩, ⟨16385⟩)]

/-- The rows of `t` whose value in a column is 5, planned without an extension's
objects and, where an index can be used, without reading in sequence. -/
def planFive (column : String) (c : MemoryCatalog) : Except Error Plan × Unit × Journal :=
  ((Query.select "t").addQual column (.compare .eq (.int 5))).plan c ((fresh true).metadataOver c)
    ((fresh true).planningOver c) simulating unsequenced ((), [])

/-- A child with the columns of `t` and one more. The index is on `status`. -/
def widened : MemoryCatalog :=
  withChild [intColumn 2 "status", intColumn 3 "note", intColumn 1 "id"] ⟨2⟩

theorem plan_binds_widened :
    ∃ plan j', planFive "status" widened = (.ok plan, (), j') ∧ plan.path.indexes = [⟨16386⟩] ∧
      ∃ r rs, ((Query.select "t").addQual "status" (.compare .eq (.int 5))).bind widened =
        .ok (r, rs) ∧ Catalog.Conforms widened r ∧ ∀ a ∈ plan.path.attached,
          a.2 ∈ rs ∧ a.2.NamesColumnOf r ∧ ∃ scanned, Catalog.relation widened a.1 = .ok scanned ∧
            Catalog.Below widened r.oid a.1 ∧ a.2.NamesColumnOf scanned := by
  have hindexes : (planFive "status" widened).1.toOption.map (fun plan => plan.path.indexes) =
      some [⟨16386⟩] := by decide +kernel
  have hoids : (widened.relations.map fun r => r.oid).Nodup := by decide +kernel
  rcases hplan : planFive "status" widened with ⟨e | plan, _, j'⟩
  · rw [hplan] at hindexes
    cases hindexes
  · rw [hplan] at hindexes
    obtain ⟨r, rs, hbind, hattached⟩ :=
      plan_binds (ReachedWithin.fresh (σ := MemoryCatalog) true) (fun _ _ _ => rfl) hplan
    have hconforms : Catalog.Conforms widened r :=
      MemoryCatalog.conforms hoids
        (MemoryCatalog.mem_of_relationNamed (Query.bind_ok hbind).1) (by decide +kernel)
    refine ⟨plan, j', rfl, Option.some.inj hindexes, r, rs, hbind, hconforms, fun a ha => ?_⟩
    obtain ⟨hmem, hnames, scanned, hscanned, hbelow, hnamed⟩ := hattached a ha
    exact ⟨hmem, hnames, scanned, hscanned, hbelow, hnamed hconforms⟩

/-- A child that numbers the columns of `t` the other way round. The index is on
`status`, which has the number of `id` in `t`. -/
def renumbered : MemoryCatalog := withChild [intColumn 1 "status", intColumn 2 "id"] ⟨1⟩

/-- **A child that numbers its columns in another way** is read by tests on the
wrong ones. The test on `id` goes to the index on `status`. -/
theorem plan_misbinds :
    ∃ plan j', planFive "id" renumbered = (.ok plan, (), j') ∧ plan.path.indexes = [⟨16386⟩] ∧
      ∃ a ∈ plan.path.attached, ∃ scanned, Catalog.relation renumbered a.1 = .ok scanned ∧
        ¬ a.2.NamesColumnOf scanned := by
  have hfound : (planFive "id" renumbered).1.toOption.any (fun plan =>
      plan.path.indexes == [⟨16386⟩] && plan.path.attached.any fun a =>
        (Catalog.relation renumbered a.1).toOption.any fun scanned =>
          !decide (a.2.NamesColumnOf scanned)) = true := by decide +kernel
  rcases hplan : planFive "id" renumbered with ⟨e | plan, _, j'⟩
  · rw [hplan] at hfound
    cases hfound
  · rw [hplan] at hfound
    obtain ⟨hindexes, hany⟩ := Bool.and_eq_true_iff.1 hfound
    obtain ⟨a, ha, hwrong⟩ := List.any_eq_true.1 hany
    refine ⟨plan, j', rfl, beq_iff_eq.1 hindexes, a, ha, ?_⟩
    rcases hscanned : Catalog.relation renumbered a.1 with e | scanned
    · rw [hscanned] at hwrong
      cases hwrong
    · rw [hscanned] at hwrong
      have hwrong : (!decide (a.2.NamesColumnOf scanned)) = true := hwrong
      exact ⟨scanned, rfl, by simpa using hwrong⟩

end Extension

end WhatIf
