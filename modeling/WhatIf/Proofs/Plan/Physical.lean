import WhatIf.Hook.PhysicalHost
import WhatIf.Proofs.Plan.Entry
/-!
# Plan — what the host plans exists

Left to itself, the host reads relations that the catalog answers for, and
through indexes that the catalog lists on them (`Grounded`). The range table
of such a plan stands for no partition (`Physical`). Both hold whatever the
catalog answers, through any inheritance links.
-/

namespace WhatIf

variable {σ : Type} [Catalog σ]

/-- That an error is not one of executing a plan. -/
def Error.IsBefore (e : Error) : Prop := ∀ fault, e ≠ .execution fault

theorem Error.isBefore_catalog (e : CatalogError) : (Error.catalog e).IsBefore := by
  intro fault h
  cases h

theorem Error.isBefore_planning (f : PlanningFault) : (Error.planning f).IsBefore := by
  intro fault h
  cases h

namespace PlanState

/-- That no entry stands for a partition. -/
def Physical (p : PlanState) : Prop := ∀ e ∈ p.entries, e.partition = none

/-- **A scan of what exists**: its entry stands for no partition, the catalog
answers for its relation, and lists the index it goes through on that
relation. -/
def Grounded (c : σ) (p : PlanState) (scan : RangeIndex × Option Oid) : Prop :=
  ∃ e r, p.entry? scan.1 = some e ∧ e.partition = none ∧ Catalog.relation c e.relid = .ok r ∧
    ∀ oid, scan.2 = some oid → ∃ is, Catalog.indexes c e.relid = .ok is ∧ ∃ i ∈ is, i.oid = oid

variable {c : σ} {p q : PlanState} {scan : RangeIndex × Option Oid}

theorem Grounded.extends (h : Grounded c p scan) (hpq : p.Extends q) : Grounded c q scan := by
  obtain ⟨e, r, he, hrest⟩ := h
  exact ⟨e, r, hpq.entry? he, hrest⟩

theorem Physical.addChild (h : p.Physical) {i : RangeIndex} {e : RangeEntry}
    (he : e.partition = none) : (p.addChild i e).2.Physical := by
  intro e' he'
  rcases List.mem_append.1 he' with he' | he'
  · exact h e' he'
  · rw [List.mem_singleton.1 he']
    exact he

end PlanState

namespace PhysicalHost

open PlanState (Physical Grounded)

variable {c : σ} {ctx : Context} {oid parentId : Oid} {inherits : Bool} {s : Scope}
variable {p : PlanState} {i : RangeIndex} {rs : List Restriction} {E : Error → Prop}

/-- What is known of a relation once the host was asked. -/
structure Informed (c : σ) (oid : Oid) (inherits : Bool) (s s' : Scope) : Prop where
  state : s'.state = s.state
  entry : s'.rel.entry = s.rel.entry
  relid : s'.rel.relid = s.rel.relid
  name : s'.rel.name = s.rel.name
  restrictions : s'.rel.restrictions = s.rel.restrictions
  paths : s'.rel.paths = s.rel.paths
  constraints : s'.rel.constraints = s.rel.constraints
  isDummy : s'.rel.isDummy = s.rel.isDummy
  relation : ∃ r, Catalog.relation c oid = .ok r
  candidates : ∀ x ∈ s'.rel.candidates, x ∈ s.rel.candidates ∨
    ∃ is, Catalog.indexes c oid = .ok is ∧ ∃ i ∈ is, i.oid = x.oid

theorem answer_yields {t α : Type} {v : t} {y : Except CatalogError α} {Q : α → t → Prop}
    (hok : ∀ a, y = .ok a → Q a v) (herror : ∀ e, y = .error e → E (.catalog e)) :
    Edit.Yields (answer y) v Q E := by
  refine .ofExcept (fun a ha => ?_) fun e he => ?_
  · cases y with
    | ok b => exact hok a (congrArg Except.ok (Except.ok.inj ha))
    | error e => cases ha
  · cases y with
    | ok b => cases he
    | error cause => exact Except.error.inj he ▸ herror cause rfl

/-- **What the host fills in**; it fails only where the catalog does. -/
theorem relationInfo_yields
    (hE : ∀ e, (Catalog.relation c oid = .error e ∨ Catalog.indexes c oid = .error e) →
      E (.catalog e)) :
    Edit.Yields (relationInfo c oid inherits) s (fun _ => Informed c oid inherits s) E := by
  unfold relationInfo
  refine .bind (answer_yields (fun r hr => ?_) fun e he => hE e (Or.inl he))
  refine .bind (.change ?_)
  split
  · exact .pure ⟨rfl, rfl, rfl, rfl, rfl, rfl, rfl, rfl, ⟨r, hr⟩, fun x hx => Or.inl hx⟩
  · refine .bind (answer_yields (fun is his => ?_) fun e he => hE e (Or.inr he))
    refine .change ⟨rfl, rfl, rfl, rfl, rfl, rfl, rfl, rfl, ⟨r, hr⟩, fun x hx => ?_⟩
    rcases List.mem_append.1 hx with hx | hx
    · exact Or.inl hx
    · obtain ⟨i, hi, rfl⟩ := List.mem_map.1 hx
      exact Or.inr ⟨is, his, i, hi, rfl⟩

/-- Adding a child that exists. -/
theorem addMember_yields (hp : p.Physical) :
    Edit.Yields (addMember c (metadata c) ctx i parentId oid) p
      (fun _ q => q.Physical ∧ p.Extends q) Error.IsBefore := by
  unfold addMember
  refine .bind (answer_yields (fun r _ => ?_) fun e _ => Error.isBefore_catalog e)
  refine .bind (.lend (.pure (.change ?_)))
  split
  · exact ⟨hp, .refl p⟩
  · exact ⟨hp.addChild rfl, p.extends_addChild i _⟩

theorem addMembers_yields (oids : List Oid) (hp : p.Physical) :
    Edit.Yields (addMembers c (metadata c) ctx i parentId oids) p
      (fun _ q => q.Physical ∧ p.Extends q) Error.IsBefore := by
  induction oids generalizing p with
  | nil => exact .pure ⟨hp, .refl p⟩
  | cons oid oids ih =>
    refine .bind ((addMember_yields hp).imp fun _ q hq => ?_)
    exact (ih hq.1).imp fun _ r hr => ⟨hr.1, hq.2.trans hr.2⟩

/-- **Expanding an entry** adds entries of relations. -/
theorem expandChildren_yields {desc : Option PartitionDesc} (hp : p.Physical) :
    Edit.Yields (expandChildren c (metadata c) ctx i desc) p
      (fun _ q => q.Physical ∧ p.Extends q) Error.IsBefore := by
  unfold expandChildren
  refine .bind (.value ?_)
  split
  · exact .fail (Error.isBefore_planning _)
  · split
    · exact .bind (.pure (addMembers_yields _ hp))
    · refine .bind (.ask ?_)
      exact answer_yields (fun oids _ => addMembers_yields oids hp) fun e _ =>
        Error.isBefore_catalog e

end PhysicalHost

namespace Draft

open PlanState (Physical Grounded)

variable {c : σ} {ctx : Context} {rs : List Restriction} {fuel : Nat} {i : RangeIndex} {d : Draft}
variable {entry : RangeEntry} {rel : RelState} {p q r : PlanState} {paths : List Path}

/-- **What the host has planned**: the range table has grown by relations, and
every scan is of what exists. -/
structure Sound (c : σ) (p q : PlanState) (paths : List Path) : Prop where
  physical : q.Physical
  extended : p.Extends q
  grounded : ∀ path ∈ paths, ∀ scan ∈ path.scans, Grounded c q scan

/-- Fewer paths, in a range table that has grown further. -/
theorem Sound.trans {paths' : List Path} (h : Sound c p q paths) (hqr : Sound c q r paths')
    {paths'' : List Path} (hsub : ∀ path ∈ paths'', path ∈ paths ∨ path ∈ paths') :
    Sound c p r paths'' where
  physical := hqr.physical
  extended := h.extended.trans hqr.extended
  grounded path hpath scan hscan := by
    rcases hsub path hpath with hold | hnew
    · exact (h.grounded path hold scan hscan).extends hqr.extended
    · exact hqr.grounded path hnew scan hscan

/-- **The paths of a base relation** scan the relation, through indexes that
the catalog lists on it. -/
theorem grounded_addBasePaths {settings : Settings} (hentry : p.entry? i = some entry)
    (hphysical : p.Physical) {s : Scope} (hs : s.rel.entry = i ∧ s.rel.paths = [] ∧
      s.rel.candidates = []) {inherits : Bool} {s' : Scope}
    (hinfo : PhysicalHost.Informed c entry.relid inherits s s') {path : Path}
    (hpath : path ∈ (s'.rel.addBasePaths settings).paths) :
    ∀ scan ∈ path.scans, Grounded c p scan := by
  obtain ⟨r, hr⟩ := hinfo.relation
  have hpartition : entry.partition = none := hphysical entry (PlanState.mem_of_entry? hentry)
  have hi : s'.rel.entry = i := hinfo.entry.trans hs.1
  intro scan hscan
  rcases RelState.mem_addBasePaths hpath with hold | hseq | ⟨x, hx, hindex⟩
  · rw [hinfo.paths, hs.2.1] at hold
    cases hold
  · rw [hseq, List.mem_singleton] at hscan
    subst hscan
    exact ⟨entry, r, hi ▸ hentry, hpartition, hr, fun oid hoid => by cases hoid⟩
  · rw [hindex, List.mem_singleton] at hscan
    subst hscan
    refine ⟨entry, r, hi ▸ hentry, hpartition, hr, fun oid hoid => ?_⟩
    rcases hinfo.candidates x hx with hold | hlisted
    · rw [hs.2.2] at hold
      cases hold
    · exact Option.some.inj hoid ▸ hlisted

/-- An append path scans what its children scan. -/
theorem scans_addAppendPath (hpaths : rel.paths = []) {path : Path}
    (hpath : path ∈ (rel.addAppendPath paths).paths) :
    ∀ scan ∈ path.scans, ∃ child ∈ paths, scan ∈ child.scans := by
  intro scan hscan
  rcases RelState.mem_addAppendPath hpaths hpath with ⟨head, rfl⟩ | ⟨head, rfl⟩
  · cases hscan
  · rw [Path.scans_append] at hscan
    exact List.mem_flatMap.1 hscan

variable (c ctx rs) in
/-- **The host plans what exists**, at every depth. -/
theorem planEntry_sound (fuel : Nat) : ∀ i d, d.state.Physical →
    Edit.Yields (planEntry (PhysicalHost.metadata c)
      (PhysicalHost.planning c (PhysicalHost.metadata c)) ctx rs fuel i) d
      (fun path d' => Sound c d.state d'.state [path]) Error.IsBefore := by
  induction fuel with
  | zero => exact fun i d _ => .fail (Error.isBefore_planning _)
  | succ fuel ih =>
    intro i d hd
    rw [planEntry_succ]
    refine .bind (.value ?_)
    rcases hentry : d.state.entry? i with _ | entry
    · exact .fail (Error.isBefore_planning _)
    refine .bind (onRel_yields ((PhysicalHost.relationInfo_yields
      fun e _ => Error.isBefore_catalog e).imp fun _ s hinfo => ?_))
    refine .bind (noteWidth_yields (.bind ?_))
    -- what finding the paths yields is what the plan is chosen from
    have hchoose : ∀ rel (d' : Draft), Sound c d.state d'.state rel.paths →
        Edit.Yields (do
          let rel ← onRel
            ((PhysicalHost.planning c (PhysicalHost.metadata c)).relationPaths ctx i) rel
          choose i entry rel) d' (fun path d' => Sound c d.state d'.state [path])
          Error.IsBefore := by
      intro rel d' hrel
      refine .bind (onRel_yields (.pure (choose_yields (fun path hpath => ?_) fun _ =>
        Error.isBefore_planning _)))
      rw [noting_state]
      refine ⟨hrel.physical, hrel.extended, fun path' hpath' => ?_⟩
      rw [List.mem_singleton.1 hpath']
      exact hrel.grounded path hpath
    have hstate : s.state = d.state := hinfo.state
    unfold findPaths
    split
    · refine .bind (expand_yields (.pure ?_))
      have hphysical : s.state.Physical := hstate ▸ hd
      have hexpand : Edit.Yields
          (PhysicalHost.expandChildren c (PhysicalHost.metadata c) ctx i none) s.state
          (fun _ q => q.Physical ∧ s.state.Extends q) Error.IsBefore :=
        PhysicalHost.expandChildren_yields hphysical
      refine hexpand.imp fun _ q hq => .bind ?_
      -- one child after the other, with the paths of those before it
      refine (Edit.Yields.mapM (I := fun _ paths w => Sound c d.state w.state paths) _ ?_ ?_).imp
        fun paths w hw => .pure (hchoose _ _ ?_)
      · exact ⟨hq.1, hstate ▸ hq.2, fun path hpath => by cases hpath⟩
      · intro _ child _ paths w _ hw
        refine (ih child w hw.physical).imp fun path w' hpath => hw.trans hpath fun path' hmem => ?_
        exact List.mem_append.1 hmem
      · refine ⟨hw.physical, hw.extended, fun path hpath scan hscan => ?_⟩
        obtain ⟨child, hchild, hscan⟩ := scans_addAppendPath hinfo.paths hpath scan hscan
        exact hw.grounded child (List.mem_filter.1 hchild).1 scan hscan
    · refine .bind (.value (.pure (hchoose _ _ ?_)))
      dsimp only
      rw [hstate]
      exact ⟨hd, .refl _, fun path hpath =>
        grounded_addBasePaths hentry hd ⟨rfl, rfl, rfl⟩ hinfo hpath⟩

end Draft

namespace Query

variable {c : σ}

theorem isBefore_of_resolve {r : Relation} {quals : List Qual} {e : Error}
    (h : resolve r quals = .error e) : e.IsBefore := by
  induction quals with
  | nil => cases h
  | cons qual quals ih =>
    rw [resolve] at h
    split at h
    · cases h
      exact Error.isBefore_planning _
    · rcases hrest : resolve r quals with e' | rest
      · rw [hrest] at h
        obtain rfl : e' = e := Except.error.inj h
        exact ih hrest
      · rw [hrest] at h
        cases h

/-- Finding the relation of a query fails before anything is planned. -/
theorem isBefore_of_bind {q : Query} {e : Error} (h : q.bind c = .error e) : e.IsBefore := by
  unfold bind at h
  split at h
  · cases h
    exact Error.isBefore_catalog _
  · rename_i r _
    rcases hrest : resolve r q.quals with e' | rest
    · rw [hrest] at h
      obtain rfl : e' = e := Except.error.inj h
      exact isBefore_of_resolve hrest
    · rw [hrest] at h
      cases h

end Query

namespace PhysicalHost

open PlanState (Physical Grounded)

variable {c : σ} {ctx : Context} {settings : Settings}

/-- **A query is planned over what exists**, and fails before it is executed if
at all. -/
theorem plan_yields (q : Query) :
    Edit.Yields (q.plan c (metadata c) (planning c (metadata c)) ctx settings) ()
      (fun plan _ => ∀ scan ∈ plan.path.scans, Grounded c plan.state scan) Error.IsBefore := by
  unfold Query.plan
  refine .bind (.ofExcept (fun found _ => .bind ?_) fun _ => Query.isBefore_of_bind)
  have hreads : Edit.Yields (q.readsChildren (metadata c) ctx found.1) () (fun _ _ => True)
      Error.IsBefore := by
    unfold Query.readsChildren
    split
    · exact .pure trivial
    · split
      · exact .pure trivial
      · exact .bind (answer_yields (fun _ _ => .pure trivial) fun e _ => Error.isBefore_catalog e)
  refine hreads.imp fun inherits _ _ => ?_
  have hphysical : ((PlanState.ofSettings settings).addEntry
      (.ofRelation found.1.oid found.1.kind found.1.name inherits)).2.Physical := by
    intro e he
    rw [List.mem_singleton.1 he]
    rfl
  refine .bind (.lend ((Draft.planEntry_sound c ctx found.2 Draft.maxDepth _ _ hphysical).imp
    fun path draft hsound => .pure ?_))
  exact hsound.grounded path (List.mem_singleton.2 rfl)

/-- Every index of a plan over what exists is one the catalog lists. -/
theorem listed_of_grounded {p : Plan} (h : ∀ scan ∈ p.path.scans, Grounded c p.state scan)
    {oid : Oid} (hoid : oid ∈ p.path.indexes) :
    ∃ relid is, Catalog.indexes c relid = .ok is ∧ ∃ i ∈ is, i.oid = oid := by
  obtain ⟨i, hi⟩ := Path.mem_indexes_iff.1 hoid
  obtain ⟨e, r, -, -, -, hindex⟩ := h _ hi
  exact ⟨e.relid, hindex oid rfl⟩

end PhysicalHost

/-! ## Execution -/

/-- **A catalog that agrees with itself**: a relation has the identifier it is
found by, and an index listed on a relation is found, on that relation. -/
structure Catalog.Coherent (c : σ) : Prop where
  relation_oid : ∀ oid r, Catalog.relation c oid = .ok r → r.oid = oid
  index_of_listed : ∀ relid is, Catalog.indexes c relid = .ok is → ∀ i ∈ is,
    ∃ j, Catalog.index c i.oid = .ok j ∧ j.relid = relid

namespace Plan

open PlanState (Grounded)

variable {c : σ} {p : PlanState}

/-- What exists can be opened. -/
theorem openScan_ok (hc : Catalog.Coherent c) {i : RangeIndex} {index? : Option Oid}
    (h : Grounded c p (i, index?)) : ∃ name, openScan c p i index? = .ok name := by
  obtain ⟨e, r, he, hpartition, hr, hindex⟩ := h
  unfold openScan
  rw [he]
  dsimp only
  rw [hpartition, hr]
  dsimp only
  cases index? with
  | none => exact ⟨r.name, rfl⟩
  | some oid =>
    obtain ⟨is, his, j, hj, rfl⟩ := hindex oid rfl
    obtain ⟨k, hk, hrelid⟩ := hc.index_of_listed e.relid is his j hj
    refine ⟨r.name, ?_⟩
    dsimp only
    unfold openIndex
    rw [hk]
    dsimp only
    rw [if_pos (hrelid.trans (hc.relation_oid _ _ hr).symm)]
    rfl

/-- **A plan over what exists can be executed.** -/
theorem openPath_ok (hc : Catalog.Coherent c) (path : Path) :
    (∀ scan ∈ path.scans, Grounded c p scan) → ∃ opened, openPath c p path = .ok opened := by
  induction path using Path.induct with
  | dummy h => exact fun _ => ⟨_, rfl⟩
  | seqScan h =>
    intro hscans
    obtain ⟨name, hname⟩ := openScan_ok hc (hscans _ (List.mem_singleton.2 rfl))
    exact ⟨_, by rw [openPath, hname]; rfl⟩
  | indexScan h oid rs =>
    intro hscans
    obtain ⟨name, hname⟩ := openScan_ok hc (hscans _ (List.mem_singleton.2 rfl))
    exact ⟨_, by rw [openPath, hname]; rfl⟩
  | bitmapScan h oid rs =>
    intro hscans
    obtain ⟨name, hname⟩ := openScan_ok hc (hscans _ (List.mem_singleton.2 rfl))
    exact ⟨_, by rw [openPath, hname]; rfl⟩
  | append h ps ih =>
    intro hscans
    rw [Path.scans_append] at hscans
    rw [openPath]
    induction ps with
    | nil => exact ⟨_, rfl⟩
    | cons q ps ihps =>
      have hq := ih q List.mem_cons_self fun scan hscan =>
        hscans scan (List.mem_flatMap.2 ⟨q, List.mem_cons_self, hscan⟩)
      have hps := ihps (fun q' hq' => ih q' (List.mem_cons_of_mem _ hq')) fun scan hscan => by
        obtain ⟨q', hq', hscan⟩ := List.mem_flatMap.1 hscan
        exact hscans scan (List.mem_flatMap.2 ⟨q', List.mem_cons_of_mem _ hq', hscan⟩)
      obtain ⟨first, hfirst⟩ := hq
      obtain ⟨rest, hrest⟩ := hps
      exact ⟨_, by rw [openAll, hfirst]; dsimp only; rw [hrest]; rfl⟩

theorem execute_ok (hc : Catalog.Coherent c) {p : Plan}
    (h : ∀ scan ∈ p.path.scans, Grounded c p.state scan) : ∃ trace, p.execute c = .ok trace := by
  obtain ⟨opened, hopened⟩ := openPath_ok hc p.path h
  exact ⟨_, by rw [execute, hopened]⟩

end Plan

end WhatIf
