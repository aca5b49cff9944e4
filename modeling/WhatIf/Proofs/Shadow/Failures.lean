import WhatIf.Proofs.Shadow.Concealment
import WhatIf.Explain.Tree
/-!
# Shadow — how planning under the extension can fail

Whatever the window, planning and showing a query over the extension fails
only for reasons of the catalog or of planning, never for one of executing a
plan: no point of the extension opens anything. `Edit.Before` says this of a
call; every point has it, and planning passes it on.
-/

namespace WhatIf

variable {σ : Type} [Catalog σ]

namespace Edit

variable {s t α β : Type}

/-- That a call fails before anything is executed, if at all. -/
def Before (x : Edit s α) : Prop := ∀ v, Yields x v (fun _ _ => True) Error.IsBefore

namespace Before

variable {x : Edit s α}

theorem pure {a : α} : Before (Pure.pure a : Edit s α) := fun _ => .pure trivial

theorem change {F : s → s} : Before (Edit.change F) := fun _ => .change trivial

theorem bind {f : α → Edit s β} (hx : Before x) (hf : ∀ a, Before (f a)) : Before (x >>= f) :=
  fun v => .bind ((hx v).imp fun a w _ => hf a w)

theorem lend {y : Edit t α} {u : t} (hy : Before y) : Before (Edit.lend y u : Edit s _) :=
  fun _ => .lend ((hy u).imp fun _ _ _ => trivial)

theorem zoom {get : s → t} {set : t → s → s} {y : Edit t α} (hy : Before y) :
    Before (Edit.zoom get set y) :=
  fun v => .zoom ((hy (get v)).imp fun _ _ _ => trivial)

theorem ask {y : Ask α} (hy : Before y) : Before (Edit.ask y : Edit s α) :=
  fun _ => .ask ((hy ()).imp fun _ _ _ => trivial)

theorem value : Before (Edit.value : Edit s s) := fun _ => .value trivial

theorem put {w : s} : Before (Edit.put w) := fun _ => .put trivial

theorem planning {f : PlanningFault} : Before (Edit.fail (.planning f) : Edit s α) :=
  fun _ => .fail (Error.isBefore_planning f)

theorem answer {y : Except CatalogError α} : Before (PhysicalHost.answer y : Edit s α) :=
  fun _ => PhysicalHost.answer_yields (fun _ _ => trivial) fun e _ => Error.isBefore_catalog e

theorem mapM {γ : Type} {h : γ → Edit s β} (hh : ∀ c, Before (h c)) (cs : List γ) :
    Before (cs.mapM h) :=
  fun _ => .mapM (I := fun _ _ _ => True) cs trivial fun _ c _ _ w _ _ => hh c w

end Before

end Edit

open Edit (Before)

/-! ## Showing a plan -/

section Render

variable {m : MetadataPoints} {ctx : Context} {E : Error → Prop}
variable (hname : ∀ oid, Edit.Yields (m.indexName ctx oid) () (fun _ _ => True) E)

include hname

/-- Showing a path fails only where naming an index does. -/
theorem Shown.ofPath_yields (plan : Plan) (path : Path) :
    Edit.Yields (Shown.ofPath m ctx plan path) () (fun _ _ => True) E := by
  have hone : ∀ oid, Edit.Yields (Shown.indexName m ctx oid) () (fun _ _ => True) E :=
    fun oid => .bind ((hname oid).imp fun _ _ _ => .pure trivial)
  induction path using Path.induct with
  | seqScan head => exact .pure trivial
  | dummy head => exact .pure trivial
  | indexScan head i rs => exact .bind ((hone i).imp fun _ _ _ => .pure trivial)
  | bitmapScan head i rs => exact .bind ((hone i).imp fun _ _ _ => .pure trivial)
  | append head ps ih =>
    have hall : Edit.Yields (Shown.ofPaths m ctx plan ps) () (fun _ _ => True) E := by
      induction ps with
      | nil => exact .pure trivial
      | cons q ps ihps =>
        refine .bind ((ih q List.mem_cons_self).imp fun _ _ _ => .bind ?_)
        exact (ihps fun q' hq' => ih q' (List.mem_cons_of_mem _ hq')).imp fun _ _ _ => .pure trivial
    exact .bind (hall.imp fun _ _ _ => .pure trivial)

theorem Plan.render_yields (plan : Plan) {format : ExplainFormat} {costs : Bool} :
    Edit.Yields (plan.render m ctx format costs) () (fun _ _ => True) E :=
  .bind ((Shown.ofPath_yields hname plan plan.path).imp fun _ _ _ => .pure trivial)

end Render

/-! ## Planning in general -/

/-- **Points that fail before execution**, for one statement. -/
structure FailBefore (m : MetadataPoints) (p : PlanningPoints) (ctx : Context) : Prop where
  partitionDesc : ∀ oid, Before (m.partitionDesc ctx oid)
  hasSubclass : ∀ oid, Before (m.hasSubclass ctx oid)
  indexName : ∀ oid, Before (m.indexName ctx oid)
  relationInfo : ∀ oid inherits, Before (p.relationInfo ctx oid inherits)
  relationPaths : ∀ i, Before (p.relationPaths ctx i)
  expandChildren : ∀ i desc, Before (p.expandChildren ctx i desc)

namespace FailBefore

variable {m : MetadataPoints} {p : PlanningPoints} {ctx : Context} (h : FailBefore m p ctx)

theorem onRel {x : Edit Scope Unit} {rel : RelState} (hx : Before x) : Before (Draft.onRel x rel) :=
  .bind .value fun _ => .bind (.lend hx) fun _ => .bind .change fun _ => .pure

include h

theorem expand (entry : RangeEntry) (i : RangeIndex) : Before (Draft.expand m p ctx entry i) :=
  .bind (.ask (h.partitionDesc _)) fun _ => .bind (.zoom (h.expandChildren _ _)) fun _ =>
    .bind .value fun _ => .pure

/-- Planning an entry fails before execution. -/
theorem planEntry (rs : List Restriction) (fuel : Nat) :
    ∀ i, Before (Draft.planEntry m p ctx rs fuel i) := by
  induction fuel with
  | zero => exact fun _ => .planning
  | succ fuel ih =>
    intro i
    rw [Draft.planEntry_succ]
    refine .bind .value fun d => ?_
    rcases d.state.entry? i with _ | entry
    · exact .planning
    refine .bind (onRel (h.relationInfo _ _)) fun rel => .bind .change fun _ => ?_
    refine .bind ?_ fun rel => .bind (onRel (h.relationPaths _)) fun rel w => ?_
    · unfold Draft.findPaths
      split
      · exact .bind (h.expand entry i) fun children => .bind (.mapM ih children) fun _ => .pure
      · exact .bind .value fun _ => .pure
    · exact Draft.choose_yields (fun _ _ => trivial) fun _ => Error.isBefore_planning _

theorem plan {c : σ} (q : Query) (settings : Settings) : Before (q.plan c m p ctx settings) := by
  unfold Query.plan
  refine .bind ?_ fun ⟨r, restrictions⟩ => .bind ?_ fun inherits => ?_
  · exact fun _ => .ofExcept (fun _ _ => trivial) fun _ => Query.isBefore_of_bind
  · unfold Query.readsChildren
    split
    · exact .pure
    · split
      · exact .pure
      · exact h.hasSubclass _
  · exact .bind (.lend (h.planEntry restrictions _ _)) fun _ => .pure

theorem render (plan : Plan) (format : ExplainFormat) (costs : Bool) :
    Before (plan.render m ctx format costs) :=
  fun _ => plan.render_yields fun oid => h.indexName oid ()

end FailBefore

/-! ## Under the extension -/

namespace Extension

variable {x : Extension} {c : σ} {ctx : Context}

theorem orNext_before {α : Type} {own : Option α} {next : Ask α} (hnext : Before next) :
    Before (orNext ctx own next) := by
  unfold orNext
  split
  · split
    · exact .pure
    · exact hnext
  · exact hnext

/-- Naming an index never fails. -/
theorem indexName_yields {E : Error → Prop} (oid : Oid) :
    Edit.Yields ((x.metadataOver c).indexName ctx oid) () (fun _ _ => True) E := by
  unfold metadataOver Extension.metadata
  dsimp only
  split
  · exact .pure trivial
  · unfold PhysicalHost.metadata
    dsimp only
    split
    · exact .pure trivial
    · exact .pure trivial

theorem finishChild_before (parent child : Oid) :
    Before ((x.metadataOver c).finishChild ctx parent child) := by
  refine .bind .pure fun _ => ?_
  unfold Extension.finishChild
  split
  · split
    · exact .change
    · exact .pure
  · exact .pure

/-- Adding the entries of partitions. -/
theorem expandInto_before {finish : Oid → Edit RangeEntry Unit}
    (hfinish : ∀ oid, Before (finish oid)) (parent : RangeIndex) (children : List Oid) :
    Before (PlanState.expandInto finish parent children) := by
  have hone : ∀ e oid, Before (PlanState.addOneChild finish parent e oid) := by
    intro e oid
    refine .bind (.lend (hfinish oid)) fun _ => .bind .value fun state => ?_
    split
    · exact .pure
    · exact .bind .put fun _ => .pure
  have heach : ∀ e oids, Before (PlanState.addEachChild finish parent e oids) := by
    intro e oids
    induction oids with
    | nil => exact .pure
    | cons oid oids ih => exact .bind (hone e oid) fun _ => .bind ih fun _ => .pure
  unfold PlanState.expandInto
  refine .bind .value fun state => ?_
  split
  · exact .planning
  · exact heach _ children

/-- Adding the entries of inheritance children. -/
theorem hostExpandChildren_before (i : RangeIndex) (desc : Option PartitionDesc) :
    Before (PhysicalHost.expandChildren c (x.metadataOver c) ctx i desc) := by
  have hall : ∀ parentId oids,
      Before (PhysicalHost.addMembers c (x.metadataOver c) ctx i parentId oids) := by
    intro parentId oids
    induction oids with
    | nil => exact .pure
    | cons oid oids ih =>
      refine .bind ?_ fun _ => ih
      exact .bind .answer fun _ => .bind (.lend (finishChild_before _ _)) fun _ => .change
  unfold PhysicalHost.expandChildren
  refine .bind .value fun state => ?_
  split
  · exact .planning
  · split
    · exact .bind .pure fun _ => hall _ _
    · exact .bind (.ask (orNext_before .answer)) fun _ => hall _ _

/-- **Every point of the extension fails before execution.** -/
theorem failBefore (x : Extension) (c : σ) (ctx : Context) :
    FailBefore (x.metadataOver c) (x.planningOver c) ctx where
  partitionDesc oid := orNext_before .pure
  hasSubclass oid := orNext_before (.bind .answer fun _ => .pure)
  indexName oid := fun _ => indexName_yields oid
  relationInfo oid inherits := by
    refine .bind (fun _ => (PhysicalHost.relationInfo_yields fun e _ =>
      Error.isBefore_catalog e).imp fun _ _ _ => trivial) fun _ => ?_
    split
    · exact .change
    · exact .pure
  relationPaths i := by
    refine .bind .pure fun _ => ?_
    split
    · exact .change
    · exact .pure
  expandChildren i desc := by
    show Before (if ctx.window.isActive then _ else _)
    split
    · unfold Extension.expandChildren
      refine .bind .value fun state => ?_
      split
      · exact hostExpandChildren_before i desc
      · split
        · exact hostExpandChildren_before i desc
        · exact .bind (expandInto_before (fun oid => finishChild_before _ oid) _ _) fun _ => .pure
    · exact hostExpandChildren_before i desc

end Extension

end WhatIf
