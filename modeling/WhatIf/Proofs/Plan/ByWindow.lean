import WhatIf.Proofs.Plan.Entry
import WhatIf.Proofs.Hook.Discreet
/-!
# Plan — planning and showing a plan look at the window

Planning hands its context on to the points, and so does showing a plan. Over
points that look at the window of a context alone, the plan of a query and its
text do not depend on the number of the statement, nor on what was noted before
it.
-/

namespace WhatIf

variable {m : MetadataPoints} {p : PlanningPoints}

/-! ## Entries -/

namespace Draft

variable {rs : List Restriction} {i : RangeIndex} {entry : RangeEntry}

theorem onRel_agree {x y : Edit Scope Unit} (h : Edit.Agree x y) (rel : RelState) :
    Edit.Agree (onRel x rel) (onRel y rel) :=
  Edit.Agree.value.bind fun _ => (h.lend _).bind fun _ => (Edit.Agree.change _).bind fun _ =>
    .pure _

theorem choose_agree (rel : RelState) : Edit.Agree (choose i entry rel) (choose i entry rel) := by
  have hcheapest : Edit.Agree (cheapest rel) (cheapest rel) := by
    unfold cheapest
    split
    · exact .pure _
    · exact .fail _
  exact .ite ((Edit.Agree.change _).bind fun _ => hcheapest) hcheapest

theorem expand_byWindow (hm : m.ByWindow) (hp : p.ByWindow) :
    Edit.ByWindow fun ctx => expand m p ctx entry i := fun ctx ctx' hwindow =>
  (hm.partitionDesc _ ctx ctx' hwindow).ask.bind fun desc =>
    (hp.expandChildren i desc ctx ctx' hwindow).zoom.bind fun _ =>
      Edit.Agree.value.bind fun _ => .pure _

/-- Planning an entry looks at the window if planning its children does. -/
theorem planFrom_byWindow (hm : m.ByWindow) (hp : p.ByWindow)
    {plan : Context → RangeIndex → Edit Draft Path}
    (hplan : ∀ i, Edit.ByWindow fun ctx => plan ctx i) :
    Edit.ByWindow fun ctx => planFrom m p ctx rs (plan ctx) i entry := by
  intro ctx ctx' hwindow
  have hpaths : ∀ rel, Edit.Agree (findPaths m p ctx (plan ctx) i entry rel)
      (findPaths m p ctx' (plan ctx') i entry rel) := fun rel =>
    .ite
      ((expand_byWindow hm hp ctx ctx' hwindow).bind fun children =>
        (Edit.Agree.mapM (fun i => hplan i ctx ctx' hwindow) children).bind fun _ => .pure _)
      (Edit.Agree.value.bind fun _ => .pure _)
  refine (onRel_agree (hp.relationInfo _ _ ctx ctx' hwindow) _).bind fun rel => ?_
  refine (Edit.Agree.change _).bind fun _ => (hpaths rel).bind fun rel => ?_
  exact (onRel_agree (hp.relationPaths i ctx ctx' hwindow) rel).bind fun rel => choose_agree rel

/-- **Planning an entry looks at the window**, to any depth. -/
theorem planEntry_byWindow (hm : m.ByWindow) (hp : p.ByWindow) (fuel : Nat) (i : RangeIndex) :
    Edit.ByWindow fun ctx => planEntry m p ctx rs fuel i := by
  induction fuel generalizing i with
  | zero => exact (Edit.Agree.fail _).byWindow
  | succ fuel ih =>
    intro ctx ctx' hwindow
    dsimp only
    rw [planEntry_succ, planEntry_succ]
    refine Edit.Agree.value.bind fun draft => ?_
    split
    · exact .fail _
    · exact planFrom_byWindow hm hp ih ctx ctx' hwindow

end Draft

/-! ## Queries -/

/-- **Planning a query looks at the window.** -/
theorem Query.plan_byWindow {σ : Type} [Catalog σ] (c : σ) (hm : m.ByWindow) (hp : p.ByWindow)
    (q : Query) (s : Settings) : Edit.ByWindow fun ctx => q.plan c m p ctx s := by
  intro ctx ctx' hwindow
  refine (Edit.Agree.ofExcept _).bind fun (r, restrictions) => Edit.Agree.bind ?_ fun inherits => ?_
  · exact .ite (.pure _) (.ite (.pure _) (hm.hasSubclass _ ctx ctx' hwindow))
  · refine ((Draft.planEntry_byWindow hm hp _ _ ctx ctx' hwindow).lend _).bind fun _ => ?_
    exact .pure _

/-! ## Texts -/

theorem Shown.ofPath_byWindow (hm : m.ByWindow) (plan : Plan) (path : Path) :
    Edit.ByWindow fun ctx => Shown.ofPath m ctx plan path := by
  intro ctx ctx' hwindow
  have hname : ∀ oid, Edit.Agree (Shown.indexName m ctx oid) (Shown.indexName m ctx' oid) :=
    fun oid => (hm.indexName oid ctx ctx' hwindow).bind fun _ => .pure _
  induction path using Path.induct with
  | seqScan h => exact .pure _
  | dummy h => exact .pure _
  | indexScan h i rs => exact (hname i).bind fun _ => .pure _
  | bitmapScan h i rs => exact (hname i).bind fun _ => .pure _
  | append h ps ih =>
    have hall : Edit.Agree (Shown.ofPaths m ctx plan ps) (Shown.ofPaths m ctx' plan ps) := by
      induction ps with
      | nil => exact .pure _
      | cons q ps ihps =>
        refine (ih q List.mem_cons_self).bind fun _ => ?_
        exact (ihps fun q' hq' => ih q' (List.mem_cons_of_mem _ hq')).bind fun _ => .pure _
    exact hall.bind fun _ => .pure _

/-- **Showing a plan looks at the window.** -/
theorem Plan.render_byWindow (hm : m.ByWindow) (plan : Plan) (format : ExplainFormat)
    (costs : Bool) : Edit.ByWindow fun ctx => plan.render m ctx format costs :=
  (Shown.ofPath_byWindow hm plan plan.path).bind fun _ => (Edit.Agree.pure _).byWindow

end WhatIf
