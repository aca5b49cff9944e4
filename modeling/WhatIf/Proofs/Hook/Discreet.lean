import WhatIf.Hook.PhysicalHost
import WhatIf.Hook.Probe
import WhatIf.Shadow.Extension
import WhatIf.Proofs.Hook.Agree
/-!
# Hook — interceptors that keep nothing from one statement to the next

A context tells a point the window of a statement and its number. The points of
the host look at neither, those of the extension look at the window alone, and
none looks at the journal; so none can tell two statements in the same window
apart (`ByWindow`). Around a statement, a discreet interceptor only watches: it
may note the statement or refuse it, and changes nothing. Probes are discreet
unless they are told to open windows.
-/

namespace WhatIf

variable {s α β : Type}

/-! ## Points that look at the window -/

/-- **A call that looks at the window** of its context, and not at the number of
the statement. -/
def Edit.ByWindow (f : Context → Edit s α) : Prop :=
  ∀ ctx ctx', ctx.window = ctx'.window → Agree (f ctx) (f ctx')

/-- A call that does not look at its context. -/
theorem Edit.Agree.byWindow {x : Edit s α} (h : Agree x x) : ByWindow fun _ => x :=
  fun _ _ _ => h

theorem Edit.ByWindow.bind {f : Context → Edit s α} {g : Context → α → Edit s β}
    (hf : ByWindow f) (hg : ∀ a, ByWindow fun ctx => g ctx a) :
    ByWindow fun ctx => f ctx >>= g ctx :=
  fun ctx ctx' hwindow => (hf ctx ctx' hwindow).bind fun a => hg a ctx ctx' hwindow

/-- One call in an active window, and another outside. -/
theorem Edit.ByWindow.ite {f g : Context → Edit s α} (hf : ByWindow f) (hg : ByWindow g) :
    ByWindow fun ctx => if ctx.window.isActive then f ctx else g ctx := by
  intro ctx ctx' hwindow
  dsimp only
  rw [hwindow]
  exact .ite (hf ctx ctx' hwindow) (hg ctx ctx' hwindow)

/-- Metadata points that look at the window. -/
structure MetadataPoints.ByWindow (m : MetadataPoints) : Prop where
  partitionDesc : ∀ oid, Edit.ByWindow fun ctx => m.partitionDesc ctx oid
  partitionKey : ∀ oid, Edit.ByWindow fun ctx => m.partitionKey ctx oid
  hasSubclass : ∀ oid, Edit.ByWindow fun ctx => m.hasSubclass ctx oid
  inheritors : ∀ oid, Edit.ByWindow fun ctx => m.inheritors ctx oid
  finishChild : ∀ parent child, Edit.ByWindow fun ctx => m.finishChild ctx parent child
  indexName : ∀ oid, Edit.ByWindow fun ctx => m.indexName ctx oid

/-- Planning points that look at the window. -/
structure PlanningPoints.ByWindow (p : PlanningPoints) : Prop where
  relationInfo : ∀ oid inherits, Edit.ByWindow fun ctx => p.relationInfo ctx oid inherits
  relationPaths : ∀ i, Edit.ByWindow fun ctx => p.relationPaths ctx i
  expandChildren : ∀ i desc, Edit.ByWindow fun ctx => p.expandChildren ctx i desc

/-- **An interceptor that looks at the window**, if the points under it do. -/
structure Interceptor.ByWindow (i : Interceptor) : Prop where
  metadata : ∀ next : MetadataPoints, next.ByWindow → (i.metadata next).ByWindow
  planning : ∀ (whole : MetadataPoints) (next : PlanningPoints), whole.ByWindow → next.ByWindow →
    (i.planning whole next).ByWindow

/-! ## The host -/

namespace PhysicalHost

variable {σ : Type} [Catalog σ] {c : σ} {m : MetadataPoints}

theorem metadata_byWindow (c : σ) : (metadata c).ByWindow where
  partitionDesc _ := (Edit.Agree.pure _).byWindow
  partitionKey _ := (Edit.Agree.pure _).byWindow
  hasSubclass _ := ((Edit.Agree.ofExcept _).bind fun _ => .pure _).byWindow
  inheritors _ := (Edit.Agree.ofExcept _).byWindow
  finishChild _ _ := (Edit.Agree.pure _).byWindow
  indexName oid := by
    intro ctx ctx' hwindow
    dsimp only [metadata]
    split
    · exact .pure _
    · exact .pure _

theorem addMember_byWindow (hm : m.ByWindow) (parent : RangeIndex) (parentId oid : Oid) :
    Edit.ByWindow fun ctx => addMember c m ctx parent parentId oid := by
  intro ctx ctx' hwindow
  unfold addMember
  refine (Edit.Agree.ofExcept _).bind fun r => ?_
  exact ((hm.finishChild _ _ _ _ hwindow).lend _).bind fun _ => .change _

theorem addMembers_byWindow (hm : m.ByWindow) (parent : RangeIndex) (parentId : Oid)
    (oids : List Oid) : Edit.ByWindow fun ctx => addMembers c m ctx parent parentId oids := by
  induction oids with
  | nil => exact (Edit.Agree.pure ()).byWindow
  | cons oid oids ih => exact (addMember_byWindow hm parent parentId oid).bind fun _ => ih

theorem planning_byWindow (c : σ) (hm : m.ByWindow) : (planning c m).ByWindow where
  relationInfo oid inherits := by
    have hinfo : Edit.Agree (relationInfo c oid inherits) (relationInfo c oid inherits) := by
      unfold relationInfo
      refine (Edit.Agree.ofExcept _).bind fun r => (Edit.Agree.change _).bind fun _ => ?_
      exact .ite (.pure _) ((Edit.Agree.ofExcept _).bind fun is => .change _)
    exact hinfo.byWindow
  relationPaths _ := (Edit.Agree.pure _).byWindow
  expandChildren i desc := by
    intro ctx ctx' hwindow
    unfold planning expandChildren
    refine Edit.Agree.value.bind fun state => ?_
    split
    · exact .fail _
    · split
      · exact (Edit.Agree.pure _).bind fun members => addMembers_byWindow hm _ _ _ _ _ hwindow
      · refine (hm.inheritors _ _ _ hwindow).ask.bind fun members => ?_
        exact addMembers_byWindow hm _ _ _ _ _ hwindow

end PhysicalHost

/-! ## The extension -/

namespace PlanState

variable {finish finish' : Oid → Edit RangeEntry Unit}

/-- Adding children agrees with itself, given what finishes their entries. -/
theorem expandInto_agree (h : ∀ oid, Edit.Agree (finish oid) (finish' oid)) (parent : RangeIndex)
    (children : List Oid) :
    Edit.Agree (expandInto finish parent children) (expandInto finish' parent children) := by
  have hone : ∀ e oid, Edit.Agree (addOneChild finish parent e oid)
      (addOneChild finish' parent e oid) := fun e oid =>
    ((h oid).lend _).bind fun _ => Edit.Agree.value.bind fun _ =>
      .ite (.pure _) ((Edit.Agree.put _).bind fun _ => .pure _)
  have heach : ∀ e, Edit.Agree (addEachChild finish parent e children)
      (addEachChild finish' parent e children) := by
    intro e
    induction children with
    | nil => exact .pure 0
    | cons oid children ih => exact (hone e oid).bind fun _ => ih.bind fun _ => .pure _
  unfold expandInto
  refine Edit.Agree.value.bind fun state => ?_
  split
  · exact .fail _
  · exact heach _

end PlanState

namespace Extension

variable (x : Extension)

theorem orNext_byWindow {own : Option α} {next : Context → Ask α} (h : Edit.ByWindow next) :
    Edit.ByWindow fun ctx => orNext ctx own (next ctx) := by
  refine Edit.ByWindow.ite ?_ h
  cases own with
  | some answer => exact (Edit.Agree.pure answer).byWindow
  | none => exact h

theorem metadata_byWindow {next : MetadataPoints} (h : next.ByWindow) :
    (x.metadata next).ByWindow where
  partitionDesc oid := orNext_byWindow (h.partitionDesc oid)
  partitionKey oid := orNext_byWindow (h.partitionKey oid)
  hasSubclass oid := orNext_byWindow (h.hasSubclass oid)
  inheritors oid := orNext_byWindow (h.inheritors oid)
  finishChild parent child := by
    refine (h.finishChild parent child).bind fun _ => .ite ?_ (Edit.Agree.pure _).byWindow
    split
    · exact (Edit.Agree.change _).byWindow
    · exact (Edit.Agree.pure _).byWindow
  indexName oid := by
    intro ctx ctx' hwindow
    dsimp only [metadata]
    split
    · exact .pure _
    · exact h.indexName oid ctx ctx' hwindow

theorem planning_byWindow {whole : MetadataPoints} {next : PlanningPoints} (hwhole : whole.ByWindow)
    (h : next.ByWindow) : (x.planning whole next).ByWindow where
  relationInfo oid inherits := (h.relationInfo oid inherits).bind fun _ =>
    .ite (Edit.Agree.change _).byWindow (Edit.Agree.pure _).byWindow
  relationPaths i := (h.relationPaths i).bind fun _ =>
    .ite (Edit.Agree.change _).byWindow (Edit.Agree.pure _).byWindow
  expandChildren i desc := by
    refine .ite (Edit.Agree.value.byWindow.bind fun state => ?_) (h.expandChildren i desc)
    split
    · exact h.expandChildren i desc
    · split
      · exact h.expandChildren i desc
      · refine Edit.ByWindow.bind (fun ctx ctx' hwindow => ?_) fun _ => (Edit.Agree.pure _).byWindow
        exact PlanState.expandInto_agree (fun oid => hwhole.finishChild _ _ _ _ hwindow) _ _

/-- **The extension looks at the window.** -/
theorem byWindow : x.interceptor.ByWindow :=
  ⟨fun _ h => x.metadata_byWindow h, fun _ _ hwhole h => x.planning_byWindow hwhole h⟩

end Extension

/-! ## Layers -/

namespace Host

variable {h : Host} {layers : List Interceptor}

theorem metadataBehind_byWindow (hhost : h.metadata.ByWindow)
    (hlayers : ∀ i ∈ layers, i.ByWindow) : (h.metadataBehind layers).ByWindow := by
  unfold metadataBehind
  induction layers with
  | nil => exact hhost
  | cons i layers ih =>
    exact (hlayers i List.mem_cons_self).metadata _
      (ih fun j hj => hlayers j (List.mem_cons_of_mem _ hj))

theorem planningBehind_byWindow (hhost : h.metadata.ByWindow)
    (hplanning : ∀ m : MetadataPoints, m.ByWindow → (h.planning m).ByWindow)
    (hlayers : ∀ i ∈ layers, i.ByWindow) : (h.planningBehind layers).ByWindow := by
  have hwhole := metadataBehind_byWindow hhost hlayers
  unfold planningBehind
  dsimp only
  generalize h.metadataBehind layers = whole at hwhole ⊢
  induction layers with
  | nil => exact hplanning whole hwhole
  | cons i layers ih =>
    exact (hlayers i List.mem_cons_self).planning _ _ hwhole
      (ih fun j hj => hlayers j (List.mem_cons_of_mem _ hj))

end Host

/-! ## Around a statement -/

namespace Interceptor

/-- **An interceptor that only watches a call** around a statement: it passes the
call on once it has watched. -/
def Watches (i : Interceptor) (call : StatementPoints → Edit Running Unit)
    (answer : Except Error Unit) : Prop :=
  ∃ x, Edit.Watches x answer ∧ ∀ next, call (i.statement next) = x >>= fun _ => call next

/-- **A discreet interceptor** keeps nothing from one statement to the next, and
only watches the statements: each it passes on, or else refuses, always with one
error. -/
structure Discreet (i : Interceptor) : Prop extends i.ByWindow where
  utility : ∀ s, ∃ answer, i.Watches (fun p => p.utility s) answer
  executorEnd : ∃ answer, i.Watches (fun p => p.executorEnd) answer

/-- Several layers watch a call as one does. -/
theorem exists_watches {layers : List Interceptor} {call : StatementPoints → Edit Running Unit}
    {P : Except Error Unit → Prop} (hok : P (.ok ()))
    (hbind : ∀ a b, P a → P b → P (a.bind fun _ => b))
    (hall : ∀ i ∈ layers, ∃ answer, P answer ∧ i.Watches call answer) :
    ∃ x answer, P answer ∧ Edit.Watches x answer ∧ ∀ next : StatementPoints,
      call (layers.foldr (fun i next => i.statement next) next) = x >>= fun _ => call next := by
  induction layers with
  | nil => exact ⟨pure (), .ok (), hok, .pure, fun next => (pure_bind _ _).symm⟩
  | cons i layers ih =>
    obtain ⟨a, ha, x, hx, hcall⟩ := hall i List.mem_cons_self
    obtain ⟨y, b, hb, hy, hrest⟩ := ih fun j hj => hall j (List.mem_cons_of_mem _ hj)
    refine ⟨x >>= fun _ => y, _, hbind a b ha hb, hx.bind hy, fun next => ?_⟩
    rw [List.foldr_cons, hcall, hrest, bind_assoc]

end Interceptor

/-! ## Probes -/

namespace Probe

variable {p : Probe} {point : Point} {what : Sighting}

theorem sight_byWindow : Edit.ByWindow fun _ => (p.sight what : Edit s Unit) :=
  (Edit.Agree.ite (.note _ _) (.pure _)).byWindow

/-- What comes before a call does not look at its context. -/
theorem enter_byWindow : Edit.ByWindow fun _ => (p.enter point what : Edit s Unit) := by
  refine sight_byWindow.bind fun _ => ?_
  unfold failAt
  split
  · exact (Edit.Agree.fail _).byWindow
  · exact (Edit.Agree.pure _).byWindow

theorem orNext_byWindow {own : Option α} {next : Context → Ask α} (h : Edit.ByWindow next) :
    Edit.ByWindow fun ctx => orNext own (next ctx) := by
  cases own with
  | none => exact h
  | some answer => exact (Edit.Agree.pure answer).byWindow

theorem metadata_byWindow {next : MetadataPoints} (h : next.ByWindow) :
    (p.metadata next).ByWindow where
  partitionDesc oid := enter_byWindow.bind fun _ => orNext_byWindow (h.partitionDesc oid)
  partitionKey oid := enter_byWindow.bind fun _ => h.partitionKey oid
  hasSubclass oid := enter_byWindow.bind fun _ => orNext_byWindow (h.hasSubclass oid)
  inheritors oid := enter_byWindow.bind fun _ => h.inheritors oid
  finishChild parent child := enter_byWindow.bind fun _ =>
    (h.finishChild parent child).bind fun _ => (Edit.Agree.change _).byWindow
  indexName oid := by
    refine enter_byWindow.bind fun _ ctx ctx' hwindow => ?_
    exact .ite (.pure _) ((h.indexName oid ctx ctx' hwindow).bind fun _ => .pure _)

theorem planning_byWindow (whole : MetadataPoints) {next : PlanningPoints} (h : next.ByWindow) :
    (p.planning whole next).ByWindow where
  relationInfo oid inherits := Edit.Agree.value.byWindow.bind fun _ => enter_byWindow.bind fun _ =>
    (h.relationInfo oid inherits).bind fun _ => (Edit.Agree.change _).byWindow
  relationPaths i := Edit.Agree.value.byWindow.bind fun _ => enter_byWindow.bind fun _ =>
    (h.relationPaths i).bind fun _ => (Edit.Agree.change _).byWindow.bind fun _ =>
      Edit.Agree.value.byWindow.bind fun _ => sight_byWindow
  expandChildren i desc := enter_byWindow.bind fun _ => h.expandChildren i desc

/-- How what comes before a call ends. -/
def entering (p : Probe) (point : Point) : Except Error Unit :=
  match p.failures.find? fun f => f.1 == point with
  | some (_, reason) => .error (.interceptor p.name reason)
  | none => .ok ()

theorem enter_watches : Edit.Watches (p.enter point what : Edit s Unit) (p.entering point) := by
  have hsight : Edit.Watches (p.sight what : Edit s Unit) (.ok ()) := by
    unfold sight
    split
    · exact .note _
    · exact .pure
  have hfail : Edit.Watches (p.failAt point : Edit s Unit) (p.entering point) := by
    unfold failAt entering
    generalize p.failures.find? (fun f => f.1 == point) = found
    rcases found with _ | ⟨_, reason⟩
    · exact .pure
    · exact .fail _
  exact hsight.bind hfail

theorem watches_executorEnd (p : Probe) :
    p.interceptor.Watches (fun points => points.executorEnd) (p.entering .executorEnd) := by
  refine ⟨do
    let r ← Edit.value
    p.enter .executorEnd (.executorEnd r.context.id r.context.window.isActive
      r.task.explain.isSome r.task.plan.isSome r.task.trace.isSome), ?_, fun next => ?_⟩
  · exact .value fun _ => enter_watches
  · exact (bind_assoc _ _ _).symm

/-- **A probe is discreet** if it opens no windows. -/
theorem discreet (hwindow : p.opensWindow = false) : p.interceptor.Discreet where
  metadata _ h := metadata_byWindow h
  planning whole _ _ h := planning_byWindow whole h
  utility statement := by
    refine ⟨p.entering .utility, do
      let r ← Edit.value
      p.enter .utility (.utility r.context.id r.context.window.isActive r.task.statement), ?_,
      fun next => ?_⟩
    · exact .value fun _ => enter_watches
    · rw [bind_assoc]
      refine bind_congr fun r => bind_congr fun _ => ?_
      rw [hwindow]
      rfl
  executorEnd := ⟨_, p.watches_executorEnd⟩

end Probe

end WhatIf
