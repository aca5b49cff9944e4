import WhatIf.Session
import WhatIf.Proofs.Shadow.Failures
/-!
# Session — a statement, from its start to its end

What running a statement comes to, with the calls of the points written out: an
`EXPLAIN` plans, executes the plan if asked to, and shows it; a `SELECT` plans
and executes. Over a stack that holds the extension alone, a utility statement
runs in the window the extension opens for it, and the end of any statement
closes the window.
-/

namespace WhatIf

/-! ## The options of an `EXPLAIN` -/

namespace Explain

variable {e : Explain} {name : String} {error : Error} {choice : Choice}

theorem isBefore_of_flag (h : e.flag name = .error error) : error.IsBefore := by
  rintro fault rfl
  unfold flag at h
  split at h
  · cases h
  · split at h
    · cases h
    · split at h
      · cases h
      · cases h

theorem isBefore_of_format (h : e.format = .error error) : error.IsBefore := by
  rintro fault rfl
  unfold format at h
  split at h
  · cases h
  · split at h
    · cases h
    · unfold ExplainFormat.read at h
      split at h
      · cases h
      · cases h
      · cases h

/-- Bad options are no failure of execution. -/
theorem isBefore_of_choice (h : e.choice = .error error) : error.IsBefore := by
  unfold Explain.choice at h
  rcases ha : e.flag "analyze" with err | analyze
  · rw [ha] at h
    exact isBefore_of_flag (ha.trans (congrArg Except.error (Except.error.inj h)))
  rcases hf : e.format with err | format
  · rw [ha, hf] at h
    exact isBefore_of_format (hf.trans (congrArg Except.error (Except.error.inj h)))
  rcases hc : e.flag "costs" with err | costs
  · rw [ha, hf, hc] at h
    exact isBefore_of_flag (hc.trans (congrArg Except.error (Except.error.inj h)))
  · rw [ha, hf, hc] at h
    cases h

/-- **Without an `analyze` option nothing is executed.** -/
theorem analyze_of_choice (h : e.choice = .ok choice) (hnone : e.option? "analyze" = none) :
    choice.analyze = false := by
  have ha : e.flag "analyze" = .ok none := by
    unfold flag
    rw [hnone]
  unfold Explain.choice at h
  rcases hf : e.format with err | format
  · rw [ha, hf] at h
    cases h
  rcases hc : e.flag "costs" with err | costs
  · rw [ha, hf, hc] at h
    cases h
  · rw [ha, hf, hc] at h
    exact Except.ok.inj h ▸ rfl

end Explain

/-! ## The host -/

variable {ι σ : Type} [Catalog σ]

namespace PhysicalHost

/-- What an `EXPLAIN` has opened: what executing the plan opens, if the plan is
executed. -/
def opened (c : σ) (analyze : Bool) (plan : Plan) (before : Option Trace) :
    Except Error (Option Trace) :=
  if analyze then (plan.execute c).map some else .ok before

variable {c : σ} {m : MetadataPoints} {p : PlanningPoints} {ctx : Context} {task : Task}
variable {j : Journal}

/-- **An `EXPLAIN`, step by step.** -/
theorem runExplain_apply {e : Explain} :
    runExplain c m p e (⟨ctx, task⟩, j) =
      match e.choice with
      | .error error => (.error error, ⟨ctx, task⟩, j)
      | .ok choice =>
        match e.query.plan c m p ctx task.settings ((), j) with
        | (.error error, _, j) => (.error error, ⟨ctx, task⟩, j)
        | (.ok plan, _, j) =>
          match opened c choice.analyze plan task.trace with
          | .error error => (.error error, ⟨ctx, task⟩, j)
          | .ok trace =>
            match plan.render m ctx choice.format choice.costs ((), j) with
            | (.error error, _, j) => (.error error, ⟨ctx, { task with trace }⟩, j)
            | (.ok text, _, j) =>
              (.ok (), ⟨ctx, { task with trace, explain := some text, plan := some plan }⟩, j) := by
  unfold runExplain opened
  rw [Edit.bind_apply]
  dsimp only [Edit.ofExcept]
  rcases e.choice with error | choice
  · rfl
  dsimp only
  rw [Edit.bind_apply]
  dsimp only [Edit.value]
  rw [Edit.bind_apply]
  dsimp only [Edit.ask]
  generalize e.query.plan c m p ctx task.settings ((), j) = planned
  rcases planned with ⟨error | plan, _, j₁⟩
  · rfl
  dsimp only
  cases choice.analyze with
  | false =>
    rw [if_neg (by simp), if_neg (by simp), Edit.bind_apply]
    dsimp only [Edit.ask]
    generalize plan.render m ctx choice.format choice.costs ((), j₁) = shown
    rcases shown with ⟨error | text, _, j₂⟩
    · rfl
    · rfl
  | true =>
    rw [if_pos rfl, if_pos rfl, Edit.bind_apply]
    dsimp only [Edit.ofExcept]
    rcases plan.execute c with error | trace
    · rfl
    dsimp only [Except.map]
    rw [Edit.bind_apply]
    dsimp only [Edit.change]
    rw [Edit.bind_apply]
    dsimp only [Edit.ask]
    generalize plan.render m ctx choice.format choice.costs ((), j₁) = shown
    rcases shown with ⟨error | text, _, j₂⟩
    · rfl
    · rfl

/-- The points of the host with nothing installed over it. -/
theorem behind_nil : (host c).behind [] =
    ⟨metadata c, planning c (metadata c), statement c (metadata c) (planning c (metadata c))⟩ := rfl

end PhysicalHost

namespace Session

/-- **A `SELECT`, step by step.** -/
theorem runSelect_apply {c : σ} {p : Points} {q : Query} {ctx : Context} {task : Task}
    {j : Journal} :
    runSelect c p (some q) (⟨ctx, task⟩, j) =
      match q.plan c p.metadata p.planning ctx task.settings ((), j) with
      | (.error error, _, j) => (.error error, ⟨ctx, task⟩, j)
      | (.ok plan, _, j) =>
        match plan.execute c with
        | .error error => (.error error, ⟨ctx, task⟩, j)
        | .ok trace =>
          (.ok (), ⟨ctx, { task with trace := some trace, plan := some plan }⟩, j) := by
  unfold runSelect
  dsimp only
  rw [Edit.bind_apply]
  dsimp only [Edit.value]
  rw [Edit.bind_apply]
  dsimp only [Edit.ask]
  generalize q.plan c p.metadata p.planning ctx task.settings ((), j) = planned
  rcases planned with ⟨error | plan, _, j₁⟩
  · rfl
  dsimp only
  rw [Edit.bind_apply]
  dsimp only [Edit.ofExcept]
  rcases plan.execute c with error | trace
  · rfl
  · rfl

/-! ## The end of a statement -/

/-- A session after a statement that closed its window, given the answer and
what was produced. -/
def after (s : Session ι) (planned : PlannedStatement) (answer : Except Error Unit) (task : Task) :
    Session ι :=
  { s with
    statements := s.statements + 1
    lastWindow := some .closed
    settings := match answer with
      | .ok () => if planned.isSet then task.settings else s.settings
      | .error _ => s.settings }

/-- **A statement whose end closes the window**, and fails at most. -/
theorem execute_eq_firstError {c : σ} {resolve : ι → Interceptor} {s : Session ι}
    {statement : Statement} {j j' j'' : Journal} {answer ended : Except Error Unit}
    {running : Running}
    (hrun : runStatement c (s.points c resolve) (.ofStatement statement)
      (⟨.start (s.statements + 1), .ofStatement (.ofStatement statement) s.settings⟩, j) =
        (answer, running, j'))
    (hend : (s.points c resolve).statement.executorEnd (running, j') =
      (ended, { running with context := { running.context with window := .closed } }, j'')) :
    s.execute c resolve statement j =
      ((firstError answer ended).map fun _ => running.task.result,
        s.after (.ofStatement statement) (firstError answer ended) running.task, j'') := by
  unfold execute
  dsimp only
  have hrun' : (runStatement c (s.points c resolve) (.ofStatement statement)).run
      ⟨.start (s.statements + 1), .ofStatement (.ofStatement statement) s.settings⟩ j =
        (answer, running, j') := hrun
  have hend' : (s.points c resolve).statement.executorEnd.run running j' =
      (ended, { running with context := { running.context with window := .closed } }, j'') := hend
  rw [hrun']
  dsimp only
  rw [hend']
  rcases firstError answer ended with error | ⟨⟩
  · rfl
  · dsimp only [after]
    split
    · rfl
    · rfl

/-- **A statement whose end closes the window** and does nothing else. -/
theorem execute_eq {c : σ} {resolve : ι → Interceptor} {s : Session ι} {statement : Statement}
    {j j' : Journal} {answer : Except Error Unit} {running : Running}
    (hrun : runStatement c (s.points c resolve) (.ofStatement statement)
      (⟨.start (s.statements + 1), .ofStatement (.ofStatement statement) s.settings⟩, j) =
        (answer, running, j'))
    (hend : (s.points c resolve).statement.executorEnd (running, j') =
      (.ok (), { running with context := { running.context with window := .closed } }, j')) :
    s.execute c resolve statement j =
      (answer.map fun _ => running.task.result,
        s.after (.ofStatement statement) answer running.task, j') := by
  have hanswer : firstError answer (.ok ()) = answer := by
    rcases answer with error | ⟨⟩
    · rfl
    · rfl
  rw [execute_eq_firstError hrun hend, hanswer]

end Session

/-! ## Over the extension -/

namespace Extension

variable {x : Extension} {c : σ} {ctx : Context} {task : Task} {j : Journal}

/-- The points of a session that holds the extension alone. -/
def pointsOver (x : Extension) (c : σ) : Points := (PhysicalHost.host c).behind [x.interceptor]

theorem pointsOver_metadata : (x.pointsOver c).metadata = x.metadataOver c := rfl

theorem pointsOver_planning : (x.pointsOver c).planning = x.planningOver c := rfl

/-- The context of a utility statement, in the window opened for it. -/
def opening (x : Extension) (ctx : Context) (s : PlannedStatement) : Context :=
  { ctx with window := ⟨s.isPlanOnly, x.enabled⟩ }

/-- A utility statement is run by the host once its window is open. -/
theorem utility_eq {s : PlannedStatement} :
    (x.pointsOver c).statement.utility s = (do
      setWindow ⟨s.isPlanOnly, x.enabled⟩
      (PhysicalHost.statement c (x.metadataOver c) (x.planningOver c)).utility s) := rfl

/-- An `EXPLAIN` runs in the window opened for it. -/
theorem utility_explain {s : PlannedStatement} {e : Explain} (hs : s.utility = some (.explain e)) :
    (x.pointsOver c).statement.utility s (⟨ctx, task⟩, j) =
      PhysicalHost.runExplain c (x.metadataOver c) (x.planningOver c) e
        (⟨x.opening ctx s, task⟩, j) := by
  rw [utility_eq, Edit.bind_apply]
  unfold PhysicalHost.statement
  dsimp only
  rw [hs]
  rfl

/-- So does a `SET`. -/
theorem utility_set {s : PlannedStatement} {name value : String}
    (hs : s.utility = some (.set name value)) :
    (x.pointsOver c).statement.utility s (⟨ctx, task⟩, j) =
      PhysicalHost.runSet name value (⟨x.opening ctx s, task⟩, j) := by
  rw [utility_eq, Edit.bind_apply]
  unfold PhysicalHost.statement
  dsimp only
  rw [hs]
  rfl

/-- **An `EXPLAIN` that only plans** answers with the plan of its query. It fails
only with bad options, or if planning fails: a plan can always be shown. -/
theorem runExplain_planOnly {e : Explain} (honly : e.option? "analyze" = none) :
    ∃ answer task' j', PhysicalHost.runExplain c (x.metadataOver c) (x.planningOver c) e
      (⟨ctx, task⟩, j) = (answer, ⟨ctx, task'⟩, j') ∧
        (answer.map fun _ => task'.plan) = (e.choice.bind fun _ =>
          (e.query.plan c (x.metadataOver c) (x.planningOver c) ctx task.settings ((), j)).1).map
            some := by
  rw [PhysicalHost.runExplain_apply]
  rcases hchoice : e.choice with error | choice
  · exact ⟨_, _, _, rfl, rfl⟩
  have hopened : ∀ plan, PhysicalHost.opened c choice.analyze plan task.trace = .ok task.trace := by
    intro plan
    rw [PhysicalHost.opened, Explain.analyze_of_choice hchoice honly, if_neg Bool.false_ne_true]
  dsimp only [Except.bind]
  generalize e.query.plan c (x.metadataOver c) (x.planningOver c) ctx task.settings ((), j) = planned
  rcases planned with ⟨error | plan, _, j₁⟩
  · exact ⟨_, _, _, rfl, rfl⟩
  dsimp only
  rw [hopened]
  dsimp only
  have hrender : Edit.Yields (plan.render (x.metadataOver c) ctx choice.format choice.costs) ()
      (fun _ _ => True) fun _ => False :=
    plan.render_yields fun oid => indexName_yields oid
  obtain ⟨text, _, j₂, hshown, -⟩ := hrender.exists_ok j₁
  rw [hshown]
  exact ⟨_, _, _, rfl, rfl⟩

/-- The end of a statement closes the window. -/
theorem executorEnd_apply {r : Running} :
    (x.pointsOver c).statement.executorEnd (r, j) =
      (.ok (), { r with context := { r.context with window := .closed } }, j) := rfl

end Extension

namespace Session

variable {x : Extension} {c : σ} {s : Session ι} {resolve : ι → Interceptor}

/-- **A session over an extension**, which is alone on its stack. -/
def RunsOver (s : Session ι) (resolve : ι → Interceptor) (x : Extension) : Prop :=
  ∃ item, s.stack.items = [item] ∧ resolve item = x.interceptor

theorem RunsOver.points (h : s.RunsOver resolve x) : s.points c resolve = x.pointsOver c := by
  obtain ⟨item, hitems, hitem⟩ := h
  rw [Session.points, hitems, List.map_cons, List.map_nil, hitem]
  rfl

/-- What planning the query of an `EXPLAIN` answers, in the window that is opened
for it. -/
def planned (s : Session ι) (x : Extension) (c : σ) (e : Explain) (j : Journal) :
    Except Error Plan :=
  (e.query.plan c (x.metadataOver c) (x.planningOver c)
    (x.opening (.start (s.statements + 1)) (.ofStatement (.utility (.explain e)))) s.settings
    ((), j)).1

/-- **An `EXPLAIN` that only plans**, from its start to its end. -/
theorem execute_planOnly {e : Explain} (hs : s.RunsOver resolve x)
    (honly : e.option? "analyze" = none) (j : Journal) :
    (s.execute c resolve (.utility (.explain e)) j).1.map (fun result => result.plan) =
      (e.choice.bind fun _ => s.planned x c e j).map some := by
  have hpoints : s.points c resolve = x.pointsOver c := hs.points
  obtain ⟨answer, task', j', hrun, hplan⟩ := @Extension.runExplain_planOnly σ _ x c
    (x.opening (.start (s.statements + 1)) (.ofStatement (.utility (.explain e))))
    (.ofStatement (.ofStatement (.utility (.explain e))) s.settings) j e honly
  have hstatement : runStatement c (x.pointsOver c) (.ofStatement (.utility (.explain e)))
      (⟨.start (s.statements + 1), .ofStatement (.ofStatement (.utility (.explain e))) s.settings⟩,
        j) = _ :=
    (Extension.utility_explain rfl).trans hrun
  rw [execute_eq (hpoints ▸ hstatement) (hpoints ▸ Extension.executorEnd_apply)]
  refine Eq.trans ?_ hplan
  rcases answer with error | ⟨⟩
  · rfl
  · rfl

end Session

end WhatIf
