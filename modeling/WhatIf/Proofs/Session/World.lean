import WhatIf.Proofs.Session.Outcome
import WhatIf.Proofs.Shadow.Failures
import WhatIf.Proofs.Catalog.Memory
/-!
# Session — no statement both simulates and executes

Whether the extension shows its objects and whether the host executes a plan
are two readings of the options of an `EXPLAIN`. They never both say yes: in an
active window nothing is opened, and outside it every plan is over what exists,
so that execution cannot fail (`Safe`). A world is a catalog in memory, the
extension, and a session over the two; the calls that make one from another
keep the catalog in agreement with itself and the extension alone on the stack.
-/

namespace WhatIf

theorem Settings.isBefore_of_set {s : Settings} {name value : String} {error : Error}
    (h : s.set name value = .error error) : error.IsBefore := by
  rintro fault rfl
  unfold Settings.set at h
  split at h
  · cases h
  · cases h

/-! ## One statement -/

/-- **A safe end of a statement**: it has not failed in executing a plan, and
if its window is active it has not executed one. -/
structure Safe (answer : Except Error Unit) (running : Running) : Prop where
  isBefore : ∀ e, answer = .error e → e.IsBefore
  trace : running.context.window.isActive = true → running.task.trace = none

theorem Error.IsBefore.safe {error : Error} {running : Running} (h : error.IsBefore)
    (htrace : running.context.window.isActive = true → running.task.trace = none) :
    Safe (.error error) running :=
  ⟨fun _ he => Except.error.inj he ▸ h, htrace⟩

theorem Safe.ok {running : Running}
    (htrace : running.context.window.isActive = true → running.task.trace = none) :
    Safe (.ok ()) running :=
  ⟨fun _ he => (nomatch he), htrace⟩

namespace Extension

variable {σ : Type} [Catalog σ] {x : Extension} {c : σ} {task : Task}

/-- What is planned outside an active window is over what exists. -/
theorem Silent.grounded {ctx : Context} (h : x.Silent ctx) {q : Query} {settings : Settings}
    {j : Journal} {plan : Plan} {w : Unit × Journal}
    (hplan : q.plan c (x.metadataOver c) (x.planningOver c) ctx settings ((), j) = (.ok plan, w)) :
    ∀ scan ∈ plan.path.scans, PlanState.Grounded c plan.state scan := by
  have hyields := @PhysicalHost.plan_yields σ _ c ctx settings q j
  rw [@plan_eq σ _ x c ctx ctx h] at hplan
  rw [hplan] at hyields
  exact hyields

/-- **An `EXPLAIN` is safe** in a window that is active only if it has no
`analyze` option. -/
theorem runExplain_safe (hc : Catalog.Coherent c) {ctx : Context} {e : Explain}
    (hwindow : ctx.window.isActive = true → e.option? "analyze" = none)
    (htask : task.trace = none) (j : Journal) :
    ∃ answer running j', PhysicalHost.runExplain c (x.metadataOver c) (x.planningOver c) e
      (⟨ctx, task⟩, j) = (answer, running, j') ∧ Safe answer running := by
  have hbefore := failBefore x c ctx
  rw [PhysicalHost.runExplain_apply]
  rcases hchoice : e.choice with error | choice
  · exact ⟨_, _, _, rfl, (Explain.isBefore_of_choice hchoice).safe fun _ => htask⟩
  dsimp only
  have hplanned := hbefore.plan (c := c) e.query task.settings () j
  have hgrounded : ctx.window.isActive = false → ∀ plan w,
      e.query.plan c (x.metadataOver c) (x.planningOver c) ctx task.settings ((), j) =
        (.ok plan, w) → ∀ scan ∈ plan.path.scans, PlanState.Grounded c plan.state scan :=
    fun hinactive plan w hplan => Silent.grounded (Or.inl hinactive) hplan
  generalize e.query.plan c (x.metadataOver c) (x.planningOver c) ctx task.settings ((), j) =
    planned at hplanned hgrounded
  rcases planned with ⟨error | plan, _, j₁⟩
  · exact ⟨_, _, _, rfl, Error.IsBefore.safe hplanned fun _ => htask⟩
  dsimp only
  -- what is opened cannot fail, and in an active window it is nothing
  have hopened : ∃ trace, PhysicalHost.opened c choice.analyze plan task.trace = .ok trace ∧
      (ctx.window.isActive = true → trace = none) := by
    unfold PhysicalHost.opened
    by_cases hanalyze : choice.analyze = true
    · have hinactive : ctx.window.isActive = false := by
        by_contra hactive
        have hnone := Explain.analyze_of_choice hchoice (hwindow (by simpa using hactive))
        rw [hnone] at hanalyze
        cases hanalyze
      obtain ⟨trace, htrace⟩ := Plan.execute_ok hc (hgrounded hinactive plan _ rfl)
      rw [if_pos hanalyze, htrace]
      exact ⟨some trace, rfl, fun hactive => absurd (hinactive.symm.trans hactive) (by decide)⟩
    · rw [if_neg hanalyze]
      exact ⟨task.trace, rfl, fun _ => htask⟩
  obtain ⟨trace, hopened, htrace⟩ := hopened
  rw [hopened]
  dsimp only
  have hshown := hbefore.render plan choice.format choice.costs () j₁
  generalize plan.render (x.metadataOver c) ctx choice.format choice.costs ((), j₁) = shown
    at hshown
  rcases shown with ⟨error | text, _, j₂⟩
  · exact ⟨_, _, _, rfl, Error.IsBefore.safe hshown htrace⟩
  · exact ⟨_, _, _, rfl, .ok htrace⟩

/-- **Every statement is safe** over a catalog that agrees with itself. -/
theorem runStatement_safe (hc : Catalog.Coherent c) (s : Statement) (id : Nat)
    (htask : task.trace = none) (j : Journal) :
    ∃ answer running j', Session.runStatement c (x.pointsOver c) (.ofStatement s)
      (⟨.start id, task⟩, j) = (answer, running, j') ∧ Safe answer running := by
  rcases s with q | e | ⟨name, value⟩
  · -- a `SELECT` opens no window
    show ∃ answer running j', Session.runSelect c (x.pointsOver c) (some q) _ = _ ∧ _
    rw [Session.runSelect_apply, pointsOver_metadata, pointsOver_planning]
    have hbefore := (failBefore x c (.start id)).plan (c := c) q task.settings () j
    have hgrounded := fun plan w => @Silent.grounded σ _ x c (.start id) (Or.inl rfl) q
      task.settings j plan w
    generalize q.plan c (x.metadataOver c) (x.planningOver c) (.start id) task.settings ((), j) =
      planned at hbefore hgrounded
    rcases planned with ⟨error | plan, _, j₁⟩
    · exact ⟨_, _, _, rfl, Error.IsBefore.safe hbefore fun _ => htask⟩
    dsimp only
    obtain ⟨trace, htrace⟩ := Plan.execute_ok hc (hgrounded plan _ rfl)
    rw [htrace]
    exact ⟨_, _, _, rfl, .ok fun hactive => nomatch hactive⟩
  · have hutility : (PlannedStatement.ofStatement (.utility (.explain e))).utility =
        some (.explain e) := rfl
    show ∃ answer running j', (x.pointsOver c).statement.utility _ _ = _ ∧ _
    rw [utility_explain hutility]
    refine runExplain_safe hc (fun hactive => ?_) htask j
    have hplan : (e.option? "analyze").isNone = true := (Bool.and_eq_true_iff.1 hactive).1
    exact Option.isNone_iff_eq_none.1 hplan
  · have hutility : (PlannedStatement.ofStatement (.utility (.set name value))).utility =
        some (.set name value) := rfl
    show ∃ answer running j', (x.pointsOver c).statement.utility _ _ = _ ∧ _
    rw [utility_set hutility]
    unfold PhysicalHost.runSet
    rw [Edit.bind_apply]
    dsimp only [Edit.value]
    rw [Edit.bind_apply]
    dsimp only [Edit.ofExcept]
    rcases hset : task.settings.set name value with error | settings
    · exact ⟨_, _, _, rfl, (Settings.isBefore_of_set hset).safe fun _ => htask⟩
    · exact ⟨_, _, _, rfl, .ok fun _ => htask⟩

end Extension

/-! ## Worlds -/

/-- A catalog in memory, the extension, and a session over the two. -/
structure World where
  /-- The catalog. -/
  catalog : MemoryCatalog
  /-- The extension. -/
  extension : Extension
  /-- The session; it knows one interceptor, which is the extension. -/
  session : Session Unit

namespace World

/-- A call on a world. -/
inductive Call where
  | createTable (t : NewTable)
  | createIndex (relid : Oid) (name : String) (m : AccessMethod) (columns : List String)
      (unique : Bool)
  | inherit (parent child : Oid)
  | registerIndex (relid : Oid) (spec : IndexSpec)
  | registerTable (relid : Oid) (l : Layout)
  | dropIndex (oid : Oid)
  | dropTable (oid : Oid)
  | resetAll
  | setEnabled (b : Bool)
  | execute (s : Statement)

/-- The interceptor of the session. -/
def resolve (w : World) : Unit → Interceptor := fun _ => w.extension.interceptor

/-- What a statement answers, and the session after it. -/
def answer (w : World) (s : Statement) : Except Error StatementResult × Session Unit × Journal :=
  w.session.execute w.catalog w.resolve s []

/-- A statement as it stands when only its end is left. -/
def underWay (w : World) (s : Statement) : Running :=
  (Session.runStatement w.catalog (w.session.points w.catalog w.resolve) (.ofStatement s)
    (⟨.start (w.session.statements + 1), .ofStatement (.ofStatement s) w.session.settings⟩, [])).2.1

/-- The world after a call. A call that fails leaves what it leaves. -/
def perform (w : World) : Call → World
  | .createTable t => { w with catalog := (w.catalog.createTable t).2 }
  | .createIndex relid name m columns unique =>
    { w with catalog := (w.catalog.createIndex relid name m columns unique).2 }
  | .inherit parent child => { w with catalog := (w.catalog.inherit parent child).2 }
  | .registerIndex relid spec =>
    let (_, extension, catalog) := w.extension.registerIndex w.catalog relid spec
    { w with extension, catalog }
  | .registerTable relid l =>
    let (_, extension, catalog) := w.extension.registerTable w.catalog relid l
    { w with extension, catalog }
  | .dropIndex oid => { w with extension := (w.extension.dropIndex oid).2 }
  | .dropTable oid => { w with extension := (w.extension.dropTable oid).2 }
  | .resetAll => { w with extension := w.extension.resetAll }
  | .setEnabled b => { w with extension := { w.extension with enabled := b } }
  | .execute s => { w with session := (w.answer s).2.1 }

/-- A world in which nothing has happened. -/
def fresh (oid : Oid) (enabled : Bool) (settings : Settings) : World where
  catalog := .startingAt oid
  extension := .fresh enabled
  session := ((Session.withSettings settings).install ()).2

/-- **A world that calls lead to.** -/
inductive Reachable : World → Prop
  | fresh (oid : Oid) (enabled : Bool) (settings : Settings) :
    Reachable (fresh oid enabled settings)
  | perform {w : World} (call : Call) : Reachable w → Reachable (w.perform call)

/-- **What every call keeps**: no two indexes share an identifier, and the
extension is alone on the stack. -/
structure Sane (w : World) : Prop where
  distinct : w.catalog.Distinct
  alone : w.session.stack.items = [()]

variable {w : World}

/-- A statement leaves the stack as it is. -/
theorem stack_answer (w : World) (s : Statement) : (w.answer s).2.1.stack = w.session.stack := by
  unfold answer Session.execute
  dsimp only
  generalize (Session.runStatement w.catalog _ _).run _ _ = ran
  rcases ran with ⟨result, running, j⟩
  dsimp only
  generalize ((w.session.points w.catalog w.resolve).statement.executorEnd).run _ _ = ended
  rcases ended with ⟨result', running', j'⟩
  dsimp only
  split
  · rfl
  · dsimp only
    split
    · rfl
    · rfl

/-- **One call keeps a world sane.** -/
theorem Sane.perform (h : w.Sane) (call : Call) : (w.perform call).Sane := by
  cases call with
  | createTable t =>
    exact ⟨h.distinct.of_indexes (w.catalog.createTable_indexes t), h.alone⟩
  | createIndex relid name m columns unique =>
    exact ⟨h.distinct.createIndex relid name m columns unique, h.alone⟩
  | inherit parent child =>
    exact ⟨h.distinct.of_indexes (w.catalog.inherit_indexes parent child), h.alone⟩
  | registerIndex relid spec =>
    exact ⟨h.distinct.of_indexes (Extension.registerIndex_indexes _ spec), h.alone⟩
  | registerTable relid l =>
    exact ⟨h.distinct.of_indexes (Extension.registerTable_indexes _ l), h.alone⟩
  | dropIndex oid => exact ⟨h.distinct, h.alone⟩
  | dropTable oid => exact ⟨h.distinct, h.alone⟩
  | resetAll => exact ⟨h.distinct, h.alone⟩
  | setEnabled b => exact ⟨h.distinct, h.alone⟩
  | execute s => exact ⟨h.distinct, (congrArg Stack.items (w.stack_answer s)).trans h.alone⟩

/-- Every world that calls lead to is sane. -/
theorem Reachable.sane (h : w.Reachable) : w.Sane := by
  induction h with
  | fresh oid enabled settings => exact ⟨MemoryCatalog.distinct_startingAt oid, rfl⟩
  | perform call _ ih => exact ih.perform call

/-- **No statement both simulates and executes, and no execution fails.** In
every world that calls lead to, a statement whose window is active opens
nothing, and no statement fails for a reason of executing its plan. -/
theorem Reachable.execution_safe (h : w.Reachable) (s : Statement) :
    (∀ fault, (w.answer s).1 ≠ .error (.execution fault)) ∧
      ((w.underWay s).context.window.isActive = true → (w.underWay s).task.trace = none ∧
        ∀ result, (w.answer s).1 = .ok result → result.trace = none) := by
  have hruns : w.session.RunsOver w.resolve w.extension := ⟨(), h.sane.alone, rfl⟩
  have hpoints : w.session.points w.catalog w.resolve = w.extension.pointsOver w.catalog :=
    hruns.points
  obtain ⟨answer, running, j', hrun, hsafe⟩ :=
    @Extension.runStatement_safe MemoryCatalog _ w.extension w.catalog
      (.ofStatement (.ofStatement s) w.session.settings) h.sane.distinct.coherent s
      (w.session.statements + 1) rfl []
  have hunder : w.underWay s = running := by
    unfold underWay
    rw [hpoints, hrun]
  have hanswer : (w.answer s).1 = answer.map fun _ => running.task.result := by
    have hexecute := Session.execute_eq (hpoints ▸ hrun)
      (hpoints ▸ Extension.executorEnd_apply (r := running) (j := j'))
    exact congrArg Prod.fst hexecute
  rw [hunder, hanswer]
  refine ⟨fun fault hfault => ?_, fun hactive => ⟨hsafe.trace hactive, fun result hresult => ?_⟩⟩
  · rcases answer with e | ⟨⟩
    · exact hsafe.isBefore e rfl fault (Except.error.inj hfault)
    · cases hfault
  · rcases answer with e | ⟨⟩
    · cases hresult
    · exact Except.ok.inj hresult ▸ hsafe.trace hactive

/-- A world with a table and a hypothetical index on it. -/
def simulated : World :=
  ((fresh Oid.firstNormal true .standard).perform
    (.createTable ⟨"orders", .relation, .permanent,
      [⟨⟨1⟩, "id", .int4, true, none⟩], 10, 100.0⟩)).perform
      (.registerIndex Oid.firstNormal (.onColumns .btree ["id"]))

theorem simulated_execution_safe :
    (∀ fault, (simulated.answer (.explain (.select "orders") [])).1 ≠ .error (.execution fault)) ∧
      ((simulated.underWay (.explain (.select "orders") [])).context.window.isActive = true →
        (simulated.underWay (.explain (.select "orders") [])).task.trace = none ∧
          ∀ result, (simulated.answer (.explain (.select "orders") [])).1 = .ok result →
            result.trace = none) := by
  have hreachable : simulated.Reachable := by
    unfold simulated
    exact .perform _ (.perform _ (.fresh _ _ _))
  exact hreachable.execution_safe _

end World

end WhatIf
