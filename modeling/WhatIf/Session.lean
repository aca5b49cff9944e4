import WhatIf.Hook.PhysicalHost
import WhatIf.Hook.Stack
/-!
# Session — running statements one at a time

A session has settings of its own and a stack of interceptors. Each statement
gets a context of its own; the end-of-statement point is called whether or not
the statement has failed. A `SET` changes the settings of the session only if
the whole statement succeeds.
-/

namespace WhatIf

/-- A session over interceptors that are named by `ι`. -/
structure Session (ι : Type) where
  /-- The installed interceptors. -/
  stack : Stack ι
  /-- The settings of the next statement. -/
  settings : Settings
  /-- How many statements have been started. -/
  statements : Nat
  /-- The simulation window as the last statement left it. -/
  lastWindow : Option Window

/-- What a statement has produced. -/
structure StatementResult where
  /-- The text of an `EXPLAIN`. -/
  explain : Option String
  /-- What was opened, if the plan was executed. -/
  trace : Option Trace
  /-- The plan. -/
  plan : Option Plan

/-- What a finished task leaves for its caller. -/
def Task.result (t : Task) : StatementResult := ⟨t.explain, t.trace, t.plan⟩

/-- Whether a statement is a `SET`. -/
def PlannedStatement.isSet (s : PlannedStatement) : Bool :=
  match s.utility with
  | some (.set _ _) => true
  | _ => false

namespace Session

variable {ι σ : Type} [Catalog σ]

/-- A session without interceptors. -/
def withSettings (s : Settings) : Session ι := ⟨.empty, s, 0, none⟩

/-- Install an interceptor on top. -/
def install (s : Session ι) (item : ι) : Handle × Session ι :=
  let (handle, stack) := s.stack.install item
  (handle, { s with stack })

/-- Uninstall the interceptor on top. -/
def uninstall (s : Session ι) (handle : Handle) : Except Error (ι × Session ι) :=
  match s.stack.uninstall handle with
  | .error e => .error (.stack e)
  | .ok (item, stack) => .ok (item, { s with stack })

/-- The points of the session over a catalog. -/
def points (c : σ) (resolve : ι → Interceptor) (s : Session ι) : Points :=
  (PhysicalHost.host c).behind (s.stack.items.map resolve)

/-- Plan a query and execute the plan. -/
def runSelect (c : σ) (p : Points) : Option Query → Edit Running Unit
  | none => Edit.fail (.planning .noQuery)
  | some query => do
    let running ← Edit.value
    let plan ← Edit.ask (query.plan c p.metadata p.planning running.context running.task.settings)
    let trace ← Edit.ofExcept (plan.execute c)
    Edit.change fun r => { r with task := { r.task with trace := some trace, plan := some plan } }

/-- Run a statement up to its end. -/
def runStatement (c : σ) (p : Points) (s : PlannedStatement) : Edit Running Unit :=
  match s.command with
  | .utility => p.statement.utility s
  | .select => runSelect c p s.query

/-- The first of two answers that is an error. -/
def firstError (result ended : Except Error Unit) : Except Error Unit :=
  match result with
  | .error e => .error e
  | .ok () => ended

/-- Run a statement and the end-of-statement point after it. An error of the
statement goes before one of its end. -/
def execute (c : σ) (resolve : ι → Interceptor) (s : Session ι) (statement : Statement)
    (j : Journal) : Except Error StatementResult × Session ι × Journal :=
  let p := s.points c resolve
  let id := s.statements + 1
  let planned := PlannedStatement.ofStatement statement
  let (result, running, j) := (runStatement c p planned).run
    ⟨.start id, .ofStatement planned s.settings⟩ j
  let (ended, running, j) := p.statement.executorEnd.run running j
  let s := { s with statements := id, lastWindow := some running.context.window }
  match firstError result ended with
  | .error e => (.error e, s, j)
  | .ok () =>
    let s := if planned.isSet then { s with settings := running.task.settings } else s
    (.ok running.task.result, s, j)

end Session

end WhatIf
