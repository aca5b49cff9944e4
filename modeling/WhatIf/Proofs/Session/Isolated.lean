import WhatIf.Proofs.Session.Assignment
import WhatIf.Proofs.Session.Outcome
import WhatIf.Proofs.Plan.ByWindow
import WhatIf.Proofs.Shadow.Refinement
import WhatIf.Catalog.Memory
/-!
# Session — statements are isolated from each other

A session keeps its settings and nothing else from one statement to the next.
What a statement makes of its task depends neither on its number nor on what
was noted before it (`Edit.Makes`); its end closes the window, however it went;
and its settings become those of the session only if it is a `SET` that
succeeded. A console is a session with the extension installed, together with
what it works on. In a run, statements are executed while the extension is
administered and the catalog changes.
-/

namespace WhatIf

variable {ι σ : Type} [Catalog σ]

/-! ## What a call makes of a task -/

namespace Edit

/-- A call that looks at the window has one answer in it. -/
theorem ByWindow.exists_answer {α : Type} {f : Context → Ask α} (h : ByWindow f) (w : Window) :
    ∃ answer, ∀ id j, ∃ j', f ⟨id, w⟩ ((), j) = (answer, (), j') := by
  obtain ⟨answer, _, k, -, hfirst, -⟩ := h ⟨0, w⟩ ⟨0, w⟩ rfl () [] []
  refine ⟨answer, fun id j => ?_⟩
  obtain ⟨answer', _, _, k', hzero, hid⟩ := h ⟨0, w⟩ ⟨id, w⟩ rfl () [] j
  have hanswer : answer' = answer := congrArg Prod.fst (hzero.symm.trans hfirst)
  exact ⟨k', hanswer ▸ hid⟩

/-- **What a call makes of a task** in a window: whatever the number of the
statement and the journal, it ends alike, and leaves the same window and task. -/
def Makes (x : Edit Running Unit) (w : Window) (task : Task) (answer : Except Error Unit)
    (w' : Window) (task' : Task) : Prop :=
  ∀ id j, ∃ j', x (⟨⟨id, w⟩, task⟩, j) = (answer, ⟨⟨id, w'⟩, task'⟩, j')

variable {x y : Edit Running Unit} {w w' w₀ : Window} {task task' : Task}
variable {a answer : Except Error Unit}

/-- A call that only watches leaves the task. -/
theorem Watches.makes (hx : Watches x a) : Makes x w task a w task := fun _ j => hx _ j

/-- What follows a call that only watches is not done if that fails, -/
theorem Watches.makes_of_error {e : Error} (hx : Watches x (.error e)) :
    Makes (x >>= fun _ => y) w task (.error e) w task := by
  intro id j
  obtain ⟨j', hx⟩ := hx ⟨⟨id, w⟩, task⟩ j
  exact ⟨j', by rw [bind_apply, hx]⟩

/-- and else makes of the task what it makes of it alone. -/
theorem Watches.makes_bind (hx : Watches x (.ok ())) (hy : Makes y w task answer w' task') :
    Makes (x >>= fun _ => y) w task answer w' task' := by
  intro id j
  obtain ⟨j', hx⟩ := hx ⟨⟨id, w⟩, task⟩ j
  rw [bind_apply, hx]
  exact hy id j'

theorem Makes.setWindow (hy : Makes y w task answer w' task') :
    Makes (Extension.setWindow w >>= fun _ => y) w₀ task answer w' task' := by
  intro id j
  rw [bind_apply]
  exact hy id j

end Edit

open Edit (Makes)

/-! ## The host -/

/-- That some settings come from others by the `SET` a statement is, if it is
one. -/
def PlannedStatement.Assigns (s : PlannedStatement) (before after : Settings) : Prop :=
  ∀ name value, s.utility = some (.set name value) → before.set name value = .ok after

namespace PhysicalHost

variable {c : σ} {m : MetadataPoints} {p : PlanningPoints}

/-- **An `EXPLAIN`** ends in one way. -/
theorem exists_runExplain (hm : m.ByWindow) (hp : p.ByWindow) (e : Explain) (w : Window)
    (task : Task) : ∃ answer task', Makes (runExplain c m p e) w task answer w task' := by
  rcases hchoice : e.choice with error | choice
  · refine ⟨.error error, task, fun id j => ⟨j, ?_⟩⟩
    rw [runExplain_apply, hchoice]
  obtain ⟨planned, hplanned⟩ := (e.query.plan_byWindow c hm hp task.settings).exists_answer w
  rcases planned with error | plan
  · refine ⟨.error error, task, fun id j => ?_⟩
    obtain ⟨j₁, hplan⟩ := hplanned id j
    exact ⟨j₁, by simp only [runExplain_apply, hchoice, hplan]⟩
  rcases hopened : opened c choice.analyze plan task.trace with error | trace
  · refine ⟨.error error, task, fun id j => ?_⟩
    obtain ⟨j₁, hplan⟩ := hplanned id j
    exact ⟨j₁, by simp only [runExplain_apply, hchoice, hplan, hopened]⟩
  obtain ⟨shown, hshown⟩ := (plan.render_byWindow hm choice.format choice.costs).exists_answer w
  rcases shown with error | text
  · refine ⟨.error error, { task with trace }, fun id j => ?_⟩
    obtain ⟨j₁, hplan⟩ := hplanned id j
    obtain ⟨j₂, htext⟩ := hshown id j₁
    exact ⟨j₂, by simp only [runExplain_apply, hchoice, hplan, hopened, htext]⟩
  · refine ⟨.ok (), { task with trace, explain := some text, plan := some plan }, fun id j => ?_⟩
    obtain ⟨j₁, hplan⟩ := hplanned id j
    obtain ⟨j₂, htext⟩ := hshown id j₁
    exact ⟨j₂, by simp only [runExplain_apply, hchoice, hplan, hopened, htext]⟩

/-- **A `SET`** changes the settings of its task as a whole, or fails and leaves
them. -/
theorem exists_runSet (name value : String) (w : Window) (task : Task) :
    ∃ answer task', Makes (runSet name value) w task answer w task' ∧
      (answer = .ok () → task.settings.set name value = .ok task'.settings) := by
  have hset : ∀ id j, runSet name value (⟨⟨id, w⟩, task⟩, j) =
      match task.settings.set name value with
      | .error error => (.error error, ⟨⟨id, w⟩, task⟩, j)
      | .ok settings => (.ok (), ⟨⟨id, w⟩, { task with settings }⟩, j) := by
    intro id j
    unfold runSet
    rw [Edit.bind_apply]
    dsimp only [Edit.value]
    rw [Edit.bind_apply]
    dsimp only [Edit.ofExcept]
    rcases task.settings.set name value with error | settings
    · rfl
    · rfl
  rcases hsettings : task.settings.set name value with error | settings
  · exact ⟨.error error, task, fun id j => ⟨j, by rw [hset, hsettings]⟩, nofun⟩
  · exact ⟨.ok (), _, fun id j => ⟨j, by rw [hset, hsettings]⟩, fun _ => rfl⟩

/-- **A utility statement** ends in one way, and if it is a `SET` that succeeds
the settings of the task are set. -/
theorem exists_utility (hm : m.ByWindow) (hp : p.ByWindow) (s : PlannedStatement) (w : Window)
    (task : Task) :
    ∃ answer task', Makes ((statement c m p).utility s) w task answer w task' ∧
      (answer = .ok () → s.Assigns task.settings task'.settings) := by
  unfold statement PlannedStatement.Assigns
  dsimp only
  rcases s.utility with _ | e | ⟨name, value⟩
  · exact ⟨_, task, (Edit.Watches.fail _).makes, nofun⟩
  · obtain ⟨answer, task', hmakes⟩ := exists_runExplain (c := c) hm hp e w task
    exact ⟨answer, task', hmakes, fun _ => nofun⟩
  · obtain ⟨answer, task', hmakes, hset⟩ := exists_runSet name value w task
    refine ⟨answer, task', hmakes, fun hok => ?_⟩
    rintro _ _ ⟨⟩
    exact hset hok

end PhysicalHost

/-- **A `SELECT`** ends in one way. -/
theorem Session.exists_runSelect {c : σ} {p : Points} (hm : p.metadata.ByWindow)
    (hp : p.planning.ByWindow) (query : Option Query) (w : Window) (task : Task) :
    ∃ answer task', Makes (runSelect c p query) w task answer w task' := by
  rcases query with _ | q
  · exact ⟨_, task, (Edit.Watches.fail _).makes⟩
  obtain ⟨planned, hplanned⟩ := (q.plan_byWindow c hm hp task.settings).exists_answer w
  rcases planned with error | plan
  · refine ⟨.error error, task, fun id j => ?_⟩
    obtain ⟨j₁, hplan⟩ := hplanned id j
    exact ⟨j₁, by simp only [runSelect_apply, hplan]⟩
  rcases hopened : plan.execute c with error | trace
  · refine ⟨.error error, task, fun id j => ?_⟩
    obtain ⟨j₁, hplan⟩ := hplanned id j
    exact ⟨j₁, by simp only [runSelect_apply, hplan, hopened]⟩
  · refine ⟨.ok (), { task with trace := some trace, plan := some plan }, fun id j => ?_⟩
    obtain ⟨j₁, hplan⟩ := hplanned id j
    exact ⟨j₁, by simp only [runSelect_apply, hplan, hopened]⟩

/-! ## The extension among other interceptors -/

namespace Extension

/-- **What may stand over and under the extension**: discreet interceptors. Those
under it may refuse anything; those over it may refuse anything but the end of a
statement, which the extension would not see then. -/
structure Flanked (above below : List Interceptor) : Prop where
  over_discreet : ∀ i ∈ above, i.Discreet
  over_end : ∀ i ∈ above, i.Watches (fun p => p.executorEnd) (.ok ())
  under_discreet : ∀ i ∈ below, i.Discreet

/-- **The extension among discreet interceptors**, in a stack whose top comes
first. -/
def Installed (x : Extension) (layers : List Interceptor) : Prop :=
  ∃ above below, layers = above ++ x.interceptor :: below ∧ Flanked above below

namespace Installed

variable {x : Extension} {layers : List Interceptor}

theorem byWindow (h : x.Installed layers) : ∀ i ∈ layers, i.ByWindow := by
  obtain ⟨above, below, rfl, hflanked⟩ := h
  intro i hi
  rcases List.mem_append.1 hi with hi | hi
  · exact (hflanked.over_discreet i hi).toByWindow
  · rcases List.mem_cons.1 hi with rfl | hi
    · exact x.byWindow
    · exact (hflanked.under_discreet i hi).toByWindow

theorem metadata (h : x.Installed layers) (c : σ) :
    ((PhysicalHost.host c).behind layers).metadata.ByWindow :=
  Host.metadataBehind_byWindow (PhysicalHost.metadata_byWindow c) h.byWindow

theorem planning (h : x.Installed layers) (c : σ) :
    ((PhysicalHost.host c).behind layers).planning.ByWindow :=
  Host.planningBehind_byWindow (PhysicalHost.metadata_byWindow c)
    (fun _ hm => PhysicalHost.planning_byWindow c hm) h.byWindow

/-- A call around a statement passes what is over the extension, the extension,
which sets the window, and what is under it. -/
theorem exists_around (call : StatementPoints → Edit Running Unit)
    {above below : List Interceptor} {w : Window} {P : Except Error Unit → Prop} (hok : P (.ok ()))
    (hbind : ∀ a b, P a → P b → P (a.bind fun _ => b))
    (hcall : ∀ next, call (x.interceptor.statement next) = setWindow w >>= fun _ => call next)
    (habove : ∀ i ∈ above, ∃ answer, P answer ∧ i.Watches call answer)
    (hbelow : ∀ i ∈ below, ∃ answer, i.Watches call answer) :
    ∃ outer a inner b, P a ∧ Edit.Watches outer a ∧ Edit.Watches inner b ∧
      ∀ base : StatementPoints,
        call ((above ++ x.interceptor :: below).foldr (fun i next => i.statement next) base) = (do
          outer
          setWindow w
          inner
          call base) := by
  obtain ⟨outer, a, ha, houter, hpass⟩ := Interceptor.exists_watches hok hbind habove
  obtain ⟨inner, b, -, hinner, hpass'⟩ := Interceptor.exists_watches (P := fun _ => True) trivial
    (fun _ _ _ _ => trivial) (fun i hi => (hbelow i hi).imp fun _ h => ⟨trivial, h⟩)
  refine ⟨outer, a, inner, b, ha, houter, hinner, fun base => ?_⟩
  rw [List.foldr_append, List.foldr_cons, hpass, hcall, hpass']

/-- **A utility statement** over the extension and other interceptors ends in one
way, and a `SET` that succeeds sets the settings of its task. -/
theorem exists_utility (h : x.Installed layers) (c : σ) (s : PlannedStatement) (task : Task) :
    ∃ answer w task',
      Makes (((PhysicalHost.host c).behind layers).statement.utility s) .closed task
        answer w task' ∧
      (answer = .ok () → s.Assigns task.settings task'.settings) := by
  have hm := h.metadata c
  have hp := h.planning c
  obtain ⟨above, below, rfl, hflanked⟩ := h
  obtain ⟨outer, a, inner, b, -, houter, hinner, hpass⟩ := exists_around
    (fun p => p.utility s) (P := fun _ => True) trivial (fun _ _ _ _ => trivial)
    (fun _ => rfl)
    (fun i hi => ((hflanked.over_discreet i hi).utility s).imp fun _ h => ⟨trivial, h⟩)
    fun i hi => (hflanked.under_discreet i hi).utility s
  rw [show ((PhysicalHost.host c).behind _).statement.utility s = _ from hpass _]
  rcases a with e | ⟨⟩
  · exact ⟨_, _, _, houter.makes_of_error, nofun⟩
  rcases b with e | ⟨⟩
  · exact ⟨_, _, _, houter.makes_bind (Edit.Makes.setWindow hinner.makes_of_error), nofun⟩
  obtain ⟨answer, task', hmakes, hassigns⟩ := PhysicalHost.exists_utility (c := c) hm hp s
    ⟨s.isPlanOnly, x.enabled⟩ task
  exact ⟨answer, _, task', houter.makes_bind (hinner.makes_bind hmakes).setWindow, hassigns⟩

/-- **The end of a statement** closes the window, and may fail under the
extension. -/
theorem exists_executorEnd (h : x.Installed layers) (c : σ) :
    ∃ ended, ∀ w task, Makes ((PhysicalHost.host c).behind layers).statement.executorEnd w task
      ended .closed task := by
  obtain ⟨above, below, rfl, hflanked⟩ := h
  obtain ⟨outer, _, inner, b, rfl, houter, hinner, hpass⟩ := exists_around
    (fun p => p.executorEnd) (P := fun answer => answer = .ok ()) rfl
    (fun _ _ ha hb => by rw [ha, hb]; rfl) (fun _ => rfl)
    (fun i hi => ⟨.ok (), rfl, hflanked.over_end i hi⟩)
    fun i hi => (hflanked.under_discreet i hi).executorEnd
  rw [show ((PhysicalHost.host c).behind _).statement.executorEnd = _ from hpass _]
  refine ⟨b.bind fun _ => .ok (), fun w task => houter.makes_bind (Edit.Makes.setWindow ?_)⟩
  exact (hinner.bind .pure).makes

end Installed

end Extension

/-! ## One statement -/

namespace Session

variable {x : Extension} {items : List ι} {resolve : ι → Interceptor}

/-- **How a statement goes** depends on the interceptors, the settings, the
catalog and the statement: in every session with these it has one outcome, and
leaves the window closed. If it is a `SET` that succeeds, the settings are set. -/
theorem exists_outcome (h : x.Installed (items.map resolve)) (c : σ) (settings : Settings)
    (statement : Statement) :
    ∃ answer task',
      (∀ s : Session ι, s.stack.items = items → s.settings = settings → ∀ j, ∃ j',
        s.execute c resolve statement j = (answer.map fun _ => task'.result,
          s.after (.ofStatement statement) answer task', j')) ∧
      (answer = .ok () →
        (PlannedStatement.ofStatement statement).Assigns settings task'.settings) := by
  obtain ⟨ended, hend⟩ := h.exists_executorEnd c
  have hrun : ∃ answer w task',
      Makes (runStatement c ((PhysicalHost.host c).behind (items.map resolve))
        (.ofStatement statement)) .closed (.ofStatement (.ofStatement statement) settings) answer w
          task' ∧
      (answer = .ok () →
        (PlannedStatement.ofStatement statement).Assigns settings task'.settings) := by
    rcases statement with q | u
    · obtain ⟨answer, task', hmakes⟩ :=
        exists_runSelect (c := c) (h.metadata c) (h.planning c) (some q) .closed
          (.ofStatement (.ofStatement (.select q)) settings)
      exact ⟨answer, _, task', hmakes, fun _ => nofun⟩
    · exact h.exists_utility c (.ofStatement (.utility u))
        (.ofStatement (.ofStatement (.utility u)) settings)
  obtain ⟨answer, w, task', hmakes, hassigns⟩ := hrun
  refine ⟨firstError answer ended, task', fun s hitems hsettings j => ?_, fun hok => ?_⟩
  · have hpoints : s.points c resolve = (PhysicalHost.host c).behind (items.map resolve) := by
      rw [points, hitems]
    obtain ⟨j₁, hran⟩ := hmakes (s.statements + 1) j
    obtain ⟨j₂, hended⟩ := hend w task' (s.statements + 1) j₁
    rw [← hpoints, ← hsettings] at hran
    rw [← hpoints] at hended
    exact ⟨j₂, execute_eq_firstError hran hended⟩
  · rcases answer with e | ⟨⟩
    · cases hok
    · exact hassigns rfl

/-- A session that was just opened: some interceptors installed, the last of them
first, and no statement executed. -/
def opened (settings : Settings) (items : List ι) : Session ι :=
  items.foldr (fun item s => (s.install item).2) (withSettings settings)

theorem opened_items (settings : Settings) (items : List ι) :
    (opened settings items).stack.items = items := by
  induction items with
  | nil => rfl
  | cons item items ih => exact congrArg (item :: ·) ih

theorem opened_settings (settings : Settings) (items : List ι) :
    (opened settings items).settings = settings := by
  induction items with
  | nil => rfl
  | cons item items ih => exact ih

end Session

/-! ## Runs -/

/-- **A console**: a session, whose interceptors are the extension (`none`) and
others, with the extension, the catalog and the journal as they stand. -/
structure Console (σ : Type) where
  /-- The catalog. -/
  catalog : σ
  /-- The extension. -/
  extension : Extension
  /-- The session. -/
  session : Session (Option Interceptor)
  /-- What was noted. -/
  journal : Journal

namespace Console

/-- An interceptor of the session. -/
def resolve (w : Console σ) (item : Option Interceptor) : Interceptor :=
  item.getD w.extension.interceptor

/-- What a statement answers, and what it leaves. -/
def execute (w : Console σ) (s : Statement) : Except Error StatementResult × Console σ :=
  let (answer, session, journal) := w.session.execute w.catalog w.resolve s w.journal
  (answer, { w with session, journal })

/-- That the extension is installed, alone or among discreet interceptors. -/
def Installed (w : Console σ) : Prop :=
  ∃ above below : List Interceptor,
    w.session.stack.items = above.map some ++ none :: below.map some ∧
      Extension.Flanked above below

/-- The session as it would be if it had just been opened, with the settings and
interceptors it has. -/
def reopened (w : Console σ) : Session (Option Interceptor) :=
  .opened w.session.settings w.session.stack.items

/-- The statements executed, each with its answer. -/
abbrev Log : Type := List (Statement × Except Error StatementResult)

/-- **A run of a console**: statements are executed, each with its answer noted;
between them the extension is administered, other interceptors come and go, and
the catalog changes in any way. -/
inductive Run (w₀ : Console σ) : Log → Console σ → Prop
  | start : Run w₀ [] w₀
  | execute {log : Log} {w : Console σ} (s : Statement) :
      Run w₀ log w → Run w₀ (log ++ [(s, (w.execute s).1)]) (w.execute s).2
  | administer {log : Log} {w : Console σ} (call : AdminCall σ) :
      Run w₀ log w → Run w₀ log { w with extension := (w.extension.perform call).2 }
  | restack {log : Log} {w : Console σ} (stack : Stack (Option Interceptor)) :
      Run w₀ log w → Installed { w with session := { w.session with stack } } →
      Run w₀ log { w with session := { w.session with stack } }
  | alter {log : Log} {w : Console σ} (c : σ) :
      Run w₀ log w → Run w₀ log { w with catalog := c }

/-- The assignment of a statement that is a `SET`, if it succeeded. -/
def assignment? : Statement × Except Error StatementResult → Option (String × String)
  | (.utility (.set name value), .ok _) => some (name, value)
  | _ => none

/-- The assignments that succeeded in a run, in order. -/
def assignments (log : Log) : List (String × String) :=
  log.filterMap assignment?

theorem assignments_append (log : Log) (entry : Statement × Except Error StatementResult) :
    assignments (log ++ [entry]) = assignments log ++ (assignment? entry).toList := by
  rw [assignments, List.filterMap_append]
  rcases heq : assignment? entry with _ | change
  all_goals
    rw [List.filterMap_cons, heq]
    rfl

variable {w w₀ : Console σ} {log : Log}

omit [Catalog σ] in
theorem Installed.layers (h : w.Installed) :
    w.extension.Installed (w.session.stack.items.map w.resolve) := by
  obtain ⟨above, below, hitems, hflanked⟩ := h
  refine ⟨above, below, ?_, hflanked⟩
  have hsome : w.resolve ∘ some = id := rfl
  rw [hitems, List.map_append, List.map_cons, List.map_map, List.map_map, hsome, List.map_id,
    List.map_id]
  rfl

/-- **What a run keeps.** -/
structure Kept (w₀ : Console σ) (log : Log) (w : Console σ) : Prop where
  installed : w.Installed
  closed : log ≠ [] → w.session.lastWindow = some .closed
  settings : w₀.session.settings.Assigned (assignments log) w.session.settings

/-- **One statement keeps it.** -/
theorem Kept.execute (h : Kept w₀ log w) (s : Statement) :
    Kept w₀ (log ++ [(s, (w.execute s).1)]) (w.execute s).2 := by
  obtain ⟨answer, task', houtcome, hassigns⟩ :=
    Session.exists_outcome h.installed.layers w.catalog w.session.settings s
  obtain ⟨j', hexecute⟩ := houtcome w.session rfl rfl w.journal
  have hrun : w.execute s = (answer.map fun _ => task'.result,
      { w with session := w.session.after (.ofStatement s) answer task', journal := j' }) := by
    unfold Console.execute
    rw [hexecute]
  rw [hrun]
  refine ⟨h.installed, fun _ => rfl, ?_⟩
  rw [assignments_append]
  -- only a `SET` that succeeds assigns, and only then are the settings not those before
  have hnone : w₀.session.settings.Assigned (assignments log ++ []) w.session.settings :=
    (List.append_nil (assignments log)).symm ▸ h.settings
  rcases answer with e | ⟨⟩
  · rcases s with q | e' | ⟨name, value⟩
    all_goals exact hnone
  · rcases s with q | e' | ⟨name, value⟩
    · exact hnone
    · exact hnone
    · exact h.settings.snoc (Settings.set_eq_ok_iff.1 (hassigns rfl name value rfl))

/-- **A run keeps it.** -/
theorem Run.kept (h : Run w₀ log w) (hw : w₀.Installed) : Kept w₀ log w := by
  induction h with
  | start => exact ⟨hw, fun hne => absurd rfl hne, .nil _⟩
  | execute s _ ih => exact ih.execute s
  | administer call _ ih => exact ⟨ih.installed, ih.closed, ih.settings⟩
  | restack stack _ hinstalled ih => exact ⟨hinstalled, ih.closed, ih.settings⟩
  | alter c _ ih => exact ⟨ih.installed, ih.closed, ih.settings⟩

/-- **Statements are isolated from each other.** In a session with the extension
installed, alone or among discreet interceptors, after any statements, among which
the extension was administered and the catalog changed: the last window is
closed; the settings are those of the start, after the assignments of the `SET`s that
succeeded, in order; and each statement has the outcome it would have in a session just
opened with these settings, whatever was noted. -/
theorem Run.isolated (h : Run w₀ log w) (hw : w₀.Installed) :
    (log ≠ [] → w.session.lastWindow = some .closed) ∧
      w₀.session.settings.Assigned (assignments log) w.session.settings ∧
      ∀ s j, (w.execute s).1 = (w.reopened.execute w.catalog w.resolve s j).1 := by
  have hkept := h.kept hw
  refine ⟨hkept.closed, hkept.settings, fun s j => ?_⟩
  obtain ⟨answer, task', houtcome, -⟩ :=
    Session.exists_outcome hkept.installed.layers w.catalog w.session.settings s
  obtain ⟨j₁, hexecute⟩ := houtcome w.session rfl rfl w.journal
  obtain ⟨j₂, hreopened⟩ := houtcome w.reopened (Session.opened_items _ _)
    (Session.opened_settings _ _) j
  have hanswer : (w.execute s).1 = (w.session.execute w.catalog w.resolve s w.journal).1 := rfl
  rw [hanswer, hexecute, hreopened]

/-- A probe that notes what it sees and does not let the partitions of a relation
be read. -/
def saboteur : Probe :=
  ⟨"saboteur", true, [(.partitionDesc, "no")], false, none, none, false, false, none, none, none,
    none, ""⟩

/-- A console over the table `orders`, with the saboteur over the extension. -/
def sabotaged : Console MemoryCatalog :=
  ⟨Extension.ordersCatalog, .fresh true,
    .opened .standard [some saboteur.interceptor, none], []⟩

theorem sabotaged_isolated :
    ∃ log w, sabotaged.Run log w ∧
      log.map (fun entry => entry.2.isOk) = [false, true, false, false, true, true] ∧
      w.session.lastWindow = some .closed ∧
      Settings.Assigned .standard [("enable_seqscan", "off")] w.session.settings ∧
      w.session.settings.enableSeqScan = false ∧
      ∀ s j, (w.execute s).1 = (w.reopened.execute w.catalog w.resolve s j).1 := by
  -- an unknown column, a query, a tree that the saboteur keeps from being read, two `SET`s
  have hrun : sabotaged.Run _ _ :=
    .execute (.select ((Query.select "orders").addQual "id" (.compare .eq (.int 5))))
      (.execute (.utility (.set "enable_seqscan" "off"))
        (.execute (.utility (.set "enable_seqscan" "perhaps"))
          (.execute (.explain (.select "orders") [])
            (.administer Extension.shadowOrders
              (.execute (.explain (.select "orders") [])
                (.execute (.explain ((Query.select "orders").addQual "missing" .isNull) [])
                  .start))))))
  have hinstalled : sabotaged.Installed :=
    ⟨[saboteur.interceptor], [], rfl, List.forall_mem_singleton.2 (saboteur.discreet rfl),
      List.forall_mem_singleton.2 saboteur.watches_executorEnd, nofun⟩
  obtain ⟨hclosed, hsettings, hfresh⟩ := hrun.isolated hinstalled
  have hstart : sabotaged.session.settings = .standard := rfl
  rw [hstart, show assignments _ = [("enable_seqscan", "off")] by decide +kernel] at hsettings
  exact ⟨_, _, hrun, by decide +kernel, hclosed nofun, hsettings, by decide +kernel, hfresh⟩

end Console

end WhatIf
