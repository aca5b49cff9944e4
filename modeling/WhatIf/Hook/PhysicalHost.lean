import WhatIf.Plan.Search
import WhatIf.Plan.Execution
import WhatIf.Explain.Tree
/-!
# Hook — the host

What the points answer when no interceptor does: the physical catalog, which
knows nothing of hypothetical objects.
-/

namespace WhatIf

namespace PhysicalHost

variable {σ : Type} [Catalog σ] (c : σ)

/-- What the catalog answers, or its error as that of the call. -/
def answer {s α : Type} (x : Except CatalogError α) : Edit s α :=
  Edit.ofExcept (x.mapError Error.catalog)

/-- The children not found before, each once. -/
def fresh (found : List Oid) : List Oid → List Oid
  | [] => []
  | oid :: rest =>
    if found.contains oid then fresh found rest else oid :: fresh (found ++ [oid]) rest

/-- The relations found, followed by those reached through the links of the
ones still to visit, of which at most so many are visited. -/
def walk : Nat → List Oid → List Oid → Except CatalogError (List Oid)
  | 0, found, _ => .ok found
  | _, found, [] => .ok found
  | fuel + 1, found, oid :: rest =>
    match Catalog.children c oid with
    | .error e => .error e
    | .ok children =>
      let new := fresh found children
      walk fuel (found ++ new) (rest ++ new)

/-- A relation followed by every relation below it, each once. No more are
visited than there are identifiers. -/
def inheritors (oid : Oid) : Except CatalogError (List Oid) := walk c Oid.count [oid] [oid]

/-- The metadata points of the host. -/
def metadata : MetadataPoints where
  partitionDesc _ _ := pure none
  partitionKey _ _ := pure none
  hasSubclass _ oid := do
    let children ← answer (Catalog.children c oid)
    pure (!children.isEmpty)
  inheritors _ oid := answer (inheritors c oid)
  finishChild _ _ _ := pure ()
  indexName _ oid :=
    match Catalog.index c oid with
    | .ok i => pure (some i.name)
    | .error _ => pure none

/-- A physical index as one that might be used. -/
def candidateOf (i : PhysicalIndex) : Candidate where
  oid := i.oid
  relid := i.relid
  method := i.method
  pages := i.pages
  tuples := i.tuples
  height := i.height
  keys := i.keys.map some
  included := []
  descending := i.keys.map fun _ => false
  nullsFirst := i.keys.map fun _ => false
  unique := i.unique
  predicate := []
  implied := true
  hypothetical := false

/-- Fill in the size and columns of a relation, and its indexes unless its
children are read in its place. -/
def relationInfo (oid : Oid) (inherits : Bool) : Edit Scope Unit := do
  let r ← answer (Catalog.relation c oid)
  Edit.change fun s =>
    { s with rel := { s.rel with
      pages := r.pages, tuples := r.tuples, width := r.width, columns := r.columns } }
  if inherits || !r.kind.isIndexable then pure ()
  else
    let indexes ← answer (Catalog.indexes c oid)
    Edit.change fun s =>
      { s with rel := { s.rel with
        candidates := s.rel.candidates ++ indexes.map candidateOf } }

/-- Add the entry of one child, unless the parent has it already. -/
def addMember (m : MetadataPoints) (ctx : Context) (parent : RangeIndex) (parentId oid : Oid) :
    Edit PlanState Unit := do
  let r ← answer (Catalog.relation c oid)
  let ((), entry) ← Edit.lend (m.finishChild ctx parentId oid)
    (.ofRelation oid r.kind r.name false)
  Edit.change fun state =>
    if state.hasChild parent entry.logicalId then state else (state.addChild parent entry).2

/-- Add the entries of several children in turn. -/
def addMembers (m : MetadataPoints) (ctx : Context) (parent : RangeIndex) (parentId : Oid) :
    List Oid → Edit PlanState Unit
  | [] => pure ()
  | oid :: rest => do
    addMember c m ctx parent parentId oid
    addMembers m ctx parent parentId rest

/-- Add an entry for each partition, and without partitions for the relation
itself and everything below it. -/
def expandChildren (m : MetadataPoints) (ctx : Context) (parent : RangeIndex)
    (desc : Option PartitionDesc) : Edit PlanState Unit := do
  let state ← Edit.value
  match state.entry? parent with
  | none => Edit.fail (.planning (.noEntry parent))
  | some entry =>
    let members ← match desc with
      | some d => pure d.oids
      | none => Edit.ask (m.inheritors ctx entry.relid)
    addMembers c m ctx parent entry.relid members

/-- The planning points of the host. -/
def planning (m : MetadataPoints) : PlanningPoints where
  relationInfo _ oid inherits := relationInfo c oid inherits
  relationPaths _ _ := pure ()
  expandChildren ctx parent desc := expandChildren c m ctx parent desc

/-- Run an `EXPLAIN`: plan the query, execute it if asked to, and show the
plan. -/
def runExplain (m : MetadataPoints) (p : PlanningPoints) (e : Explain) : Edit Running Unit := do
  let choice ← Edit.ofExcept e.choice
  let running ← Edit.value
  let ctx := running.context
  let plan ← Edit.ask (e.query.plan c m p ctx running.task.settings)
  if choice.analyze then
    let trace ← Edit.ofExcept (plan.execute c)
    Edit.change fun r => { r with task := { r.task with trace := some trace } }
  let text ← Edit.ask (plan.render m ctx choice.format choice.costs)
  Edit.change fun r => { r with task := { r.task with explain := some text, plan := some plan } }

/-- Run a `SET` on the settings of the statement. -/
def runSet (name value : String) : Edit Running Unit := do
  let running ← Edit.value
  let settings ← Edit.ofExcept (running.task.settings.set name value)
  Edit.change fun r => { r with task := { r.task with settings } }

/-- The statement points of the host. -/
def statement (m : MetadataPoints) (p : PlanningPoints) : StatementPoints where
  utility s :=
    match s.utility with
    | some (.explain e) => runExplain c m p e
    | some (.set name value) => runSet name value
    | none => Edit.fail (.unsupported .notUtility)
  executorEnd := pure ()

/-- The host over a catalog. -/
def host : Host := ⟨metadata c, planning c, statement c⟩

end PhysicalHost

end WhatIf
