import WhatIf.Hook.Points
/-!
# Hook — probes

A probe is an interceptor that is described rather than programmed. It can
note the calls it sees, fail at chosen points, answer in place of the layers
under it and change what they answer. It notes a call first, then fails,
then answers or passes the call on, and last changes the answer.
-/

namespace WhatIf

/-- The points, by name. -/
inductive Point where
  | utility
  | executorEnd
  | relationInfo
  | relationPaths
  | partitionDesc
  | partitionKey
  | hasSubclass
  | inheritors
  | expandChildren
  | finishChild
  | indexName
  deriving DecidableEq

/-- A described interceptor. -/
structure Probe where
  /-- The name of the interceptor. -/
  name : String
  /-- Whether it notes the calls it sees. -/
  notes : Bool
  /-- The points at which it fails, and the reasons it gives. -/
  failures : List (Point × String)
  /-- Whether it opens the window of each utility statement. -/
  opensWindow : Bool
  /-- The partitions it answers with for every relation. -/
  partitions : Option PartitionDesc
  /-- Whether it says that every relation has children. -/
  subclass : Option Bool
  /-- Whether it withholds the names of indexes. -/
  hidesNames : Bool
  /-- Whether it puts its own name before the names of indexes. -/
  tagsNames : Bool
  /-- The number of pages it gives every relation. -/
  pages : Option Nat
  /-- The number of rows it gives every relation. -/
  tuples : Option Float
  /-- The relation whose paths it removes. -/
  cleared : Option String
  /-- The relation it declares to have no matching rows. -/
  emptied : Option String
  /-- What it appends to the names of children. -/
  suffix : String

namespace Probe

variable (p : Probe) {s α : Type}

/-- Note a call, if calls are noted. -/
def sight (what : Sighting) : Edit s Unit :=
  if p.notes then Edit.note ⟨p.name, what⟩ else pure ()

/-- Fail at a point if told to. -/
def failAt (point : Point) : Edit s Unit :=
  match p.failures.find? fun f => f.1 == point with
  | some (_, reason) => Edit.fail (.interceptor p.name reason)
  | none => pure ()

/-- What comes before each call is passed on. -/
def enter (point : Point) (what : Sighting) : Edit s Unit := do
  p.sight what
  p.failAt point

/-- The answer the probe gives itself, or that of the layers under it. -/
def orNext (own : Option α) (next : Ask α) : Ask α :=
  match own with
  | some answer => pure answer
  | none => next

/-- The name of an index as the layers under the probe give it. -/
def nameOf (next : Ask (Option String)) : Ask (Option String) := do
  let inner ← next
  pure (if p.tagsNames then some (p.name ++ ">" ++ inner.getD "") else inner)

/-- The metadata points over those under the probe. -/
def metadata (next : MetadataPoints) : MetadataPoints where
  partitionDesc ctx oid := do
    p.enter .partitionDesc (.partitionDesc oid)
    orNext (p.partitions.map some) (next.partitionDesc ctx oid)
  partitionKey ctx oid := do
    p.enter .partitionKey (.partitionKey oid)
    next.partitionKey ctx oid
  hasSubclass ctx oid := do
    p.enter .hasSubclass (.hasSubclass oid)
    orNext p.subclass (next.hasSubclass ctx oid)
  inheritors ctx oid := do
    p.enter .inheritors (.inheritors oid)
    next.inheritors ctx oid
  finishChild ctx parent child := do
    p.enter .finishChild (.finishChild parent child)
    next.finishChild ctx parent child
    Edit.change fun e => { e with label := e.label ++ p.suffix }
  indexName ctx oid := do
    p.enter .indexName (.indexName oid)
    if p.hidesNames then pure none else p.nameOf (next.indexName ctx oid)

/-- The size the probe gives a relation. -/
def resize (rel : RelState) : RelState :=
  { rel with pages := p.pages.getD rel.pages, tuples := p.tuples.getD rel.tuples }

/-- The relation without paths, or known to have no matching rows, if the
probe is told so. -/
def strip (rel : RelState) : RelState :=
  let rel := if p.cleared = some rel.name then { rel with paths := [] } else rel
  if p.emptied = some rel.name then rel.setDummy else rel

/-- The planning points over those under the probe. -/
def planning (_ : MetadataPoints) (next : PlanningPoints) : PlanningPoints where
  relationInfo ctx oid inherits := do
    let scope ← Edit.value
    p.enter .relationInfo (.relationInfo oid inherits scope.rel.entry scope.rel.name)
    next.relationInfo ctx oid inherits
    Edit.change fun s => { s with rel := p.resize s.rel }
  relationPaths ctx entry := do
    let scope ← Edit.value
    p.enter .relationPaths
      (.paths entry scope.rel.name scope.rel.paths.length scope.rel.rows)
    next.relationPaths ctx entry
    Edit.change fun s => { s with rel := p.strip s.rel }
    let scope ← Edit.value
    p.sight (.relation scope.rel)
  expandChildren ctx parent desc := do
    p.enter .expandChildren (.expandChildren parent desc)
    next.expandChildren ctx parent desc

/-- The statement points over those under the probe. -/
def statement (next : StatementPoints) : StatementPoints where
  utility s := do
    let r ← Edit.value
    p.enter .utility (.utility r.context.id r.context.window.isActive r.task.statement)
    if p.opensWindow then
      Edit.change fun r => { r with context := { r.context with window := ⟨true, true⟩ } }
    next.utility s
  executorEnd := do
    let r ← Edit.value
    p.enter .executorEnd
      (.executorEnd r.context.id r.context.window.isActive r.task.explain.isSome
        r.task.plan.isSome r.task.trace.isSome)
    next.executorEnd

/-- The probe as an interceptor. -/
def interceptor : Interceptor := ⟨p.name, p.metadata, p.planning, p.statement⟩

end Probe

end WhatIf
