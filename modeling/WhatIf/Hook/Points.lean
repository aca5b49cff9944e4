import WhatIf.Hook.Journal
import WhatIf.Text.Quoted
/-!
# Hook — the points where planning can be intercepted

Each point is a call that edits a value on loan: it answers or fails, and in
either case the value is left as edited so far and the journal as written so
far. The points form three groups. The metadata points call none other; the
planning points may call metadata points; the statement points may call both.
An interceptor wraps the points of each group, given those of the layers
under it.
-/

namespace WhatIf

/-- A call that edits a value on loan and may fail. -/
abbrev Edit (s α : Type) : Type := ExceptT Error (StateM (s × Journal)) α

/-- A call that edits nothing. -/
abbrev Ask (α : Type) : Type := Edit Unit α

namespace Edit

variable {s t α : Type}

/-- Run a call on a value. -/
def run (x : Edit s α) (v : s) (j : Journal) : Except Error α × s × Journal :=
  let (answer, v, j) := ExceptT.run x (v, j)
  (answer, v, j)

/-- The value on loan. -/
def value : Edit s s := fun st => (.ok st.1, st)

/-- Replace the value on loan. -/
def put (v : s) : Edit s Unit := fun st => (.ok (), (v, st.2))

/-- Change the value on loan. -/
def change (f : s → s) : Edit s Unit := fun st => (.ok (), (f st.1, st.2))

/-- Fail. -/
def fail (e : Error) : Edit s α := fun st => (.error e, st)

/-- Add a note to the journal. -/
def note (n : Note) : Edit s Unit := fun st => (.ok (), (st.1, st.2 ++ [n]))

/-- Answer with what a computation without effects gives. -/
def ofExcept (x : Except Error α) : Edit s α := fun st => (x, st)

/-- Run a call on another value and answer with that value as well. -/
def lend (x : Edit t α) (v : t) : Edit s (α × t) := fun st =>
  match x (v, st.2) with
  | (.ok a, (v, j)) => (.ok (a, v), (st.1, j))
  | (.error e, (_, j)) => (.error e, (st.1, j))

/-- Run a call on a part of the value on loan. -/
def zoom (get : s → t) (set : t → s → s) (x : Edit t α) : Edit s α := fun st =>
  let (answer, (v, j)) := x (get st.1, st.2)
  (answer, (set v st.1, j))

/-- Run a call that edits nothing. -/
def ask (x : Ask α) : Edit s α := fun st =>
  let (answer, (_, j)) := x ((), st.2)
  (answer, (st.1, j))

end Edit

/-- A relation being planned within its query. -/
structure Scope where
  /-- The range table of the query. -/
  state : PlanState
  /-- The relation. -/
  rel : RelState

/-- A statement under way. -/
structure Running where
  /-- Its context. -/
  context : Context
  /-- The statement and what it has produced. -/
  task : Task

/-- The points that ask about relations and indexes. -/
structure MetadataPoints where
  /-- The partitions of a relation, if it is partitioned. -/
  partitionDesc : Context → Oid → Ask (Option PartitionDesc)
  /-- The key of a relation, if it is partitioned. -/
  partitionKey : Context → Oid → Ask (Option PartitionKey)
  /-- Whether a relation has children. -/
  hasSubclass : Context → Oid → Ask Bool
  /-- A relation followed by everything below it. -/
  inheritors : Context → Oid → Ask (List Oid)
  /-- Finish the entry of a child, given the identifiers of its parent and
  of the child. -/
  finishChild : Context → Oid → Oid → Edit RangeEntry Unit
  /-- The name of an index in the text of a plan. -/
  indexName : Context → Oid → Ask (Option String)

/-- The points that build the plan of a relation. -/
structure PlanningPoints where
  /-- Fill in the size, indexes and partitioning of a relation, given its
  identifier and whether its children are read in its place. -/
  relationInfo : Context → Oid → Bool → Edit Scope Unit
  /-- Adjust the paths of a relation once they have been found. -/
  relationPaths : Context → RangeIndex → Edit Scope Unit
  /-- Add the entries of the children of an entry. -/
  expandChildren : Context → RangeIndex → Option PartitionDesc → Edit PlanState Unit

/-- The points around a statement. -/
structure StatementPoints where
  /-- Run a utility statement. -/
  utility : PlannedStatement → Edit Running Unit
  /-- Clean up after a statement, whether or not it has failed. -/
  executorEnd : Edit Running Unit

/-- The points of all groups. -/
structure Points where
  /-- The metadata points. -/
  metadata : MetadataPoints
  /-- The planning points. -/
  planning : PlanningPoints
  /-- The statement points. -/
  statement : StatementPoints

/-- A layer over the points. Each group is wrapped given the points under
the layer; a planning point may also call the metadata points of the whole
stack. -/
structure Interceptor where
  /-- The name of the interceptor. -/
  name : String
  /-- Wrap the metadata points. -/
  metadata : MetadataPoints → MetadataPoints
  /-- Wrap the planning points, given the metadata points of the whole
  stack. -/
  planning : MetadataPoints → PlanningPoints → PlanningPoints
  /-- Wrap the statement points. -/
  statement : StatementPoints → StatementPoints

/-- What a log shows of an interceptor: its name. -/
def Interceptor.shown (i : Interceptor) : String :=
  "PlannerHook \x7b name: " ++ Text.quoted i.name ++ " \x7d"

/-- The interceptor that passes every call on. -/
def Interceptor.passing (name : String) : Interceptor := ⟨name, id, fun _ => id, id⟩

/-- What answers when no interceptor does. A point may call the points of
the groups before it through the whole stack. -/
structure Host where
  /-- The metadata points. -/
  metadata : MetadataPoints
  /-- The planning points. -/
  planning : MetadataPoints → PlanningPoints
  /-- The statement points. -/
  statement : MetadataPoints → PlanningPoints → StatementPoints

namespace Host

variable (h : Host) (layers : List Interceptor)

/-- The metadata points behind layers of interceptors, the first of which
is called first. -/
def metadataBehind : MetadataPoints := layers.foldr (fun i next => i.metadata next) h.metadata

/-- The planning points behind layers of interceptors. -/
def planningBehind : PlanningPoints :=
  let whole := h.metadataBehind layers
  layers.foldr (fun i next => i.planning whole next) (h.planning whole)

/-- The statement points behind layers of interceptors. -/
def statementBehind : StatementPoints :=
  layers.foldr (fun i next => i.statement next)
    (h.statement (h.metadataBehind layers) (h.planningBehind layers))

/-- The points behind layers of interceptors. -/
def behind : Points :=
  ⟨h.metadataBehind layers, h.planningBehind layers, h.statementBehind layers⟩

end Host

end WhatIf
