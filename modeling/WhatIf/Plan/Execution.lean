import WhatIf.Hook.Journal
import WhatIf.Catalog.Basic
/-!
# Plan — execution

No rows are read. Executing a plan opens the relations and indexes it names
and records them in order, so a plan that names what does not exist fails
where reading it would.
-/

namespace WhatIf

namespace Plan

variable {σ : Type} [Catalog σ]

/-- Open an index, which must be on the given relation. -/
def openIndex (c : σ) (r : Relation) (oid : Oid) : Except ExecutionFault Unit :=
  match Catalog.index c oid with
  | .error _ => .error (.noIndex oid)
  | .ok i => if i.relid = r.oid then .ok () else .error (.foreignIndex i.name r.name)

/-- Open the relation of a scan and the index it uses, and answer with the
name of the relation. -/
def openScan (c : σ) (state : PlanState) (entry : RangeIndex) (index? : Option Oid) :
    Except ExecutionFault String :=
  match state.entry? entry with
  | none => .error (.noEntry entry)
  | some e =>
    match e.partition with
    | some oid => .error (.hypotheticalRelation oid)
    | none =>
      match Catalog.relation c e.relid with
      | .error cause => .error (.unreadable cause)
      | .ok r =>
        match index? with
        | none => .ok r.name
        | some oid => (openIndex c r oid).map fun _ => r.name

mutual

/-- The relations and indexes a path opens, in order. -/
def openPath (c : σ) (state : PlanState) : Path → Except ExecutionFault (List String × List Oid)
  | .append _ children => openAll c state children
  | .dummy _ => .ok ([], [])
  | .seqScan h => (openScan c state h.entry none).map fun name => ([name], [])
  | .indexScan h oid _ => (openScan c state h.entry (some oid)).map fun name => ([name], [oid])
  | .bitmapScan h oid _ => (openScan c state h.entry (some oid)).map fun name => ([name], [oid])

/-- The relations and indexes that each of several paths opens, in order. -/
def openAll (c : σ) (state : PlanState) :
    List Path → Except ExecutionFault (List String × List Oid)
  | [] => .ok ([], [])
  | path :: rest =>
    match openPath c state path with
    | .error fault => .error fault
    | .ok (names, indexes) =>
      (openAll c state rest).map fun (names', indexes') => (names ++ names', indexes ++ indexes')

end

/-- Execute a plan. -/
def execute (c : σ) (p : Plan) : Except Error Trace :=
  match openPath c p.state p.path with
  | .error fault => .error (.execution fault)
  | .ok (relations, indexes) => .ok ⟨relations, indexes, p.path.head.rows⟩

end Plan

end WhatIf
