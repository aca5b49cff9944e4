import WhatIf.Plan.Path
import WhatIf.Partition.Bound
import WhatIf.Settings
import WhatIf.Sorting.Insertion
import WhatIf.Keyed
/-!
# Plan — what the planner works on

The range table lists the relations a query reads; a child entry stands for a
partition or an inheritance child and is linked to its parent. For each entry
planned, the planner keeps what it knows about the relation: its size, the
indexes that might be used, the restrictions on it and the paths found.
-/

namespace WhatIf

/-- A relation that a query reads. -/
structure RangeEntry where
  /-- The physical relation. -/
  relid : Oid
  /-- Its kind. -/
  kind : RelKind
  /-- Whether its children are read in its place. -/
  inherits : Bool
  /-- The name it goes by in the plan. -/
  label : String
  /-- The hypothetical partition the entry stands for, if any. -/
  partition : Option Oid
  /-- The entry of its parent. -/
  parent : Option RangeIndex

namespace RangeEntry

/-- The entry of a relation. -/
def ofRelation (relid : Oid) (kind : RelKind) (label : String) (inherits : Bool) : RangeEntry :=
  ⟨relid, kind, inherits, label, none, none⟩

/-- The identifier the planner goes by: that of the hypothetical partition
if there is one, and of the relation otherwise. -/
def logicalId (e : RangeEntry) : Oid := e.partition.getD e.relid

end RangeEntry

/-- A link from a child entry to its parent. -/
structure AppendLink where
  /-- The entry of the parent. -/
  parent : RangeIndex
  /-- The entry of the child. -/
  child : RangeIndex
  /-- The identifier the parent goes by. -/
  parentId : Oid
  /-- The identifier the child goes by. -/
  childId : Oid
  deriving DecidableEq

/-- An index that might be used. -/
structure Candidate where
  /-- Its identifier. -/
  oid : Oid
  /-- The relation it is on. -/
  relid : Oid
  /-- Its access method. -/
  method : AccessMethod
  /-- How many pages it has. -/
  pages : Nat
  /-- How many entries it has. -/
  tuples : Float
  /-- How many levels lie above its leaves. -/
  height : Int
  /-- Its key columns; an expression has no number. -/
  keys : List (Option AttNum)
  /-- The columns it stores without their being keys. -/
  included : List AttNum
  /-- Which keys are sorted downwards. -/
  descending : List Bool
  /-- Which keys have `NULL` first. -/
  nullsFirst : List Bool
  /-- Whether it is unique. -/
  unique : Bool
  /-- Its predicate. -/
  predicate : List Restriction
  /-- Whether the restrictions of the query imply the predicate. -/
  implied : Bool
  /-- Whether it is hypothetical. -/
  hypothetical : Bool

namespace Candidate

/-- The first key column. -/
def leading? (x : Candidate) : Option AttNum :=
  match x.keys with
  | some a :: _ => some a
  | _ => none

/-- Whether the index is partial. -/
def isPartial (x : Candidate) : Bool := !x.predicate.isEmpty

end Candidate

/-- How a relation is partitioned. -/
structure Partitioning where
  /-- The key. -/
  key : PartitionKey
  /-- The partitions. -/
  desc : PartitionDesc

/-- What the planner knows about a relation it reads. -/
structure RelState where
  /-- Its entry. -/
  entry : RangeIndex
  /-- The physical relation. -/
  relid : Oid
  /-- The name it goes by. -/
  name : String
  /-- How many pages it has. -/
  pages : Nat
  /-- How many rows it has. -/
  tuples : Float
  /-- How many rows are expected to satisfy the restrictions. -/
  rows : Float
  /-- The average width of a row. -/
  width : Nat
  /-- Its columns. -/
  columns : List Column
  /-- The indexes that might be used. -/
  candidates : List Candidate
  /-- The restrictions on it. -/
  restrictions : List Restriction
  /-- The paths found so far. -/
  paths : List Path
  /-- How it is partitioned. -/
  partitioning : Option Partitioning
  /-- What its rows are known to satisfy. -/
  constraints : List Constraint
  /-- Whether it is known to have no matching rows. -/
  isDummy : Bool

namespace RelState

/-- What is known of a relation before anyone was asked. -/
def blank (entry : RangeIndex) (relid : Oid) (name : String) (restrictions : List Restriction) :
    RelState where
  entry := entry
  relid := relid
  name := name
  pages := 0
  tuples := 0.0
  rows := 0.0
  width := 0
  columns := []
  candidates := []
  restrictions := restrictions
  paths := []
  partitioning := none
  constraints := []
  isDummy := false

variable (r : RelState)

/-- The name of a column. -/
def columnName? (a : AttNum) : Option String :=
  (r.columns.find? fun c => c.attnum == a).map fun c => c.name

/-- The relation with one more path. -/
def addPath (p : Path) : RelState := { r with paths := r.paths ++ [p] }

/-- The cheapest path found. -/
def cheapest? : Option Path := Path.cheapest? r.paths

/-- The relation known to have no matching rows. -/
def setDummy : RelState :=
  { r with paths := [Path.ofNothing r.entry r.relid], rows := 0.0, isDummy := true }

end RelState

/-- The range table of a query, and the settings it is planned under. -/
structure PlanState where
  /-- The entries. -/
  entries : List RangeEntry
  /-- The links from children to parents. -/
  links : List AppendLink
  /-- The settings. -/
  settings : Settings

namespace PlanState

/-- A range table without entries. -/
def ofSettings (s : Settings) : PlanState := ⟨[], [], s⟩

variable (p : PlanState)

/-- The entry at a position. -/
def entry? (i : RangeIndex) : Option RangeEntry :=
  if i.position = 0 then none else p.entries[i.slot]?

/-- Add an entry at the end. -/
def addEntry (e : RangeEntry) : RangeIndex × PlanState :=
  let entries := p.entries ++ [e]
  (⟨entries.length⟩, { p with entries })

/-- Add a child entry at the end and link it to its parent. -/
def addChild (parent : RangeIndex) (e : RangeEntry) : RangeIndex × PlanState :=
  let parentId := match p.entry? parent with
    | some e => e.logicalId
    | none => Oid.invalid
  let e := { e with parent := some parent }
  let (child, p) := p.addEntry e
  (child, { p with links := p.links ++ [⟨parent, child, parentId, e.logicalId⟩] })

/-- The children of an entry in order. -/
def childrenOf (parent : RangeIndex) : List RangeIndex :=
  (p.links.filter fun l => l.parent == parent).map fun l => l.child

/-- Whether an entry has a child that goes by a given identifier. -/
def hasChild (parent : RangeIndex) (childId : Oid) : Bool :=
  p.links.any fun l => l.parent == parent && l.childId == childId

end PlanState

/-- The chosen plan of a query. -/
structure Plan where
  /-- The range table. -/
  state : PlanState
  /-- The path chosen for the query's relation. -/
  path : Path
  /-- The average width of the rows of each entry planned. -/
  widths : List (RangeIndex × Nat)
  /-- The child entries found to have no matching rows. -/
  pruned : List RangeIndex

namespace Plan

variable (p : Plan)

/-- The width of the rows of an entry. -/
def width (i : RangeIndex) : Nat := (Keyed.find? p.widths i).getD 0

/-- The widths by position of the entry. -/
def sortedWidths : List (RangeIndex × Nat) :=
  Sorting.insertion (fun a b => a.1.position < b.1.position) p.widths

/-- The names of the entries found to have no matching rows. -/
def prunedAliases : List String :=
  (p.pruned.filterMap p.state.entry?).map fun e => e.label

end Plan

end WhatIf
