import WhatIf.Plan.State
import WhatIf.Statement
/-!
# Hook — the statement under way, and what observers note

While a statement runs, a simulation window says whether hypothetical objects
may appear in its plan. Interceptors may keep notes of the calls they see, in
one journal and in the order in which the calls arrive.
-/

namespace WhatIf

/-- Whether hypothetical objects may appear in the plan of a statement. -/
structure Window where
  /-- Whether the statement is an `EXPLAIN` that only plans. -/
  planOnly : Bool
  /-- Whether hypothetical objects are enabled. -/
  enabled : Bool
  deriving DecidableEq

namespace Window

/-- The window that shows nothing. -/
def closed : Window := ⟨false, false⟩

/-- Whether hypothetical objects may appear. -/
def isActive (w : Window) : Bool := w.planOnly && w.enabled

end Window

/-- What is known about the statement under way. -/
structure Context where
  /-- The number of the statement in its session. -/
  id : Nat
  /-- Its simulation window. -/
  window : Window

/-- The context of a statement that has just begun. -/
def Context.start (id : Nat) : Context := ⟨id, .closed⟩

/-- What was opened while a plan was executed, in order. -/
structure Trace where
  /-- The names of the relations. -/
  relations : List String
  /-- The identifiers of the indexes. -/
  indexes : List Oid
  /-- How many rows the plan was expected to return. -/
  rows : Float

/-- Whether an index was opened. -/
def Trace.usedIndex (t : Trace) (oid : Oid) : Bool := t.indexes.contains oid

/-- A statement and what it has produced so far. -/
structure Task where
  /-- The statement. -/
  statement : PlannedStatement
  /-- The settings in force; a `SET` changes them here. -/
  settings : Settings
  /-- The plan. -/
  plan : Option Plan
  /-- The text of the plan. -/
  explain : Option String
  /-- What was opened. -/
  trace : Option Trace

/-- A statement that has produced nothing yet. -/
def Task.ofStatement (s : PlannedStatement) (settings : Settings) : Task :=
  ⟨s, settings, none, none, none⟩

/-- What an observer sees of a call. -/
inductive Sighting where
  | utility (id : Nat) (active : Bool) (statement : PlannedStatement)
  | executorEnd (id : Nat) (active explained planned traced : Bool)
  | relationInfo (oid : Oid) (inherits : Bool) (entry : RangeIndex) (name : String)
  | paths (entry : RangeIndex) (name : String) (count : Nat) (rows : Float)
  | relation (state : RelState)
  | partitionDesc (oid : Oid)
  | partitionKey (oid : Oid)
  | hasSubclass (oid : Oid)
  | inheritors (oid : Oid)
  | expandChildren (parent : RangeIndex) (desc : Option PartitionDesc)
  | finishChild (parent child : Oid)
  | indexName (oid : Oid)

/-- A sighting with the name of the observer. -/
structure Note where
  /-- The name of the observer. -/
  observer : String
  /-- What was seen. -/
  sighting : Sighting

/-- The notes of all observers, in order. -/
abbrev Journal : Type := List Note

end WhatIf
