import WhatIf.Condition
/-!
# Statement — what a session is asked to run

A statement is a `SELECT` from one relation, an `EXPLAIN` of one, or a `SET`.
An `EXPLAIN` only plans unless it has an `analyze` option, whatever the value
of that option is.
-/

namespace WhatIf

/-- A `SELECT` from one relation. -/
structure Query where
  /-- The name of the relation. -/
  relation : String
  /-- Whether inheritance children are left out. -/
  only : Bool
  /-- The conjuncts of the `WHERE` clause. -/
  quals : List Qual

namespace Query

/-- All rows of a relation and its children. -/
def select (relation : String) : Query := ⟨relation, false, []⟩

/-- The query without inheritance children. -/
def onlyParent (q : Query) : Query := { q with only := true }

/-- The query with one more conjunct. -/
def addQual (q : Query) (column : String) (test : ColumnTest) : Query :=
  { q with quals := q.quals ++ [⟨column, test⟩] }

end Query

/-- An option of `EXPLAIN`, with or without a value. -/
structure ExplainOption where
  /-- Its name. -/
  name : String
  /-- Its value. -/
  value : Option String

/-- An `EXPLAIN` of a query. -/
structure Explain where
  /-- The query. -/
  query : Query
  /-- The options. -/
  options : List ExplainOption

/-- The first option of a given name. -/
def Explain.option? (e : Explain) (name : String) : Option ExplainOption :=
  e.options.find? fun o => Text.sameName o.name name

/-- A statement that is not planned. -/
inductive Utility where
  | explain (e : Explain)
  | set (name value : String)

/-- A statement. -/
inductive Statement where
  | select (q : Query)
  | utility (u : Utility)

namespace Statement

/-- An `EXPLAIN` with options. -/
def explain (q : Query) (options : List ExplainOption) : Statement :=
  .utility (.explain ⟨q, options⟩)

/-- An `EXPLAIN` that executes the query. -/
def explainAnalyze (q : Query) : Statement := explain q [⟨"analyze", none⟩]

end Statement

/-- Which of the two ways a statement is run. -/
inductive Command where
  | select
  | utility
  deriving DecidableEq

/-- A statement after analysis. A utility statement is carried along
unplanned. -/
structure PlannedStatement where
  /-- How it is run. -/
  command : Command
  /-- The query of a `SELECT`. -/
  query : Option Query
  /-- The utility statement. -/
  utility : Option Utility

namespace PlannedStatement

/-- A statement analysed. -/
def ofStatement : Statement → PlannedStatement
  | .select q => ⟨.select, some q, none⟩
  | .utility u => ⟨.utility, none, some u⟩

/-- Whether the statement is an `EXPLAIN` that will only plan. -/
def isPlanOnly (s : PlannedStatement) : Bool :=
  match s.utility with
  | some (.explain e) => (e.option? "analyze").isNone
  | _ => false

end PlannedStatement

end WhatIf
