import WhatIf.Hook.Points
import WhatIf.Explain.Options
import WhatIf.Document.Json
/-!
# Explain — plans as text

A plan is shown as a tree of nodes, each with its cost, its conditions and
the nodes below it, either as indented lines or as a JSON document. The names
of indexes are asked of the metadata points.
-/

namespace WhatIf

/-- What a shown node says of itself. -/
structure ShownHead where
  /-- What the node does. -/
  kind : String
  /-- The relation it reads. -/
  relation : Option String
  /-- The index it uses. -/
  index : Option String
  /-- The cost before the first row. -/
  startup : Float
  /-- The cost of all rows. -/
  total : Float
  /-- How many rows are expected. -/
  rows : Float
  /-- The average width of a row. -/
  width : Nat
  /-- The conditions looked up in the index. -/
  indexCond : Option String
  /-- The conditions checked again on the heap. -/
  recheckCond : Option String
  /-- The conditions checked on each row. -/
  filter : Option String
  /-- A condition checked once. -/
  oneTimeFilter : Option String

/-- A node of a shown plan. -/
inductive Shown where
  | node (head : ShownHead) (below : List Shown)

namespace Shown

/-- Several restrictions as one condition. -/
def conjunction : List Restriction → Option String
  | [] => none
  | [r] => some r.sql
  | rs => some ("(" ++ Text.join " AND " (rs.map Restriction.sql) ++ ")")

/-- A node that says only what it does and costs. -/
def bare (kind : String) (startup total rows : Float) (width : Nat) : ShownHead :=
  ⟨kind, none, none, startup, total, rows, width, none, none, none, none⟩

/-- A node for a path of the plan. -/
def ofHead (p : Plan) (kind : String) (h : PathHead) : ShownHead :=
  bare kind h.startup h.total h.rows (p.width h.entry)

/-- The name a path's relation goes by. -/
def relationOf (p : Plan) (h : PathHead) : Option String :=
  (p.state.entry? h.entry).map fun e => e.label

/-- The name of an index, which is its identifier if nobody names it. -/
def indexName (m : MetadataPoints) (ctx : Context) (oid : Oid) : Ask String := do
  let name ← m.indexName ctx oid
  pure (name.getD oid.text)

mutual

/-- The nodes that show a path. -/
def ofPath (m : MetadataPoints) (ctx : Context) (p : Plan) : Path → Ask Shown
  | .dummy h =>
    pure (.node { bare "Result" 0.0 0.0 0.0 (p.width h.entry) with oneTimeFilter := some "false" } [])
  | .append h children => do
    let below ← ofPaths m ctx p children
    pure (.node (ofHead p "Append" h) below)
  | .seqScan h =>
    pure (.node { ofHead p "Seq Scan" h with
      relation := relationOf p h, filter := conjunction h.filter } [])
  | .indexScan h oid conditions => do
    let name ← indexName m ctx oid
    pure (.node { ofHead p "Index Scan" h with
      relation := relationOf p h, index := some name
      indexCond := conjunction conditions, filter := conjunction h.filter } [])
  | .bitmapScan h oid conditions => do
    let name ← indexName m ctx oid
    let scan := { bare "Bitmap Index Scan" 0.0 h.startup h.rows 0 with
      index := some name, indexCond := conjunction conditions }
    pure (.node { ofHead p "Bitmap Heap Scan" h with
      relation := relationOf p h
      recheckCond := conjunction conditions, filter := conjunction h.filter } [.node scan []])

/-- The nodes that show each of several paths. -/
def ofPaths (m : MetadataPoints) (ctx : Context) (p : Plan) : List Path → Ask (List Shown)
  | [] => pure []
  | path :: rest => do
    let first ← ofPath m ctx p path
    let rest ← ofPaths m ctx p rest
    pure (first :: rest)

end

/-! ## Lines -/

/-- What a node reads, after its kind. -/
def target (h : ShownHead) : String :=
  match h.index, h.relation with
  | some index, some relation => " using " ++ index ++ " on " ++ relation
  | some index, none => " on " ++ index
  | none, some relation => " on " ++ relation
  | none, none => ""

/-- The cost of a node in parentheses. -/
def costText (h : ShownHead) : String :=
  "  (cost=" ++ Decimal.fixed 2 h.startup ++ ".." ++ Decimal.fixed 2 h.total ++ " rows=" ++
    Decimal.fixed 0 h.rows ++ " width=" ++ toString h.width ++ ")"

/-- The first line of a node. -/
def headerText (costs : Bool) (h : ShownHead) : String :=
  h.kind ++ target h ++ if costs then costText h else ""

/-- The conditions of a node, each with its label. -/
def details (h : ShownHead) : List String :=
  [("One-Time Filter", h.oneTimeFilter), ("Index Cond", h.indexCond),
    ("Recheck Cond", h.recheckCond), ("Filter", h.filter)].filterMap fun (label, value) =>
      value.map fun v => label ++ ": " ++ v

/-- So many blanks. -/
def blanks (n : Nat) : String := String.ofList (List.replicate n ' ')

/-- The lines of one node at a depth. -/
def ownLines (costs : Bool) (depth : Nat) (h : ShownHead) : List String :=
  let lead := if depth = 0 then "" else blanks (6 * depth - 4) ++ "->  "
  (lead ++ headerText costs h) :: (details h).map fun line => blanks (6 * depth + 2) ++ line

mutual

/-- The lines of a node at a depth and of everything below it. -/
def lines (costs : Bool) (depth : Nat) : Shown → List String
  | node h below => ownLines costs depth h ++ linesOfAll costs (depth + 1) below

/-- The lines of each of several nodes. -/
def linesOfAll (costs : Bool) (depth : Nat) : List Shown → List String
  | [] => []
  | s :: ss => lines costs depth s ++ linesOfAll costs depth ss

end

/-- The plan as indented lines. -/
def toText (costs : Bool) (s : Shown) : String := Text.join "\n" (lines costs 0 s)

/-! ## Document -/

/-- A member that is left out if it has no value. -/
def optional (name : String) (value : Option String) : List (String × Json) :=
  match value with
  | some v => [(name, .text v)]
  | none => []

/-- What a node says of itself as members of an object. -/
def members (h : ShownHead) : List (String × Json) :=
  [("Node Type", .text h.kind)] ++ optional "Relation Name" h.relation ++
    optional "Index Name" h.index ++
    [("Startup Cost", .float h.startup), ("Total Cost", .float h.total),
      ("Plan Rows", .float h.rows), ("Plan Width", .int (Int.ofNat h.width))] ++
    optional "Index Cond" h.indexCond ++ optional "Recheck Cond" h.recheckCond ++
    optional "Filter" h.filter ++ optional "One-Time Filter" h.oneTimeFilter

mutual

/-- The object of a node. -/
def toJson : Shown → Json
  | node h [] => .object (members h)
  | node h (s :: ss) => .object (members h ++ [("Plans", .array (toJsonAll (s :: ss)))])

/-- The objects of several nodes. -/
def toJsonAll : List Shown → List Json
  | [] => []
  | s :: ss => toJson s :: toJsonAll ss

end

/-- The plan as a JSON document. -/
def toDocument (s : Shown) : String := (Json.array [.object [("Plan", toJson s)]]).pretty

end Shown

namespace Plan

/-- The text of a plan in a form, with or without costs. -/
def render (p : Plan) (m : MetadataPoints) (ctx : Context) (format : ExplainFormat)
    (costs : Bool) : Ask String := do
  let shown ← Shown.ofPath m ctx p p.path
  pure (match format with
    | .text => shown.toText costs
    | .json => shown.toDocument)

end Plan

end WhatIf
