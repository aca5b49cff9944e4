import WhatIf.Brief.Objects
import WhatIf.Plan.State
import WhatIf.Hook.Journal
import WhatIf.Cost
import WhatIf.Session
/-!
# Brief — statements, plans and what was noted

A statement is an object whose one member names its kind. The answers about
plans spell out everything the planner knows; those about a statement under
way say what it has produced so far.
-/

namespace WhatIf

/-! ## Statements -/

instance : OfBrief Query := ⟨fun q => ⟨q.get "rel", q.get "only", q.get "quals"⟩⟩

instance : ToBrief Query where
  write q := .object [("rel", brief q.relation), ("only", brief q.only),
    ("quals", brief (q.quals.map Qual.sql))]

instance : OfBrief ExplainOption := ⟨fun q => ⟨q.nth 0, q.nth 1⟩⟩

instance : OfBrief Statement where
  read q :=
    let s := q.field "set"
    if q.has "select" then .select (q.get "select")
    else if q.has "explain" then .explain (q.get "explain") (q.get "options")
    else .utility (.set (s.nth 0) (s.nth 1))

instance : ToBrief Command where
  write
    | .select => .text "select"
    | .utility => .text "utility"

instance : ToBrief Utility where
  write
    | .explain e => .object [("explain", brief e.query),
      ("options", brief (e.options.map fun o => (o.name, o.value)))]
    | .set name value => .object [("set", brief (name, value))]

/-- A statement, or a bare command without one. -/
instance : OfBrief PlannedStatement where
  read q :=
    if q.has "raw" then
      ⟨(q.field "raw").choice .utility [("select", .select)], none, none⟩
    else .ofStatement (OfBrief.read q)

instance : ToBrief PlannedStatement where
  write s := .object [("command", brief s.command), ("query", brief s.query),
    ("utility", brief s.utility)]

instance : ToBrief Window := ⟨fun w => brief (w.isActive, w.planOnly)⟩

/-! ## Settings and costs -/

/-- The values of the setting with their names. -/
def Exclusion.briefNames : List (String × Exclusion) :=
  [("partition", .partition), ("on", .on), ("off", .off)]

instance : OfBrief Exclusion := ⟨fun q => q.choice .partition Exclusion.briefNames⟩

/-- The settings that differ from the standard ones. -/
instance : OfBrief Settings where
  read q :=
    let s := Settings.standard
    { enableSeqScan := q.getOr "enable_seqscan" s.enableSeqScan
      enableIndexScan := q.getOr "enable_indexscan" s.enableIndexScan
      enableBitmapScan := q.getOr "enable_bitmapscan" s.enableBitmapScan
      exclusion := q.getOr "constraint_exclusion" s.exclusion
      seqPageCost := q.getOr "seq_page_cost" s.seqPageCost
      randomPageCost := q.getOr "random_page_cost" s.randomPageCost
      cpuTupleCost := q.getOr "cpu_tuple_cost" s.cpuTupleCost
      cpuIndexTupleCost := q.getOr "cpu_index_tuple_cost" s.cpuIndexTupleCost
      cpuOperatorCost := q.getOr "cpu_operator_cost" s.cpuOperatorCost }

instance : ToBrief Settings where
  write s := .object [("enable_seqscan", brief s.enableSeqScan),
    ("enable_indexscan", brief s.enableIndexScan),
    ("enable_bitmapscan", brief s.enableBitmapScan),
    ("constraint_exclusion", .text (nameIn Exclusion.briefNames s.exclusion)),
    ("seq_page_cost", brief s.seqPageCost), ("random_page_cost", brief s.randomPageCost),
    ("cpu_tuple_cost", brief s.cpuTupleCost),
    ("cpu_index_tuple_cost", brief s.cpuIndexTupleCost),
    ("cpu_operator_cost", brief s.cpuOperatorCost)]

instance : OfBrief Operation where
  read q := match (q.get "kind" : String) with
    | "index" =>
      .indexScan (q.get "index_pages") (q.get "index_tuples") (q.get "tree_height")
        (q.get "heap_pages") (q.get "heap_tuples") (q.get "selectivity") (q.get "index_quals")
        (q.get "filter_quals")
    | "bitmap" =>
      .bitmapScan (q.get "index_pages") (q.get "heap_pages") (q.get "heap_tuples")
        (q.get "selectivity") (q.get "lossy_pages") (q.get "quals")
    | _ => .seqScan (q.get "pages") (q.get "tuples") (q.get "quals")

instance : ToBrief Cost where
  write c := .object [("startup", brief c.startup), ("cpu", brief c.cpu), ("io", brief c.io),
    ("total", brief c.total)]

/-! ## Plans -/

instance : OfBrief PathHead where
  read q := ⟨q.get "rti", q.get "relid", q.get "rows", q.get "startup", q.get "total",
    q.get "filter"⟩

/-- Read a path with paths nested under it so many times at most. -/
def Path.readWithin : Nat → Request → Path
  | 0, q => .dummy (OfBrief.read q)
  | n + 1, q => match (q.get "kind" : String) with
    | "index" => .indexScan (OfBrief.read q) (q.get "index") (q.get "quals")
    | "bitmap" => .bitmapScan (OfBrief.read q) (q.get "index") (q.get "quals")
    | "append" => .append (OfBrief.read q) ((q.field "children").each (readWithin n))
    | "dummy" => .dummy (OfBrief.read q)
    | _ => .seqScan (OfBrief.read q)

instance : OfBrief Path := ⟨fun q => Path.readWithin (q.body.depth + 1) q⟩

namespace Path

/-- The object of a path of a kind. -/
def briefObject (kind : String) (own : List (String × Json)) (h : PathHead) : Json :=
  .object ([("kind", brief kind), ("rti", brief h.entry), ("relid", brief h.relid),
    ("rows", brief h.rows), ("startup", brief h.startup), ("total", brief h.total),
    ("filter", brief h.filter)] ++ own)

mutual

/-- Write a path. -/
def toBrief : Path → Json
  | seqScan h => briefObject "seq" [] h
  | indexScan h i qs => briefObject "index" [("index", brief i), ("quals", brief qs)] h
  | bitmapScan h i qs => briefObject "bitmap" [("index", brief i), ("quals", brief qs)] h
  | append h ps => briefObject "append" [("children", .array (toBriefAll ps))] h
  | dummy h => briefObject "dummy" [] h

/-- Write several paths. -/
def toBriefAll : List Path → List Json
  | [] => []
  | p :: ps => toBrief p :: toBriefAll ps

end

end Path

instance : ToBrief Path := ⟨Path.toBrief⟩

instance : OfBrief RangeEntry where
  read q := ⟨q.get "relid", q.get "kind", q.get "inh", q.get "alias", q.get "hypo", none⟩

instance : ToBrief RangeEntry where
  write e := .object [("relid", brief e.relid), ("kind", brief e.kind), ("inh", brief e.inherits),
    ("alias", brief e.label), ("hypo", brief e.partition), ("parent", brief e.parent)]

/-- The range table of a list of entries, each with the position of its
parent or without one. -/
def PlanState.ofEntries (s : Settings) (entries : List (RangeEntry × Option RangeIndex)) :
    PlanState :=
  entries.foldl (fun p e =>
    match e.2 with
    | some parent => (p.addChild parent e.1).2
    | none => (p.addEntry e.1).2) (.ofSettings s)

instance : OfBrief PlanState where
  read q := .ofEntries (q.get "settings")
    ((q.field "rtes").each fun e => (OfBrief.read e, e.get "parent"))

instance : ToBrief AppendLink where
  write l := .array [brief l.parent, brief l.child, brief l.parentId, brief l.childId]

instance : ToBrief PlanState where
  write p := .object [("rtes", brief p.entries), ("appends", brief p.links)]

instance : ToBrief Candidate where
  write x := .object [("oid", brief x.oid), ("relid", brief x.relid), ("am", brief x.method),
    ("pages", brief x.pages), ("tuples", brief x.tuples), ("height", brief x.height),
    ("keys", brief x.keys), ("include", brief x.included),
    ("reverse_sort", brief x.descending), ("nulls_first", brief x.nullsFirst),
    ("unique", brief x.unique), ("where", brief x.predicate), ("pred_ok", brief x.implied),
    ("can_order", brief x.method.canOrder), ("has_gettuple", brief x.method.hasGetTuple),
    ("has_getbitmap", brief x.method.hasGetBitmap),
    ("supports_range", brief x.method.supportsRange), ("hypothetical", brief x.hypothetical),
    ("leading", brief x.leading?), ("partial", brief x.isPartial)]

instance : ToBrief Partitioning where
  write p := .object [("key", brief p.key), ("desc", brief p.desc)]

instance : OfBrief RelState where
  read q :=
    { RelState.blank (q.get "rti") (q.get "relid") (q.get "name") (q.get "restrictions") with
      pages := q.get "pages"
      tuples := q.get "tuples"
      rows := q.get "rows"
      width := q.get "width"
      columns := q.get "columns"
      paths := q.get "paths"
      constraints := q.get "constraints"
      isDummy := q.get "dummy" }

instance : ToBrief RelState where
  write r := .object [("rti", brief r.entry), ("relid", brief r.relid), ("name", brief r.name),
    ("pages", brief r.pages), ("tuples", brief r.tuples), ("rows", brief r.rows),
    ("width", brief r.width),
    ("columns", brief (r.columns.map fun c => (c.attnum, r.columnName? c.attnum))),
    ("indexes", brief r.candidates), ("restrictions", brief r.restrictions),
    ("paths", brief r.paths), ("partitioning", brief r.partitioning),
    ("constraints", brief r.constraints),
    ("constraints_sql", brief (r.constraints.map Constraint.sql)), ("dummy", brief r.isDummy)]

instance : ToBrief Plan where
  write p := .object [("path", brief p.path), ("root", brief p.state),
    ("widths", brief p.sortedWidths), ("pruned", brief p.pruned),
    ("pruned_aliases", brief p.prunedAliases), ("indexes", brief p.path.indexes)]

instance : ToBrief Trace where
  write t := .object [("relations", brief t.relations), ("indexes", brief t.indexes),
    ("rows", brief t.rows)]

instance : ToBrief StatementResult where
  write r := .object [("explain", brief r.explain), ("trace", brief r.trace),
    ("plan", brief r.plan)]

end WhatIf
