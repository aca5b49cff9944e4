import WhatIf.Document.Schema.Objects
import WhatIf.Plan.State
import WhatIf.Hook.Journal
import WhatIf.Cost
/-!
# Document — the JSON forms of statements, plans and costs

One codec for each type, under the name of the type.
-/

namespace WhatIf

open Codec (Shape Fields)

/-! ## Statements -/

/-- A query. -/
def Query.codec : Codec Query := Codec.record <|
  Shape.of Query.mk
    |>.and (.field "relation" Codec.text fun q => q.relation)
    |>.and (.field "only" Codec.bool fun q => q.only)
    |>.and (.field "quals" Qual.codec.list fun q => q.quals)

/-- An option of `EXPLAIN`. -/
def ExplainOption.codec : Codec ExplainOption := Codec.record <|
  Shape.of ExplainOption.mk
    |>.and (.field "name" Codec.text fun o => o.name)
    |>.and (.optional "value" Codec.text fun o => o.value)

/-- An `EXPLAIN`. -/
def Explain.codec : Codec Explain := Codec.record <|
  Shape.of Explain.mk
    |>.and (.field "query" Query.codec fun e => e.query)
    |>.and (.field "options" ExplainOption.codec.list fun e => e.options)

namespace Utility

/-- What a `SET` holds. -/
def setCodec : Codec (String × String) := Codec.record <|
  Shape.of Prod.mk
    |>.and (.field "name" Codec.text fun x => x.1)
    |>.and (.field "value" Codec.text fun x => x.2)

/-- A statement that is not planned. -/
def codec : Codec Utility where
  read d s := (Codec.choice? d s).bind fun c =>
    match c.1 with
    | "Explain" => (c.held Explain.codec).map Utility.explain
    | "Set" => (c.held setCodec).map fun x => Utility.set x.1 x.2
    | _ => none
  write
    | .explain e => Codec.holding "Explain" Explain.codec e
    | .set name value => Codec.holding "Set" setCodec (name, value)

end Utility

/-- A statement. -/
def Statement.codec : Codec Statement where
  read d s := (Codec.choice? d s).bind fun c =>
    match c.1 with
    | "Select" => (c.held Query.codec).map Statement.select
    | "Utility" => (c.held Utility.codec).map Statement.utility
    | _ => none
  write
    | .select q => Codec.holding "Select" Query.codec q
    | .utility u => Codec.holding "Utility" Utility.codec u

/-- The two ways by name. -/
def Command.codec : Codec Command := Codec.names [("Select", .select), ("Utility", .utility)]

/-- A statement after analysis. -/
def PlannedStatement.codec : Codec PlannedStatement := Codec.record <|
  Shape.of PlannedStatement.mk
    |>.and (.field "command" Command.codec fun s => s.command)
    |>.and (.optional "query" Query.codec fun s => s.query)
    |>.and (.optional "utility" Utility.codec fun s => s.utility)

/-- A window. -/
def Window.codec : Codec Window := Codec.record <|
  Shape.of Window.mk
    |>.and (.field "plan_only_explain" Codec.bool fun w => w.planOnly)
    |>.and (.field "enabled" Codec.bool fun w => w.enabled)

/-! ## Settings and costs -/

/-- The values of the setting by name. -/
def Exclusion.codec : Codec Exclusion :=
  Codec.names [("On", .on), ("Off", .off), ("Partition", .partition)]

/-- The settings. -/
def Settings.codec : Codec Settings := Codec.record <|
  Shape.of Settings.mk
    |>.and (.field "enable_seqscan" Codec.bool fun s => s.enableSeqScan)
    |>.and (.field "enable_indexscan" Codec.bool fun s => s.enableIndexScan)
    |>.and (.field "enable_bitmapscan" Codec.bool fun s => s.enableBitmapScan)
    |>.and (.field "constraint_exclusion" Exclusion.codec fun s => s.exclusion)
    |>.and (.field "seq_page_cost" Codec.float fun s => s.seqPageCost)
    |>.and (.field "random_page_cost" Codec.float fun s => s.randomPageCost)
    |>.and (.field "cpu_tuple_cost" Codec.float fun s => s.cpuTupleCost)
    |>.and (.field "cpu_index_tuple_cost" Codec.float fun s => s.cpuIndexTupleCost)
    |>.and (.field "cpu_operator_cost" Codec.float fun s => s.cpuOperatorCost)

/-- The one switch of the configuration: whether hypothetical objects are
enabled. -/
def Codec.enabledSwitch : Codec Bool :=
  Codec.record (Shape.of id |>.and (.field "enabled" Codec.bool id))

/-- A cost. -/
def Cost.codec : Codec Cost := Codec.record <|
  Shape.of Cost.mk
    |>.and (.field "startup_cost" Codec.float fun c => c.startup)
    |>.and (.field "cpu_cost" Codec.float fun c => c.cpu)
    |>.and (.field "io_cost" Codec.float fun c => c.io)
    |>.and (.field "total_cost" Codec.float fun c => c.total)

namespace Operation

/-- What a sequential scan is costed by. -/
def seqShape : Shape (Nat × Float × Nat) (Nat × Float × Nat) :=
  Shape.of (fun p t q => (p, t, q))
    |>.and (.field "pages" Codec.count fun x => x.1)
    |>.and (.field "tuples" Codec.float fun x => x.2.1)
    |>.and (.field "quals" Codec.count fun x => x.2.2)

/-- The members an index scan is costed by, in order. -/
abbrev IndexMembers : Type := Nat × Float × Int × Nat × Float × Float × Nat × Nat

/-- What an index scan is costed by. -/
def indexShape : Shape IndexMembers IndexMembers :=
  Shape.of (fun p t h hp ht s iq fq => (p, t, h, hp, ht, s, iq, fq))
    |>.and (.field "index_pages" Codec.count fun x => x.1)
    |>.and (.field "index_tuples" Codec.float fun x => x.2.1)
    |>.and (.field "tree_height" Codec.level fun x => x.2.2.1)
    |>.and (.field "heap_pages" Codec.count fun x => x.2.2.2.1)
    |>.and (.field "heap_tuples" Codec.float fun x => x.2.2.2.2.1)
    |>.and (.field "selectivity" Codec.float fun x => x.2.2.2.2.2.1)
    |>.and (.field "index_quals" Codec.count fun x => x.2.2.2.2.2.2.1)
    |>.and (.field "filter_quals" Codec.count fun x => x.2.2.2.2.2.2.2)

/-- The members a bitmap scan is costed by, in order. -/
abbrev BitmapMembers : Type := Nat × Nat × Float × Float × Nat × Nat

/-- What a bitmap scan is costed by. -/
def bitmapShape : Shape BitmapMembers BitmapMembers :=
  Shape.of (fun p hp ht s l q => (p, hp, ht, s, l, q))
    |>.and (.field "index_pages" Codec.count fun x => x.1)
    |>.and (.field "heap_pages" Codec.count fun x => x.2.1)
    |>.and (.field "heap_tuples" Codec.float fun x => x.2.2.1)
    |>.and (.field "selectivity" Codec.float fun x => x.2.2.2.1)
    |>.and (.field "lossy_pages" Codec.count fun x => x.2.2.2.2.1)
    |>.and (.field "quals" Codec.count fun x => x.2.2.2.2.2)

/-- An operation to be costed. -/
def codec : Codec Operation where
  read d s := (Codec.choice? d s).bind fun c =>
    match c.1 with
    | "SeqScan" => (c.held (Codec.record seqShape)).map fun (p, t, q) => .seqScan p t q
    | "IndexScan" =>
      (c.held (Codec.record indexShape)).map fun (p, t, h, hp, ht, s, iq, fq) =>
        .indexScan p t h hp ht s iq fq
    | "BitmapHeapScan" =>
      (c.held (Codec.record bitmapShape)).map fun (p, hp, ht, s, l, q) =>
        .bitmapScan p hp ht s l q
    | _ => none
  write
    | .seqScan p t q => Codec.holding "SeqScan" (Codec.record seqShape) (p, t, q)
    | .indexScan p t h hp ht s iq fq =>
      Codec.holding "IndexScan" (Codec.record indexShape) (p, t, h, hp, ht, s, iq, fq)
    | .bitmapScan p hp ht s l q =>
      Codec.holding "BitmapHeapScan" (Codec.record bitmapShape) (p, hp, ht, s, l, q)

end Operation

/-- What was opened. -/
def Trace.codec : Codec Trace := Codec.record <|
  Shape.of Trace.mk
    |>.and (.field "relations" Codec.text.list fun t => t.relations)
    |>.and (.field "indexes" Oid.codec.list fun t => t.indexes)
    |>.and (.field "rows" Codec.float fun t => t.rows)

/-! ## Plans -/

/-- An entry of a range table. -/
def RangeEntry.codec : Codec RangeEntry := Codec.record <|
  Shape.of RangeEntry.mk
    |>.and (.field "relid" Oid.codec fun e => e.relid)
    |>.and (.field "relkind" RelKind.codec fun e => e.kind)
    |>.and (.field "inh" Codec.bool fun e => e.inherits)
    |>.and (.field "alias" Codec.text fun e => e.label)
    |>.and (.optional "hypo_partition" Oid.codec fun e => e.partition)
    |>.and (.optional "parent" RangeIndex.codec fun e => e.parent)

/-- A link of a range table. -/
def AppendLink.codec : Codec AppendLink := Codec.record <|
  Shape.of AppendLink.mk
    |>.and (.field "parent_rti" RangeIndex.codec fun l => l.parent)
    |>.and (.field "child_rti" RangeIndex.codec fun l => l.child)
    |>.and (.field "parent_relid" Oid.codec fun l => l.parentId)
    |>.and (.field "child_relid" Oid.codec fun l => l.childId)

namespace Path

/-- What all paths have. -/
def headShape : Shape PathHead PathHead :=
  Shape.of PathHead.mk
    |>.and (.field "rti" RangeIndex.codec fun h => h.entry)
    |>.and (.field "relid" Oid.codec fun h => h.relid)
    |>.and (.field "rows" Codec.float fun h => h.rows)
    |>.and (.field "startup_cost" Codec.float fun h => h.startup)
    |>.and (.field "total_cost" Codec.float fun h => h.total)
    |>.and (.field "filter" Restriction.codec.list fun h => h.filter)

/-- What a path through an index has. -/
def lookupCodec : Codec (Oid × List Restriction) := Codec.record <|
  Shape.of Prod.mk
    |>.and (.field "index_oid" Oid.codec fun x => x.1)
    |>.and (.field "index_quals" Restriction.codec.list fun x => x.2)

/-- The JSON form of a path of a kind. -/
def object (kind : Json) (h : PathHead) : Json :=
  .object (("kind", kind) :: headShape.names.zip (headShape.write h))

mutual

/-- Write the kind of a path. -/
def kindToJson : Path → Json
  | seqScan _ => .text "SeqScan"
  | indexScan _ oid conditions => Codec.holding "IndexScan" lookupCodec (oid, conditions)
  | bitmapScan _ oid conditions => Codec.holding "BitmapHeapScan" lookupCodec (oid, conditions)
  | append _ children =>
    .object [("Append", .object [("children", .array (toJsonAll children))])]
  | dummy _ => .text "Dummy"

/-- Write several paths. -/
def toJsonAll : List Path → List Json
  | [] => []
  | p :: ps => object (kindToJson p) p.head :: toJsonAll ps

end

/-- Write a path. -/
def toJson (p : Path) : Json := object (kindToJson p) p.head

/-- Read the kind of a path as a way to complete its head, given how the
paths under it are read. -/
def readKind (child : Codec Path) (c : Codec.Choice) : Option (PathHead → Path) :=
  match c.1 with
  | "SeqScan" => if c.isBare then some .seqScan else none
  | "IndexScan" => (c.held lookupCodec).map fun x h => indexScan h x.1 x.2
  | "BitmapHeapScan" => (c.held lookupCodec).map fun x h => bitmapScan h x.1 x.2
  | "Append" =>
    let below : Codec (List Path) :=
      Codec.record (Shape.of id |>.and (.field "children" child.list id))
    (c.held below).map fun children h => append h children
  | "Dummy" => if c.isBare then some .dummy else none
  | _ => none

/-- Paths nested in one another so many times at most. -/
def codecWithin : Nat → Codec Path
  | 0 => ⟨fun _ _ => none, toJson⟩
  | n + 1 =>
    let read (d : Nat) (s : Source) : Option Path := do
      let fields ← Codec.open? ("kind" :: headShape.names) d s
      let kind ← (fields.find? "kind").bind (Codec.choice? fields.depth)
      let complete ← readKind (codecWithin n) kind
      let head ← headShape.read fields
      some (complete head)
    ⟨read, toJson⟩

/-- A path; each takes at least one level of the text. -/
def codec : Codec Path := codecWithin Codec.topDepth

/-- The kind of a path by itself, which is read as one without cost. -/
def kindCodec : Codec Path where
  read d s := do
    let kind ← Codec.choice? d s
    let complete ← readKind codec kind
    some (complete ⟨⟨0⟩, Oid.invalid, 0.0, 0.0, 0.0, []⟩)
  write := kindToJson

end Path

/-- An index that might be used, as it is written: with what its access
method can do spelled out. -/
structure WrittenCandidate where
  /-- The index. -/
  candidate : Candidate
  /-- Whether it is said to keep an order. -/
  canOrder : Bool
  /-- Whether it is said to find single rows. -/
  hasGetTuple : Bool
  /-- Whether it is said to collect pages. -/
  hasGetBitmap : Bool
  /-- Whether it is said to answer ranges. -/
  supportsRange : Bool

namespace WrittenCandidate

/-- The members of a written index in order. -/
def ofMembers (oid relid : Oid) (method : AccessMethod) (pages : Nat) (tuples : Float)
    (height : Int) (keys : List (Option AttNum)) (included : List AttNum)
    (descending nullsFirst : List Bool) (unique : Bool) (predicate : List Restriction)
    (implied canOrder hasGetTuple hasGetBitmap supportsRange hypothetical : Bool) :
    WrittenCandidate :=
  ⟨⟨oid, relid, method, pages, tuples, height, keys, included, descending, nullsFirst, unique,
    predicate, implied, hypothetical⟩, canOrder, hasGetTuple, hasGetBitmap, supportsRange⟩

/-- An index that might be used. -/
def codec : Codec WrittenCandidate := Codec.record <|
  Shape.of ofMembers
    |>.and (.field "index_oid" Oid.codec fun x => x.candidate.oid)
    |>.and (.field "relid" Oid.codec fun x => x.candidate.relid)
    |>.and (.field "access_method" AccessMethod.codec fun x => x.candidate.method)
    |>.and (.field "pages" Codec.count fun x => x.candidate.pages)
    |>.and (.field "tuples" Codec.float fun x => x.candidate.tuples)
    |>.and (.field "tree_height" Codec.level fun x => x.candidate.height)
    |>.and (.field "index_keys" AttNum.codec.option.list fun x => x.candidate.keys)
    |>.and (.field "include" AttNum.codec.list fun x => x.candidate.included)
    |>.and (.field "reverse_sort" Codec.bool.list fun x => x.candidate.descending)
    |>.and (.field "nulls_first" Codec.bool.list fun x => x.candidate.nullsFirst)
    |>.and (.field "unique" Codec.bool fun x => x.candidate.unique)
    |>.and (.field "predicate" Restriction.codec.list fun x => x.candidate.predicate)
    |>.and (.field "pred_ok" Codec.bool fun x => x.candidate.implied)
    |>.and (.field "can_order" Codec.bool fun x => x.canOrder)
    |>.and (.field "has_gettuple" Codec.bool fun x => x.hasGetTuple)
    |>.and (.field "has_getbitmap" Codec.bool fun x => x.hasGetBitmap)
    |>.and (.field "supports_range" Codec.bool fun x => x.supportsRange)
    |>.and (.field "hypothetical" Codec.bool fun x => x.candidate.hypothetical)

end WrittenCandidate

end WhatIf
