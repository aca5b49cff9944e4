import WhatIf.Brief.Values
import WhatIf.Partition.Tree
import WhatIf.Index.Hypothetical
/-!
# Brief — indexes and partitions

A range has its ends under `from` and `to`, a list bound is its values and a
hash bound an array of modulus and remainder. The answers about hypothetical
objects add what is derived from them: display texts, sizes in bytes and the
statement that would build an index.
-/

namespace WhatIf

/-! ## Partitions -/

instance : OfBrief Strategy where
  read q := q.choice .range [("range", .range), ("list", .list), ("hash", .hash)]

instance : ToBrief Strategy := ⟨fun s => .text s.name⟩

instance : OfBrief RangeDatum where
  read q := if q.has "minvalue" then .minValue else if q.has "maxvalue" then .maxValue
    else .value (OfBrief.read q)

instance : ToBrief RangeDatum where
  write
    | .minValue => .object [("minvalue", .bool true)]
    | .maxValue => .object [("maxvalue", .bool true)]
    | .value d => brief d

instance : OfBrief Bound where
  read q :=
    let r := q.field "range"
    let h := q.field "hash"
    if q.has "range" then .range (r.get "from") (r.get "to")
    else if q.has "list" then .list (q.get "list")
    else if q.has "hash" then .hash (h.nth 0) (h.nth 1)
    else .default

instance : ToBrief Bound where
  write
    | .default => .text "default"
    | .range lower upper => .object [("range", .object [("from", brief lower), ("to", brief upper)])]
    | .list vs => .object [("list", brief vs)]
    | .hash m r => .object [("hash", brief (m, r))]

instance : OfBrief PartitionKey where
  read q := ⟨q.get "strategy", q.get "attnums", q.get "types", q.get "names"⟩

instance : ToBrief PartitionKey where
  write k := .object [("strategy", brief k.strategy), ("attnums", brief k.attnums),
    ("types", brief k.types), ("names", brief k.names), ("arity", brief k.arity),
    ("display", brief k.sql)]

instance : OfBrief PartitionDesc where
  read q := .ofParts (q.each fun p => (p.nth 0, p.nth 1))

instance : ToBrief PartitionDesc where
  write d := .object [("oids", brief d.oids), ("bounds", brief d.bounds),
    ("default_index", brief d.defaultIndex), ("len", brief d.oids.length),
    ("is_empty", brief d.oids.isEmpty)]

/-- Read a layout whose partitions are divided further so many times at
most. -/
def Layout.readWithin : Nat → Request → Layout
  | 0, _ => .blank .range []
  | n + 1, q =>
    let below (p : Request) : Option Layout :=
      if p.has "sub" then some (readWithin n (p.field "sub")) else none
    ⟨q.get "strategy", q.get "key", (q.field "partitions").each fun p =>
      Partition.make (p.get "name") (p.get "bound") (below p)⟩

instance : OfBrief Layout := ⟨fun q => Layout.readWithin (q.body.depth + 1) q⟩

/-- The object of a layout whose partitions have been written. -/
def Layout.briefObject (strategy : Strategy) (key : List String) (partitions : List Json) : Json :=
  .object [("strategy", brief strategy), ("key", brief key), ("partitions", .array partitions)]

namespace Partition

/-- The object of a partition, given that of how it is divided further. -/
def briefObject (name : String) (bound : Bound) (below : Json) : Json :=
  .object [("name", brief name), ("bound", brief bound), ("sub", below)]

mutual

/-- Write a partition. -/
def toBrief : Partition → Json
  | leaf name bound => briefObject name bound .null
  | split name bound strategy key ps =>
    briefObject name bound (Layout.briefObject strategy key (toBriefAll ps))

/-- Write several partitions. -/
def toBriefAll : List Partition → List Json
  | [] => []
  | p :: ps => toBrief p :: toBriefAll ps

end

end Partition

instance : ToBrief Layout :=
  ⟨fun l => Layout.briefObject l.strategy l.key (Partition.toBriefAll l.partitions)⟩

instance : ToBrief Node where
  write n := .object [("oid", brief n.oid), ("relid", brief n.relid), ("name", brief n.name),
    ("parent", brief n.parent), ("bound", brief n.bound),
    ("bound_sql", brief (n.bound.map Bound.sql)), ("key", brief n.key),
    ("children", brief n.children), ("share", brief n.share), ("level", brief n.level),
    ("root", brief n.isRoot), ("partitioned", brief n.isPartitioned)]

/-! ## Indexes -/

instance : OfBrief IndexKeySpec where
  read q := ⟨if q.has "expr" then .expression (q.get "expr") else .column (q.get "col"),
    q.get "desc", q.get "nulls_first"⟩

instance : ToBrief IndexKeySpec where
  write k :=
    let what := match k.key with
      | .column name => ("col", brief name)
      | .expression text => ("expr", brief text)
    .object [what, ("desc", brief k.descending), ("nulls_first", brief k.nullsFirst)]

instance : OfBrief IndexSpec where
  read q := ⟨q.get "am", q.get "keys", q.get "include", q.get "unique", q.get "where"⟩

/-- A conjunct with its text. -/
def Qual.withSql (q : Qual) : Json :=
  .object [("col", brief q.column), ("test", brief q.test), ("sql", brief q.sql)]

instance : ToBrief IndexSpec where
  write s := .object [("am", brief s.method), ("keys", brief s.keys),
    ("include", brief s.included), ("unique", brief s.unique),
    ("where", .array (s.predicate.map Qual.withSql))]

instance : ToBrief IndexColumn where
  write c := .object [("attnum", brief c.attnum), ("label", brief c.label), ("type", brief c.type),
    ("desc", brief c.descending), ("nulls_first", brief c.nullsFirst)]

/-- What an index says of its size. -/
def IndexSize.briefMembers (s : IndexSize) : List (String × Json) :=
  [("pages", brief s.pages), ("tuples", brief s.tuples), ("height", brief s.height),
    ("bytes", brief s.bytes)]

instance : ToBrief IndexSize := ⟨fun s => .object s.briefMembers⟩

instance : ToBrief HypotheticalIndex where
  write i := .object ([("oid", brief i.oid), ("relid", brief i.relid), ("rel", brief i.relation),
    ("name", brief i.name), ("am", brief i.method), ("columns", brief i.columns),
    ("include", brief i.included), ("unique", brief i.unique), ("where", brief i.predicate),
    ("partial", brief i.isPartial), ("definition", brief i.definition)] ++ i.size.briefMembers)

end WhatIf
