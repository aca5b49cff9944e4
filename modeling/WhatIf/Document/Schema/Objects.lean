import WhatIf.Document.Schema.Values
import WhatIf.Partition.Tree
import WhatIf.Index.Hypothetical
/-!
# Document — the JSON forms of indexes and partitions

One codec for each type, under the name of the type.
-/

namespace WhatIf

open Codec (Shape)

/-! ## Partitions -/

/-- The strategies by name. -/
def Strategy.codec : Codec Strategy :=
  Codec.names [("Range", .range), ("List", .list), ("Hash", .hash)]

/-- A key. -/
def PartitionKey.codec : Codec PartitionKey := Codec.record <|
  Shape.of PartitionKey.mk
    |>.and (.field "strategy" Strategy.codec fun k => k.strategy)
    |>.and (.field "attnums" AttNum.codec.list fun k => k.attnums)
    |>.and (.field "types" DataType.codec.list fun k => k.types)
    |>.and (.field "names" Codec.text.list fun k => k.names)

/-- An end of a range. -/
def RangeDatum.codec : Codec RangeDatum where
  read d s := (Codec.choice? d s).bind fun c =>
    match c.1 with
    | "MinValue" => if c.isBare then some .minValue else none
    | "Value" => (c.held Datum.codec).map RangeDatum.value
    | "MaxValue" => if c.isBare then some .maxValue else none
    | _ => none
  write
    | .minValue => .text "MinValue"
    | .value d => Codec.holding "Value" Datum.codec d
    | .maxValue => .text "MaxValue"

namespace Bound

/-- What a range bound holds. -/
def rangeCodec : Codec (List RangeDatum × List RangeDatum) := Codec.record <|
  Shape.of Prod.mk
    |>.and (.field "lower" RangeDatum.codec.list fun x => x.1)
    |>.and (.field "upper" RangeDatum.codec.list fun x => x.2)

/-- What a hash bound holds. -/
def hashCodec : Codec (UInt32 × UInt32) := Codec.record <|
  Shape.of Prod.mk
    |>.and (.field "modulus" Codec.word fun x => x.1)
    |>.and (.field "remainder" Codec.word fun x => x.2)

/-- A bound is a choice between its forms. -/
def codec : Codec Bound where
  read d s := (Codec.choice? d s).bind fun c =>
    match c.1 with
    | "Range" => (c.held rangeCodec).map fun x => Bound.range x.1 x.2
    | "List" => (c.held Datum.codec.list).map Bound.list
    | "Hash" => (c.held hashCodec).map fun x => Bound.hash x.1 x.2
    | "Default" => if c.isBare then some .default else none
    | _ => none
  write
    | .range lower upper => Codec.holding "Range" rangeCodec (lower, upper)
    | .list vs => Codec.holding "List" Datum.codec.list vs
    | .hash m r => Codec.holding "Hash" hashCodec (m, r)
    | .default => .text "Default"

end Bound

/-- A descriptor. -/
def PartitionDesc.codec : Codec PartitionDesc := Codec.record <|
  Shape.of PartitionDesc.mk
    |>.and (.field "oids" Oid.codec.list fun d => d.oids)
    |>.and (.field "bounds" Bound.codec.list fun d => d.bounds)
    |>.and (.optional "default_index" Codec.count fun d => d.defaultIndex)

/-- How a table is partitioned, given how its partitions are read and
written. -/
def Layout.codecOver (partition : Codec Partition) : Codec Layout := Codec.record <|
  Shape.of Layout.mk
    |>.and (.field "strategy" Strategy.codec fun l => l.strategy)
    |>.and (.field "key" Codec.text.list fun l => l.key)
    |>.and (.field "partitions" partition.list fun l => l.partitions)

namespace Partition

/-- The JSON form of a partition, given that of how it is partitioned. -/
def object (name : String) (bound : Bound) (below : Json) : Json :=
  .object [("name", .text name), ("bound", Bound.codec.write bound), ("subpartitioning", below)]

mutual

/-- Write a partition. -/
def toJson : Partition → Json
  | leaf name bound => object name bound .null
  | split name bound strategy key partitions =>
    object name bound (.object [("strategy", Strategy.codec.write strategy),
      ("key", Codec.text.list.write key), ("partitions", .array (toJsonAll partitions))])

/-- Write several partitions. -/
def toJsonAll : List Partition → List Json
  | [] => []
  | p :: ps => toJson p :: toJsonAll ps

end

/-- Partitions nested in one another so many times at most. -/
def codecWithin : Nat → Codec Partition
  | 0 => ⟨fun _ _ => none, toJson⟩
  | n + 1 =>
    let shape : Shape Partition Partition :=
      Shape.of Partition.make
        |>.and (.field "name" Codec.text Partition.name)
        |>.and (.field "bound" Bound.codec Partition.bound)
        |>.and (.optional "subpartitioning" (Layout.codecOver (codecWithin n))
          Partition.sublayout?)
    ⟨(Codec.record shape).read, toJson⟩

end Partition

/-- A partition; each takes at least one level of the text. -/
def Partition.codec : Codec Partition := Partition.codecWithin Codec.topDepth

/-- How a table is partitioned. -/
def Layout.codec : Codec Layout := Layout.codecOver Partition.codec

/-- A node of a partition tree. -/
def Node.codec : Codec Node := Codec.record <|
  Shape.of Node.mk
    |>.and (.field "oid" Oid.codec fun n => n.oid)
    |>.and (.field "relid" Oid.codec fun n => n.relid)
    |>.and (.field "name" Codec.text fun n => n.name)
    |>.and (.optional "parent" Oid.codec fun n => n.parent)
    |>.and (.optional "bound" Bound.codec fun n => n.bound)
    |>.and (.optional "key" PartitionKey.codec fun n => n.key)
    |>.and (.field "children" Oid.codec.list fun n => n.children)
    |>.and (.field "share" Codec.float fun n => n.share)
    |>.and (.field "level" Codec.count fun n => n.level)

/-! ## Indexes -/

/-- A size. -/
def IndexSize.codec : Codec IndexSize := Codec.record <|
  Shape.of IndexSize.mk
    |>.and (.field "pages" Codec.count fun s => s.pages)
    |>.and (.field "tuples" Codec.float fun s => s.tuples)
    |>.and (.field "tree_height" Codec.level fun s => s.height)

/-- What a key is computed from. -/
def IndexKey.codec : Codec IndexKey where
  read d s := (Codec.choice? d s).bind fun c =>
    match c.1 with
    | "Column" => (c.held Codec.text).map IndexKey.column
    | "Expression" => (c.held Codec.text).map IndexKey.expression
    | _ => none
  write
    | .column name => Codec.holding "Column" Codec.text name
    | .expression text => Codec.holding "Expression" Codec.text text

/-- A described key. -/
def IndexKeySpec.codec : Codec IndexKeySpec := Codec.record <|
  Shape.of IndexKeySpec.mk
    |>.and (.field "key" IndexKey.codec fun k => k.key)
    |>.and (.field "descending" Codec.bool fun k => k.descending)
    |>.and (.optional "nulls_first" Codec.bool fun k => k.nullsFirst)

/-- A described index. -/
def IndexSpec.codec : Codec IndexSpec := Codec.record <|
  Shape.of IndexSpec.mk
    |>.and (.field "access_method" AccessMethod.codec fun i => i.method)
    |>.and (.field "keys" IndexKeySpec.codec.list fun i => i.keys)
    |>.and (.field "include" Codec.text.list fun i => i.included)
    |>.and (.field "unique" Codec.bool fun i => i.unique)
    |>.and (.field "predicate" Qual.codec.list fun i => i.predicate)

/-- A key of a hypothetical index. -/
def IndexColumn.codec : Codec IndexColumn := Codec.record <|
  Shape.of IndexColumn.mk
    |>.and (.optional "attnum" AttNum.codec fun c => c.attnum)
    |>.and (.field "label" Codec.text fun c => c.label)
    |>.and (.field "data_type" DataType.codec fun c => c.type)
    |>.and (.field "descending" Codec.bool fun c => c.descending)
    |>.and (.field "nulls_first" Codec.bool fun c => c.nullsFirst)

/-- A hypothetical index. -/
def HypotheticalIndex.codec : Codec HypotheticalIndex := Codec.record <|
  Shape.of HypotheticalIndex.mk
    |>.and (.field "oid" Oid.codec fun i => i.oid)
    |>.and (.field "relid" Oid.codec fun i => i.relid)
    |>.and (.field "relation_name" Codec.text fun i => i.relation)
    |>.and (.field "name" Codec.text fun i => i.name)
    |>.and (.field "access_method" AccessMethod.codec fun i => i.method)
    |>.and (.field "columns" IndexColumn.codec.list fun i => i.columns)
    |>.and (.field "include" (AttNum.codec.pair Codec.text).list fun i => i.included)
    |>.and (.field "unique" Codec.bool fun i => i.unique)
    |>.and (.field "predicate" Restriction.codec.list fun i => i.predicate)
    |>.and (.field "size" IndexSize.codec fun i => i.size)

end WhatIf
