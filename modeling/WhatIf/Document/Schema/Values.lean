import WhatIf.Document.Codec
import WhatIf.Constraint.Basic
/-!
# Document — the JSON forms of values, relations and conditions

One codec for each type, under the name of the type.
-/

namespace WhatIf

open Codec (Shape)

/-- An object identifier is a 32-bit number. -/
def Oid.codec : Codec Oid :=
  (Codec.nat 32).imap (fun n => ⟨UInt32.ofNat n⟩) fun o => o.word.toNat

/-- A column number is a signed 16-bit number. -/
def AttNum.codec : Codec AttNum := (Codec.signed 16).imap AttNum.mk fun a => a.number

/-- A position in a range table is a count. -/
def RangeIndex.codec : Codec RangeIndex := Codec.count.imap RangeIndex.mk fun i => i.position

/-- A word of 32 bits. -/
def Codec.word : Codec UInt32 := (Codec.nat 32).imap UInt32.ofNat UInt32.toNat

/-- A level of a tree. -/
def Codec.level : Codec Int := Codec.signed 32

/-- The types by name. -/
def DataType.codec : Codec DataType :=
  Codec.names [("Bool", .bool), ("Int4", .int4), ("Int8", .int8), ("Float8", .float8),
    ("Text", .text)]

/-- An integer of 64 bits. -/
def Codec.int64 : Codec Int64 := (Codec.signed 64).imap Int64.ofInt Int64.toInt

/-- A value is a choice named for its type. -/
def Datum.codec : Codec Datum where
  read d s := (Codec.choice? d s).bind fun c =>
    match c.1 with
    | "Null" => if c.isBare then some .null else none
    | "Bool" => (c.held Codec.bool).map Datum.bool
    | "Int" => (c.held Codec.int64).map Datum.int
    | "Float" => (c.held Codec.float).map Datum.float
    | "Text" => (c.held Codec.text).map Datum.text
    | _ => none
  write
    | .null => .text "Null"
    | .bool b => Codec.holding "Bool" Codec.bool b
    | .int i => Codec.holding "Int" Codec.int64 i
    | .float x => Codec.holding "Float" Codec.float x
    | .text s => Codec.holding "Text" Codec.text s

/-! ## Relations -/

/-- The kinds by name. -/
def RelKind.codec : Codec RelKind :=
  Codec.names [("Relation", .relation), ("MatView", .matView),
    ("PartitionedTable", .partitionedTable), ("View", .view), ("Index", .index),
    ("Foreign", .foreign)]

/-- The persistences by name. -/
def Persistence.codec : Codec Persistence :=
  Codec.names [("Permanent", .permanent), ("Unlogged", .unlogged), ("Temporary", .temporary)]

/-- The access methods by name. -/
def AccessMethod.codec : Codec AccessMethod :=
  Codec.names [("BTree", .btree), ("Hash", .hash), ("Brin", .brin)]

/-- A column. -/
def Column.codec : Codec Column := Codec.record <|
  Shape.of Column.mk
    |>.and (.field "attnum" AttNum.codec fun c => c.attnum)
    |>.and (.field "name" Codec.text fun c => c.name)
    |>.and (.field "data_type" DataType.codec fun c => c.type)
    |>.and (.field "not_null" Codec.bool fun c => c.notNull)
    |>.and (.optional "n_distinct" Codec.float fun c => c.distinct)

/-- A relation. -/
def Relation.codec : Codec Relation := Codec.record <|
  Shape.of Relation.mk
    |>.and (.field "oid" Oid.codec fun r => r.oid)
    |>.and (.field "name" Codec.text fun r => r.name)
    |>.and (.field "kind" RelKind.codec fun r => r.kind)
    |>.and (.field "persistence" Persistence.codec fun r => r.persistence)
    |>.and (.field "tablespace" Oid.codec fun r => r.tablespace)
    |>.and (.field "columns" Column.codec.list fun r => r.columns)
    |>.and (.field "pages" Codec.count fun r => r.pages)
    |>.and (.field "tuples" Codec.float fun r => r.tuples)

/-- An index. -/
def PhysicalIndex.codec : Codec PhysicalIndex := Codec.record <|
  Shape.of PhysicalIndex.mk
    |>.and (.field "oid" Oid.codec fun i => i.oid)
    |>.and (.field "name" Codec.text fun i => i.name)
    |>.and (.field "relid" Oid.codec fun i => i.relid)
    |>.and (.field "access_method" AccessMethod.codec fun i => i.method)
    |>.and (.field "key_columns" AttNum.codec.list fun i => i.keys)
    |>.and (.field "unique" Codec.bool fun i => i.unique)
    |>.and (.field "pages" Codec.count fun i => i.pages)
    |>.and (.field "tuples" Codec.float fun i => i.tuples)
    |>.and (.field "tree_height" Codec.level fun i => i.height)

/-! ## Conditions -/

/-- The comparisons by name. -/
def CompareOp.codec : Codec CompareOp :=
  Codec.names [("Eq", .eq), ("Ne", .ne), ("Lt", .lt), ("Le", .le), ("Gt", .gt), ("Ge", .ge)]

/-- A comparison holds its operator and its value. -/
def ColumnTest.codec : Codec ColumnTest where
  read d s := (Codec.choice? d s).bind fun c =>
    match c.1 with
    | "Cmp" =>
      (c.held (CompareOp.codec.pair Datum.codec)).map fun x => ColumnTest.compare x.1 x.2
    | "In" => (c.held Datum.codec.list).map ColumnTest.isIn
    | "IsNull" => if c.isBare then some .isNull else none
    | "IsNotNull" => if c.isBare then some .isNotNull else none
    | _ => none
  write
    | .compare op v => Codec.holding "Cmp" (CompareOp.codec.pair Datum.codec) (op, v)
    | .isIn vs => Codec.holding "In" Datum.codec.list vs
    | .isNull => .text "IsNull"
    | .isNotNull => .text "IsNotNull"

/-- A conjunct. -/
def Qual.codec : Codec Qual := Codec.record <|
  Shape.of Qual.mk
    |>.and (.field "column" Codec.text fun q => q.column)
    |>.and (.field "test" ColumnTest.codec fun q => q.test)

/-- A restriction. -/
def Restriction.codec : Codec Restriction := Codec.record <|
  Shape.of Restriction.mk
    |>.and (.field "attnum" AttNum.codec fun r => r.attnum)
    |>.and (.field "column" Codec.text fun r => r.column)
    |>.and (.field "test" ColumnTest.codec fun r => r.test)

namespace Constraint

/-- What an alternative between tests holds. -/
def eitherCodec : Codec (AttNum × String × List ColumnTest) := Codec.record <|
  Shape.of (fun a c ts => (a, c, ts))
    |>.and (.field "attnum" AttNum.codec fun x => x.1)
    |>.and (.field "column" Codec.text fun x => x.2.1)
    |>.and (.field "alternatives" ColumnTest.codec.list fun x => x.2.2)

/-- What a constraint on a hash holds. -/
def hashCodec : Codec (List AttNum × List DataType × UInt32 × UInt32) := Codec.record <|
  Shape.of (fun a t m r => (a, t, m, r))
    |>.and (.field "attnums" AttNum.codec.list fun x => x.1)
    |>.and (.field "types" DataType.codec.list fun x => x.2.1)
    |>.and (.field "modulus" Codec.word fun x => x.2.2.1)
    |>.and (.field "remainder" Codec.word fun x => x.2.2.2)

/-- A constraint is a choice between its forms. -/
def codec : Codec Constraint where
  read d s := (Codec.choice? d s).bind fun c =>
    match c.1 with
    | "Column" => (c.held Restriction.codec).map Constraint.column
    | "Either" => (c.held eitherCodec).map fun x => Constraint.either x.1 x.2.1 x.2.2
    | "Hash" => (c.held hashCodec).map fun x => Constraint.hash x.1 x.2.1 x.2.2.1 x.2.2.2
    | _ => none
  write
    | .column r => Codec.holding "Column" Restriction.codec r
    | .either a name ts => Codec.holding "Either" eitherCodec (a, name, ts)
    | .hash a t m r => Codec.holding "Hash" hashCodec (a, t, m, r)

end Constraint

end WhatIf
