import WhatIf.Brief.Request
import WhatIf.Constraint.Basic
/-!
# Brief — values, relations and conditions

An integer, a truth value, a text and `null` stand for themselves, and a
double is an object that holds it. A test is an array of its operator and its
operands; a conjunct has its column in front, and a restriction the number of
the column before that.
-/

namespace WhatIf

/-! ## Values -/

instance : OfBrief Datum where
  read q := match q.body with
    | .bool b => .bool b
    | .number _ => .int (Int64.ofInt (OfBrief.read q))
    | .text _ => .text (OfBrief.read q)
    | .object _ => .float (q.get "f")
    | _ => .null

instance : ToBrief Datum where
  write
    | .null => .null
    | .bool b => .bool b
    | .int i => .int i.toInt
    | .float x => .object [("f", brief x)]
    | .text s => .text s

/-- The types with their short names. -/
def DataType.briefNames : List (String × DataType) :=
  [("Text", .text), ("Bool", .bool), ("Int4", .int4), ("Int8", .int8), ("Float8", .float8)]

/-- The short name of a value that has one. -/
def nameIn {α : Type} [BEq α] (table : List (String × α)) (a : α) : String :=
  ((table.find? fun row => row.2 == a).map fun row => row.1).getD ""

instance : OfBrief DataType := ⟨fun q => q.choice .text DataType.briefNames⟩

instance : ToBrief DataType := ⟨fun t => .text (nameIn DataType.briefNames t)⟩

/-! ## Relations -/

instance : OfBrief AccessMethod where
  read q := q.choice .btree [("btree", .btree), ("hash", .hash), ("brin", .brin)]

instance : ToBrief AccessMethod := ⟨fun m => .text m.name⟩

/-- The kinds with their names. -/
def RelKind.briefNames : List (String × RelKind) :=
  [("Relation", .relation), ("MatView", .matView), ("PartitionedTable", .partitionedTable),
    ("View", .view), ("Index", .index), ("Foreign", .foreign)]

instance : OfBrief RelKind := ⟨fun q => q.choice .relation RelKind.briefNames⟩

instance : ToBrief RelKind := ⟨fun k => .text (nameIn RelKind.briefNames k)⟩

/-- The persistences with their names. -/
def Persistence.briefNames : List (String × Persistence) :=
  [("Permanent", .permanent), ("Unlogged", .unlogged), ("Temporary", .temporary)]

instance : OfBrief Persistence := ⟨fun q => q.choice .permanent Persistence.briefNames⟩

instance : ToBrief Persistence := ⟨fun p => .text (nameIn Persistence.briefNames p)⟩

instance : OfBrief Column where
  read q := ⟨q.get "attnum", q.get "name", q.get "type", q.get "not_null", q.get "n_distinct"⟩

instance : ToBrief Column where
  write c := .object [("attnum", brief c.attnum), ("name", brief c.name), ("type", brief c.type),
    ("not_null", brief c.notNull), ("n_distinct", brief c.distinct)]

instance : OfBrief Relation where
  read q := ⟨q.get "oid", q.get "name", q.get "kind", q.get "persistence", Oid.invalid,
    q.get "columns", q.get "pages", q.get "tuples"⟩

instance : ToBrief Relation where
  write r := .object [("oid", brief r.oid), ("name", brief r.name), ("kind", brief r.kind),
    ("persistence", brief r.persistence), ("tablespace", brief r.tablespace),
    ("columns", brief r.columns), ("pages", brief r.pages), ("tuples", brief r.tuples),
    ("width", brief r.width)]

instance : ToBrief PhysicalIndex where
  write i := .object [("oid", brief i.oid), ("name", brief i.name), ("relid", brief i.relid),
    ("am", brief i.method), ("keys", brief i.keys), ("unique", brief i.unique),
    ("pages", brief i.pages), ("tuples", brief i.tuples), ("height", brief i.height)]

/-! ## Conditions -/

instance : OfBrief CompareOp where
  read q := q.choice .eq [("=", .eq), ("<>", .ne), ("<", .lt), ("<=", .le), (">", .gt), (">=", .ge)]

instance : OfBrief ColumnTest where
  read q := match (q.nth 0 : String) with
    | "in" => .isIn (q.nth 1)
    | "isnull" => .isNull
    | "notnull" => .isNotNull
    | _ => .compare (q.nth 0) (q.nth 1)

/-- The operator and the operands of a test. -/
def ColumnTest.briefItems : ColumnTest → List Json
  | compare op v => [.text op.symbol, brief v]
  | isIn vs => [.text "in", brief vs]
  | isNull => [.text "isnull"]
  | isNotNull => [.text "notnull"]

instance : ToBrief ColumnTest := ⟨fun t => .array t.briefItems⟩

instance : OfBrief Qual := ⟨fun q => ⟨q.nth 0, OfBrief.read (q.after 1)⟩⟩

instance : OfBrief Restriction := ⟨fun q => ⟨q.nth 0, q.nth 1, OfBrief.read (q.after 2)⟩⟩

instance : ToBrief Restriction :=
  ⟨fun r => .array (brief r.attnum :: brief r.column :: r.test.briefItems)⟩

instance : OfBrief Constraint where
  read q :=
    let e := q.field "either"
    let h := q.field "hash"
    if q.has "col" then .column (q.get "col")
    else if q.has "either" then .either (e.get "attnum") (e.get "column") (e.get "alts")
    else .hash (h.get "attnums") (h.get "types") (h.get "modulus") (h.get "remainder")

instance : ToBrief Constraint where
  write
    | .column r => .object [("col", brief r)]
    | .either a c ts =>
      .object [("either", .object [("attnum", brief a), ("column", brief c), ("alts", brief ts)])]
    | .hash a t m r =>
      .object [("hash", .object [("attnums", brief a), ("types", brief t), ("modulus", brief m),
        ("remainder", brief r)])]

end WhatIf
