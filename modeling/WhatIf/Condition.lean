import WhatIf.Relation
/-!
# Condition — tests on a column

A `WHERE` clause is a list of conjuncts, each a test on one column. A
conjunct names its column; once the relation is known it becomes a
`Restriction`, bound to the column's number. Tests follow SQL's three values:
`none` is unknown.
-/

namespace WhatIf

/-- The comparison operators. -/
inductive CompareOp where
  | eq
  | ne
  | lt
  | le
  | gt
  | ge
  deriving DecidableEq

namespace CompareOp

/-- The operator as SQL writes it. -/
def symbol : CompareOp → String
  | eq => "="
  | ne => "<>"
  | lt => "<"
  | le => "<="
  | gt => ">"
  | ge => ">="

/-- Whether the operator holds of two values in the given order. -/
def holds : CompareOp → Ordering → Bool
  | eq, o => o == .eq
  | ne, o => o != .eq
  | lt, o => o == .lt
  | le, o => o != .gt
  | gt, o => o == .gt
  | ge, o => o != .lt

end CompareOp

/-- A test on one column. -/
inductive ColumnTest where
  | compare (op : CompareOp) (value : Datum)
  | isIn (values : List Datum)
  | isNull
  | isNotNull
  deriving BEq

namespace ColumnTest

/-- The outcome of a test on a value. Membership in a list is certain once
an equal member is found, and otherwise unknown if some member does not
compare. -/
def evaluate : ColumnTest → Datum → Option Bool
  | isNull, v => some v.isNull
  | isNotNull, v => some !v.isNull
  | compare op rhs, v => (v.compare? rhs).map op.holds
  | isIn values, v =>
    if v.isNull then none
    else if values.any v.equals then some true
    else if values.any fun d => (v.compare? d).isNone then none
    else some false

/-- The test of a column as SQL writes it. -/
def sql (column : String) : ColumnTest → String
  | compare op value => "(" ++ column ++ " " ++ op.symbol ++ " " ++ value.sql ++ ")"
  | isIn values =>
    "(" ++ column ++ " = ANY (\x27\x7b" ++ Text.join "," (values.map Datum.sql) ++ "\x7d\x27))"
  | isNull => "(" ++ column ++ " IS NULL)"
  | isNotNull => "(" ++ column ++ " IS NOT NULL)"

end ColumnTest

/-- A test on the column of a given number. -/
structure Restriction where
  /-- The number of the column. -/
  attnum : AttNum
  /-- The name of the column. -/
  column : String
  /-- The test. -/
  test : ColumnTest
  deriving BEq

namespace Restriction

/-- The value the restriction pins its column to, if it does. -/
def equalityValue? (r : Restriction) : Option Datum :=
  match r.test with
  | .compare .eq value => if value.isNull then none else some value
  | _ => none

/-- The restriction as SQL writes it. -/
def sql (r : Restriction) : String := r.test.sql r.column

end Restriction

/-- A conjunct of a `WHERE` clause. -/
structure Qual where
  /-- The name of the column. -/
  column : String
  /-- The test. -/
  test : ColumnTest

namespace Qual

/-- The conjunct as SQL writes it. -/
def sql (q : Qual) : String := q.test.sql q.column

/-- The conjunct bound to its column in a relation. -/
def resolve? (q : Qual) (r : Relation) : Option Restriction :=
  (r.columnNamed? q.column).map fun c =>
    { attnum := c.attnum, column := c.name, test := q.test }

end Qual

end WhatIf
