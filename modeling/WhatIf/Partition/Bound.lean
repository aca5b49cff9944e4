import WhatIf.Constraint.Basic
/-!
# Partition — keys and bounds

A partitioned table has a strategy and key columns; each of its partitions
has a bound that says which key values it holds. A range bound includes its
lower and excludes its upper end. From a bound follow constraints that every
row of the partition satisfies, which is what lets the planner skip it.
-/

namespace WhatIf

/-- The ways to divide a table. -/
inductive Strategy where
  | range
  | list
  | hash
  deriving DecidableEq

/-- The name of a strategy. -/
def Strategy.name : Strategy → String
  | range => "range"
  | list => "list"
  | hash => "hash"

/-- The columns a table is partitioned by, and how. -/
structure PartitionKey where
  /-- The strategy. -/
  strategy : Strategy
  /-- The numbers of the key columns. -/
  attnums : List AttNum
  /-- Their types. -/
  types : List DataType
  /-- Their names. -/
  names : List String

namespace PartitionKey

/-- How many key columns there are. -/
def arity (k : PartitionKey) : Nat := k.attnums.length

/-- The key as `PARTITION BY` writes it. -/
def sql (k : PartitionKey) : String :=
  Text.upper k.strategy.name ++ " (" ++ Text.join ", " k.names ++ ")"

/-- The first key column. -/
def leading? (k : PartitionKey) : Option (AttNum × String) :=
  match k.attnums, k.names with
  | a :: _, n :: _ => some (a, n)
  | _, _ => none

end PartitionKey

/-- One column of the end of a range. -/
inductive RangeDatum where
  | minValue
  | value (d : Datum)
  | maxValue
  deriving BEq

namespace RangeDatum

/-- The order of two ends, `MINVALUE` first and `MAXVALUE` last. -/
def compare? : RangeDatum → RangeDatum → Option Ordering
  | minValue, minValue | maxValue, maxValue => some .eq
  | minValue, _ | _, maxValue => some .lt
  | maxValue, _ | _, minValue => some .gt
  | value a, value b => a.compare? b

/-- The end as SQL writes it. -/
def sql : RangeDatum → String
  | minValue => "MINVALUE"
  | value d => d.sql
  | maxValue => "MAXVALUE"

/-- Whether this is a value and not an end without limit. -/
def isValue : RangeDatum → Bool
  | value _ => true
  | _ => false

/-- The order of two ends column by column; of two that agree as far as the
shorter reaches, the shorter comes first. -/
def compareEnds? : List RangeDatum → List RangeDatum → Option Ordering
  | [], [] => some .eq
  | [], _ :: _ => some .lt
  | _ :: _, [] => some .gt
  | x :: xs, y :: ys =>
    match x.compare? y with
    | some .eq => compareEnds? xs ys
    | other => other

end RangeDatum

/-- Which rows a partition holds. -/
inductive Bound where
  /-- Rows from `lower` up to, but without, `upper`. -/
  | range (lower upper : List RangeDatum)
  /-- Rows whose key is one of the values. -/
  | list (values : List Datum)
  /-- Rows whose combined hash leaves a given remainder. -/
  | hash (modulus remainder : UInt32)
  /-- Rows that no other partition holds. -/
  | default

namespace Bound

/-- Whether this is the bound of a default partition. -/
def isDefault : Bound → Bool
  | default => true
  | _ => false

/-- The strategy a bound belongs to; a default bound belongs to any. -/
def strategy? : Bound → Option Strategy
  | range _ _ => some .range
  | list _ => some .list
  | hash _ _ => some .hash
  | default => none

/-- The constraints of a list bound on its column. -/
def listConstraint (column : AttNum × String) (values : List Datum) : Constraint :=
  let inList := ColumnTest.isIn (values.filter fun v => !v.isNull)
  if values.any Datum.isNull then .either column.1 column.2 [.isNull, inList]
  else .column ⟨column.1, column.2, inList⟩

/-- The constraint of the lower end of a range on its leading column. -/
def lowerConstraint (column : AttNum × String) : List RangeDatum → List Constraint
  | .value low :: _ => [.column ⟨column.1, column.2, .compare .ge low⟩]
  | _ => []

/-- The constraint of the upper end of a range on its leading column, which
is strict only if all further columns are `MINVALUE`. -/
def upperConstraint (column : AttNum × String) : List RangeDatum → List Constraint
  | .value high :: rest =>
    let op := if rest.all (· == .minValue) then CompareOp.lt else CompareOp.le
    [.column ⟨column.1, column.2, .compare op high⟩]
  | _ => []

/-- The constraints that every row of the partition satisfies under a key. A
default partition has none. A range over several columns constrains only the
leading one, and keeps every key column from being `NULL`. -/
def constraints (b : Bound) (key : PartitionKey) : List Constraint :=
  match b with
  | default => []
  | hash modulus remainder => [.hash key.attnums key.types modulus remainder]
  | list values =>
    match key.leading? with
    | none => []
    | some column => [listConstraint column values]
  | range lower upper =>
    match key.leading? with
    | none => []
    | some column =>
      (key.attnums.zip key.names).map (fun (a, n) => .column ⟨a, n, .isNotNull⟩) ++
        lowerConstraint column lower ++ upperConstraint column upper

/-- Whether a row with the given key values lies within the bound. A default
bound contains nothing of itself. -/
def contains (b : Bound) (row : List Datum) : Bool :=
  match b with
  | default => false
  | hash modulus remainder => 0 < modulus && Datum.rowHash row % modulus == remainder
  | list values =>
    match row with
    | [] => false
    | v :: _ => if v.isNull then values.any Datum.isNull else values.any v.equals
  | range lower upper =>
    if row.any Datum.isNull then false
    else
      let ends := row.map RangeDatum.value
      (match RangeDatum.compareEnds? ends lower with
        | some .gt | some .eq => true
        | _ => false) &&
        RangeDatum.compareEnds? ends upper == some .lt

/-- The values of a bound between parentheses. -/
def parenthesized (values : List String) : String := "(" ++ Text.join ", " values ++ ")"

/-- The bound as SQL writes it. -/
def sql : Bound → String
  | default => "DEFAULT"
  | hash modulus remainder =>
    "FOR VALUES WITH (modulus " ++ toString modulus.toNat ++ ", remainder " ++
      toString remainder.toNat ++ ")"
  | list values => "FOR VALUES IN " ++ parenthesized (values.map Datum.sql)
  | range lower upper =>
    "FOR VALUES FROM " ++ parenthesized (lower.map RangeDatum.sql) ++ " TO " ++
      parenthesized (upper.map RangeDatum.sql)

end Bound

/-- The partitions of a table, in bound order with the default one last. -/
structure PartitionDesc where
  /-- The identifiers of the partitions. -/
  oids : List Oid
  /-- Their bounds. -/
  bounds : List Bound
  /-- The position of the default partition. -/
  defaultIndex : Option Nat

namespace PartitionDesc

/-- The descriptor of a list of partitions. -/
def ofParts (parts : List (Oid × Bound)) : PartitionDesc where
  oids := parts.map Prod.fst
  bounds := parts.map Prod.snd
  defaultIndex := parts.findIdx? fun p => p.2.isDefault

/-- The position of the partition a row belongs to: the first whose bound
contains its key values, and else the default one. -/
def route? (d : PartitionDesc) (row : List Datum) : Option Nat :=
  (d.bounds.findIdx? fun b => b.contains row).or d.defaultIndex

end PartitionDesc

end WhatIf
