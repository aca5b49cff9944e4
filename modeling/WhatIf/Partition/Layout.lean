import WhatIf.Partition.Bound
/-!
# Partition — layouts

A layout says how to partition a table: by which columns, into which
partitions, each of which may be partitioned in turn. The builders add
partitions at the end.
-/

namespace WhatIf

/-- A partition of a layout, divided further or not. -/
inductive Partition where
  /-- A partition that holds rows. -/
  | leaf (name : String) (bound : Bound)
  /-- A partition that is itself partitioned. -/
  | split (name : String) (bound : Bound) (strategy : Strategy) (key : List String)
      (partitions : List Partition)

/-- How to partition a table. -/
structure Layout where
  /-- The strategy. -/
  strategy : Strategy
  /-- The names of the key columns. -/
  key : List String
  /-- The partitions. -/
  partitions : List Partition

namespace Partition

/-- The name of a partition. -/
def name : Partition → String
  | leaf n _ => n
  | split n _ _ _ _ => n

/-- The bound of a partition. -/
def bound : Partition → Bound
  | leaf _ b => b
  | split _ b _ _ _ => b

/-- How a partition is divided further, if it is. -/
def sublayout? : Partition → Option Layout
  | leaf _ _ => none
  | split _ _ s k ps => some ⟨s, k, ps⟩

/-- A partition divided further by a layout, or not. -/
def make (name : String) (bound : Bound) : Option Layout → Partition
  | none => leaf name bound
  | some l => split name bound l.strategy l.key l.partitions

/-- The range of one column from `low` to `high`. -/
def ofRange (name : String) (low high : RangeDatum) : Partition :=
  leaf name (.range [low] [high])

/-- The partition of the listed values. -/
def ofValues (name : String) (values : List Datum) : Partition := leaf name (.list values)

/-- The partition of one remainder. -/
def ofRemainder (name : String) (modulus remainder : UInt32) : Partition :=
  leaf name (.hash modulus remainder)

/-- The default partition. -/
def ofDefault (name : String) : Partition := leaf name .default

end Partition

namespace Layout

/-- A layout without partitions. -/
def blank (strategy : Strategy) (key : List String) : Layout := ⟨strategy, key, []⟩

/-- The layout with one more partition. -/
def add (l : Layout) (p : Partition) : Layout :=
  { l with partitions := l.partitions ++ [p] }

/-- The layout with one more hash partition for every remainder of the
modulus, named after the stem and the remainder. -/
def withRemainders (l : Layout) (stem : String) (modulus : UInt32) : Layout :=
  let added := (List.range modulus.toNat).map fun r =>
    Partition.ofRemainder (stem ++ "_" ++ toString r) modulus r.toUInt32
  { l with partitions := l.partitions ++ added }

end Layout

end WhatIf
