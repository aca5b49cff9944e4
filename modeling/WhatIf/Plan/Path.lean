import WhatIf.Condition
/-!
# Plan — access paths

A path is one way to read a relation, with its estimated cost. An append
path reads its children one after the other; a dummy path reads nothing,
because the relation is known to have no matching rows.
-/

namespace WhatIf

/-- What all paths have. -/
structure PathHead where
  /-- The range table entry that is read. -/
  entry : RangeIndex
  /-- The physical relation that is read. -/
  relid : Oid
  /-- How many rows are expected. -/
  rows : Float
  /-- The cost before the first row. -/
  startup : Float
  /-- The cost of all rows. -/
  total : Float
  /-- The restrictions checked on each row fetched. -/
  filter : List Restriction

/-- A way to read a relation. -/
inductive Path where
  /-- Read the heap in sequence. -/
  | seqScan (head : PathHead)
  /-- Look rows up in an index. -/
  | indexScan (head : PathHead) (index : Oid) (conditions : List Restriction)
  /-- Collect pages from an index and read them in heap order. -/
  | bitmapScan (head : PathHead) (index : Oid) (conditions : List Restriction)
  /-- Read the children one after the other. -/
  | append (head : PathHead) (children : List Path)
  /-- Read nothing. -/
  | dummy (head : PathHead)

namespace Path

/-- What the path has in common with all paths. -/
def head : Path → PathHead
  | seqScan h | indexScan h _ _ | bitmapScan h _ _ | append h _ | dummy h => h

/-- An infinite cost. -/
def infinity : Float := 1.0 / 0.0

/-- The dummy path of an entry. -/
def ofNothing (entry : RangeIndex) (relid : Oid) : Path :=
  dummy ⟨entry, relid, 0.0, infinity, infinity, []⟩

/-- Whether the path reads nothing. -/
def isDummy : Path → Bool
  | dummy _ => true
  | _ => false

/-- The index the path itself uses. -/
def index? : Path → Option Oid
  | indexScan _ i _ | bitmapScan _ i _ => some i
  | _ => none

mutual

/-- The indexes used by the path and everything below it, in order. -/
def indexes : Path → List Oid
  | append _ children => indexesOfAll children
  | indexScan _ i _ => [i]
  | bitmapScan _ i _ => [i]
  | seqScan _ => []
  | dummy _ => []

/-- The indexes used by each of several paths, in order. -/
def indexesOfAll : List Path → List Oid
  | [] => []
  | p :: ps => indexes p ++ indexesOfAll ps

end

/-- The cheapest of several paths; of two equally cheap ones the first. -/
def cheapest? (paths : List Path) : Option Path :=
  paths.foldl (fun best p =>
    match best with
    | some b => if b.head.total ≤ p.head.total then some b else some p
    | none => some p) none

end Path

end WhatIf
