import WhatIf.Settings
/-!
# Cost — how much work a scan is and how many rows it meets

A scan's cost has a part that falls due before the first row, a part for the
processor and a part for reading pages. How many rows meet a condition is
estimated from the number of distinct values of a column where that is
known, and from fixed fractions otherwise; conjuncts count as independent.
-/

namespace WhatIf

open Decimal (ofCount greater lesser clamp)

/-- An estimate of work. -/
structure Cost where
  /-- What falls due before the first row. -/
  startup : Float
  /-- Processing. -/
  cpu : Float
  /-- Reading. -/
  io : Float
  /-- All of it. -/
  total : Float

namespace Cost

/-- The estimate with the given parts. -/
def of (startup cpu io : Float) : Cost := ⟨startup, cpu, io, startup + cpu + io⟩

/-- No work. -/
def zero : Cost := of 0.0 0.0 0.0

/-- The work of two scans. -/
def add (a b : Cost) : Cost := of (a.startup + b.startup) (a.cpu + b.cpu) (a.io + b.io)

/-- What is added to a scan of an unwelcome kind. -/
def penalty : Float := 10000000000.0

/-- The estimate of an unwelcome scan, which wins only where there is no
other. -/
def disabled (c : Cost) : Cost := of (c.startup + penalty) c.cpu c.io

end Cost

/-- The scans whose cost is estimated. -/
inductive Operation where
  /-- Read a heap in sequence. -/
  | seqScan (pages : Nat) (tuples : Float) (quals : Nat)
  /-- Descend an index and fetch the rows it finds. -/
  | indexScan (indexPages : Nat) (indexTuples : Float) (height : Int) (heapPages : Nat)
      (heapTuples selectivity : Float) (indexQuals filterQuals : Nat)
  /-- Collect pages from an index and read them in heap order. An entry
  stands for `lossyPages` pages. -/
  | bitmapScan (indexPages heapPages : Nat) (heapTuples selectivity : Float)
      (lossyPages quals : Nat)

namespace Settings

variable (s : Settings)

/-- The cost of examining so many conditions on a row. -/
def rowCost (quals : Nat) : Float := s.cpuTupleCost + ofCount quals * s.cpuOperatorCost

/-- The cost of a sequential scan. -/
def seqScanCost (pages : Nat) (tuples : Float) (quals : Nat) : Cost :=
  let io := ofCount pages * s.seqPageCost
  let cpu := tuples * s.rowCost quals
  .of 0.0 cpu io

/-- The cost of an index scan: a descent that compares along a binary search
and touches a page a level, then entries, pages and rows in proportion. -/
def indexScanCost (indexPages : Nat) (indexTuples : Float) (height : Int) (heapPages : Nat)
    (heapTuples selectivity : Float) (indexQuals filterQuals : Nat) : Cost :=
  let descent := (greater indexTuples 2.0).log2.ceil * s.cpuOperatorCost
    + (Float.ofInt height + 1.0) * 50.0 * s.cpuOperatorCost
  let entries := greater (selectivity * indexTuples) 1.0
  let indexPagesRead := greater (selectivity * ofCount indexPages).ceil 1.0
  let rows := greater (selectivity * heapTuples) 1.0
  let heapPagesRead := greater (lesser rows (ofCount heapPages)) 1.0
  let io := (indexPagesRead + heapPagesRead) * s.randomPageCost
  let cpu := entries * (s.cpuIndexTupleCost + ofCount indexQuals * s.cpuOperatorCost)
    + rows * s.rowCost filterQuals
  .of descent cpu io

/-- The cost of a bitmap scan: a page costs the more like a sequential read
the denser the pages read lie. -/
def bitmapScanCost (indexPages heapPages : Nat) (heapTuples selectivity : Float)
    (lossyPages quals : Nat) : Cost :=
  let totalPages := ofCount (max heapPages 1)
  let exact := lesser (greater (selectivity * heapTuples) 1.0) totalPages
  let pages := lesser (exact * ofCount (max lossyPages 1)) totalPages
  let perPage := s.randomPageCost
    - (s.randomPageCost - s.seqPageCost) * (pages / totalPages).sqrt
  let tuplesPerPage := heapTuples / totalPages
  let startup := ofCount indexPages * s.seqPageCost
  let io := pages * perPage
  let cpu := pages * tuplesPerPage * s.rowCost quals
  .of startup cpu io

/-- The cost of a scan. -/
def cost : Operation → Cost
  | .seqScan pages tuples quals => s.seqScanCost pages tuples quals
  | .indexScan ip it h hp ht sel iq fq => s.indexScanCost ip it h hp ht sel iq fq
  | .bitmapScan ip hp ht sel lp q => s.bitmapScanCost ip hp ht sel lp q

end Settings

/-! ## Selectivity -/

namespace Selectivity

/-- The fraction of rows equal to a constant, if nothing is known. -/
def standardEq : Float := 0.005

/-- The fraction of rows on one side of a constant. -/
def standardRange : Float := 0.3333333333333333

/-- The fraction of rows that are `NULL`. -/
def standardNull : Float := 0.005

/-- The fraction of rows equal to a constant. -/
def ofEquality (column : Option Column) : Float :=
  match column.bind fun c => c.distinct with
  | some n => if 1.0 ≤ n then 1.0 / n else standardEq
  | none => standardEq

/-- The fraction of rows expected to pass a test on a column. -/
def ofTest (test : ColumnTest) (column : Option Column) : Float :=
  let notNull := column.any fun c => c.notNull
  let fraction := match test with
    | .compare op value =>
      if value.isNull then 0.0
      else
        match op with
        | .eq => ofEquality column
        | .ne => 1.0 - ofEquality column
        | _ => standardRange
    | .isIn values => ofCount (values.filter fun v => !v.isNull).length * ofEquality column
    | .isNull => if notNull then 0.0 else standardNull
    | .isNotNull => if notNull then 1.0 else 1.0 - standardNull
  clamp 0.0 1.0 fraction

/-- The fraction of rows expected to satisfy every restriction. -/
def ofAll (restrictions : List Restriction) (columns : List Column) : Float :=
  clamp 0.0 1.0 (restrictions.foldl (fun acc r =>
    acc * ofTest r.test (columns.find? fun c => c.attnum == r.attnum)) 1.0)

end Selectivity

end WhatIf
