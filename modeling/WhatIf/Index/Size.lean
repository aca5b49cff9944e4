import WhatIf.Relation
/-!
# Index — estimated sizes

How many pages an index would take that was never built. An entry takes the
widths of its columns behind a header, rounded up to eight bytes, and a line
pointer; a page holds as many entries as its fill factor leaves room for. A
B-tree adds levels of pages until one page holds them all.
-/

namespace WhatIf

/-- The estimated size of an index. -/
structure IndexSize where
  /-- How many pages it has. -/
  pages : Nat
  /-- How many entries it has. -/
  tuples : Float
  /-- How many levels lie above the leaves. -/
  height : Int

namespace IndexSize

/-- The bytes of a page. -/
def blockSize : Nat := 8192

/-- The bytes a page header takes. -/
def pageHeader : Nat := 24

/-- The bytes of the index. -/
def bytes (s : IndexSize) : Nat := s.pages * blockSize

/-- A length rounded up to a multiple of eight. -/
def align (length : Nat) : Nat := (length + 7) / 8 * 8

/-- A quotient rounded up. -/
def ceilDiv (n d : Nat) : Nat := (n + d - 1) / d

/-- The bytes of an entry with so many bytes of data. -/
def entrySize (data : Nat) : Nat := align (8 + data) + 4

/-- The bytes of data of an entry over columns of the given types. -/
def dataWidth (types : List DataType) : Nat := types.foldr (fun t n => t.width + n) 0

/-- How many entries fit on a page that is filled to a percentage, with so
many bytes set aside for the access method; at least one. -/
def entriesPerPage (special percent entry : Nat) : Nat :=
  max ((blockSize - pageHeader - special) * percent / 100 / entry) 1

/-- The pages above a level of so many pages, and how many levels they form,
where a page points to `fanout` pages. A page that points to only one has a level of
as many pages above it, and the climb would not end: it is not begun then, and the
answer `(0, 0)` is no size of any index. -/
def climb (fanout level : Nat) : Nat × Nat :=
  if 1 < level ∧ 1 < fanout then
    let above := ceilDiv level fanout
    let (pages, height) := climb fanout above
    (above + pages, height + 1)
  else (0, 0)
  termination_by level
  decreasing_by
    rename_i h
    obtain ⟨h1, h2⟩ := h
    unfold ceilDiv
    have hpos : 0 < fanout := by omega
    rw [Nat.div_lt_iff_lt_mul hpos]
    have : level * 2 ≤ level * fanout := Nat.mul_le_mul_left _ h2
    obtain ⟨k, rfl⟩ : ∃ k, level = k + 2 := ⟨level - 2, by omega⟩
    obtain ⟨f, rfl⟩ : ∃ f, fanout = f + 2 := ⟨fanout - 2, by omega⟩
    have : (k + 2) * (f + 2) = k * f + 2 * k + 2 * f + 4 := by
      simp only [Nat.add_mul, Nat.mul_add]; omega
    omega

/-- How many B-tree entries over columns of the given types fit on a page. -/
def btreeFanout (types : List DataType) : Nat := entriesPerPage 16 90 (entrySize (dataWidth types))

/-- How many pages so many entries take, at so many a page. -/
def pagesFor (tuples : Float) (perPage : Nat) : Nat :=
  Decimal.ceilCount (tuples / Decimal.ofCount perPage)

/-- How many leaf pages a B-tree has. -/
def btreeLeaves (types : List DataType) (tuples : Float) : Nat :=
  max (pagesFor tuples (btreeFanout types)) 1

/-- A B-tree: its leaves, the levels above them and a page about itself. -/
def btree (types : List DataType) (tuples : Float) : IndexSize :=
  let leaves := btreeLeaves types tuples
  let (above, height) := climb (btreeFanout types) leaves
  { pages := leaves + above + 1, tuples, height := Int.ofNat height }

/-- The least power of two that is not below `n`, for `n ≥ 2`. -/
def powerOfTwo (n : Nat) : Nat := Decimal.twoTo ((n - 1).log2 + 1)

/-- A hash index stores four-byte codes in a power of two of bucket pages,
and has two pages about itself. -/
def hash (tuples : Float) : IndexSize :=
  let perPage := entriesPerPage 16 75 (entrySize 4)
  let buckets := powerOfTwo (max (pagesFor tuples perPage) 2)
  { pages := buckets + 2, tuples, height := 0 }

/-- How many heap pages an entry of a BRIN index summarises. -/
def pagesPerRange : Nat := 128

/-- A BRIN index keeps two values a column for every range of heap pages, a
map of the ranges and a page about itself. -/
def brin (types : List DataType) (heapPages : Nat) : IndexSize :=
  let ranges := max (ceilDiv heapPages pagesPerRange) 1
  let perPage := entriesPerPage 0 100 (entrySize (2 * dataWidth types))
  let perMapPage := (blockSize - pageHeader) / 6
  { pages := ceilDiv ranges perPage + ceilDiv ranges perMapPage + 1
    tuples := Decimal.ofCount ranges
    height := 0 }

/-- The size of an index of a given method over `tuples` rows of a heap,
with key and included columns of the given types. -/
def estimate (m : AccessMethod) (types : List DataType) (heapPages : Nat) (tuples : Float) :
    IndexSize :=
  let tuples := Decimal.greater tuples 0.0
  match m with
  | .btree => btree types tuples
  | .hash => hash tuples
  | .brin => brin types heapPages

end IndexSize

end WhatIf
