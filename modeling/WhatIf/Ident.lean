/-!
# Identifiers

Relations, indexes and hypothetical objects share one space of 32-bit object
identifiers, of which the lowest belong to the system. Columns are numbered
within their relation and entries within a query's range table, both from
one.
-/

namespace WhatIf

/-- An object identifier. -/
structure Oid where
  /-- The identifier as a word. -/
  word : UInt32
  deriving DecidableEq

namespace Oid

/-- The identifier that no object has. -/
def invalid : Oid := ⟨0⟩

/-- The first identifier handed out to user objects. -/
def firstNormal : Oid := ⟨16384⟩

/-- The last identifier. -/
def last : Oid := ⟨4294967295⟩

/-- How many identifiers there are. -/
def count : Nat := 4294967296

/-- Whether an object may have this identifier. -/
def isValid (o : Oid) : Bool := o != invalid

/-- The decimal text of an identifier. -/
def text (o : Oid) : String := toString o.word.toNat

/-- The identifier after this one, which wraps around to the first normal
one. -/
def next (o : Oid) : Oid := if o = last then firstNormal else ⟨o.word + 1⟩

end Oid

/-- The number of a column within its relation. -/
structure AttNum where
  /-- The number, negative for system columns. -/
  number : Int
  deriving DecidableEq

/-- The decimal text of a column number. -/
def AttNum.text (a : AttNum) : String := toString a.number

/-- The position of an entry in a range table, counted from one. -/
structure RangeIndex where
  /-- The position. -/
  position : Nat
  deriving DecidableEq

/-- The position counted from zero. -/
def RangeIndex.slot (i : RangeIndex) : Nat := i.position - 1

end WhatIf
