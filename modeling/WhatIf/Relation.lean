import WhatIf.Ident
import WhatIf.Datum
/-!
# Relation — tables, their columns and their physical indexes

What the catalog records about a relation, and what each index access method
is able to do.
-/

namespace WhatIf

/-- The kinds of relation a catalog lists. -/
inductive RelKind where
  | relation
  | matView
  | partitionedTable
  | view
  | index
  | foreign
  deriving DecidableEq

/-- Whether relations of this kind own a heap and can carry indexes. -/
def RelKind.isIndexable : RelKind → Bool
  | relation | matView => true
  | _ => false

/-- How long the contents of a relation last. -/
inductive Persistence where
  | permanent
  | unlogged
  | temporary
  deriving DecidableEq

/-- The index access methods. -/
inductive AccessMethod where
  | btree
  | hash
  | brin
  deriving DecidableEq

namespace AccessMethod

/-- The name of the method after `USING`. -/
def name : AccessMethod → String
  | btree => "btree"
  | hash => "hash"
  | brin => "brin"

/-- The method of a given name, in any letter case. -/
def ofName? (s : String) : Option AccessMethod :=
  [btree, hash, brin].find? fun m => m.name == Text.lower s

/-- Whether the index returns rows in key order. -/
def canOrder (m : AccessMethod) : Bool := m == btree

/-- Whether the index can enforce uniqueness. -/
def canUnique (m : AccessMethod) : Bool := m == btree

/-- Whether the index can have several key columns. -/
def canMultiColumn (m : AccessMethod) : Bool := m != hash

/-- Whether the index can store columns that are no keys. -/
def canInclude (m : AccessMethod) : Bool := m == btree

/-- Whether the index can be scanned row by row, and not by bitmap only. -/
def hasGetTuple (m : AccessMethod) : Bool := m != brin

/-- Whether the index can be scanned by bitmap. -/
def hasGetBitmap (_ : AccessMethod) : Bool := true

/-- Whether the index answers inequalities, and not equality only. -/
def supportsRange (m : AccessMethod) : Bool := m != hash

end AccessMethod

/-- A column. -/
structure Column where
  /-- Its number. -/
  attnum : AttNum
  /-- Its name. -/
  name : String
  /-- Its type. -/
  type : DataType
  /-- Whether it holds no `NULL`. -/
  notNull : Bool
  /-- How many distinct values it holds, where that is known. -/
  distinct : Option Float

/-- A relation. -/
structure Relation where
  /-- Its identifier. -/
  oid : Oid
  /-- Its name. -/
  name : String
  /-- Its kind. -/
  kind : RelKind
  /-- Its persistence. -/
  persistence : Persistence
  /-- The tablespace it lies in. -/
  tablespace : Oid
  /-- Its columns. -/
  columns : List Column
  /-- How many pages its heap has. -/
  pages : Nat
  /-- How many rows it has. -/
  tuples : Float

namespace Relation

variable (r : Relation)

/-- The column of a given number. -/
def column? (a : AttNum) : Option Column := r.columns.find? fun c => c.attnum == a

/-- The first column of a given name. -/
def columnNamed? (name : String) : Option Column :=
  r.columns.find? fun c => Text.sameName c.name name

/-- The average width of a row in bytes. -/
def width : Nat := r.columns.foldr (fun c n => c.type.width + n) 0

end Relation

/-- An index that exists. -/
structure PhysicalIndex where
  /-- Its identifier. -/
  oid : Oid
  /-- Its name. -/
  name : String
  /-- The relation it indexes. -/
  relid : Oid
  /-- Its access method. -/
  method : AccessMethod
  /-- Its key columns. -/
  keys : List AttNum
  /-- Whether it is unique. -/
  unique : Bool
  /-- How many pages it has. -/
  pages : Nat
  /-- How many entries it has. -/
  tuples : Float
  /-- How many levels lie above its leaves. -/
  height : Int

end WhatIf
