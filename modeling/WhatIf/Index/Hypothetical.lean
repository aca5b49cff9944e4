import WhatIf.Cost
import WhatIf.Index.Size
import WhatIf.Index.Spec
/-!
# Index — hypothetical indexes

An index that was described but never built. Its description is checked
against the relation and what the access method can do; what results carries
a display name, a size estimate and enough to write the statement that would
build it.
-/

namespace WhatIf

/-- A key column of a hypothetical index. -/
structure IndexColumn where
  /-- The number of the column; an expression has none. -/
  attnum : Option AttNum
  /-- The name of the column or the text of the expression. -/
  label : String
  /-- The type. -/
  type : DataType
  /-- Whether it is sorted downwards. -/
  descending : Bool
  /-- Whether `NULL` is sorted first. -/
  nullsFirst : Bool

/-- A hypothetical index. -/
structure HypotheticalIndex where
  /-- Its identifier. -/
  oid : Oid
  /-- The relation it is on. -/
  relid : Oid
  /-- The name of that relation. -/
  relation : String
  /-- Its display name. -/
  name : String
  /-- Its access method. -/
  method : AccessMethod
  /-- Its key columns. -/
  columns : List IndexColumn
  /-- The columns it stores without their being keys. -/
  included : List (AttNum × String)
  /-- Whether it is unique. -/
  unique : Bool
  /-- Its predicate. -/
  predicate : List Restriction
  /-- Its estimated size. -/
  size : IndexSize

namespace IndexSpec

/-- What the access method or the relation rules out. -/
def fault? (s : IndexSpec) (r : Relation) : Option IndexFault :=
  let m := s.method
  if !r.kind.isIndexable then some (.notIndexable r.name)
  else if s.keys.isEmpty then some .noKeys
  else if 1 < s.keys.length && !m.canMultiColumn then some (.multiColumn m)
  else if s.unique && !m.canUnique then some (.uniqueness m)
  else if !s.included.isEmpty && !m.canInclude then some (.included m)
  else if !m.canOrder && s.keys.any (fun k => k.descending || k.nullsFirst.isSome) then
    some (.ordering m)
  else none

/-- The column of a given name, or the error that there is none. -/
def findColumn (r : Relation) (name : String) : Except RegistryError Column :=
  match r.columnNamed? name with
  | some c => .ok c
  | none => .error (.columnNotFound r.name name)

/-- A key bound to its column. -/
def resolveKey (r : Relation) (k : IndexKeySpec) : Except RegistryError IndexColumn :=
  let nullsFirst := k.nullsFirst.getD k.descending
  match k.key with
  | .column name =>
    (findColumn r name).map fun c => ⟨some c.attnum, c.name, c.type, k.descending, nullsFirst⟩
  | .expression text => .ok ⟨none, text, .text, k.descending, nullsFirst⟩

/-- A conjunct of the predicate bound to its column. -/
def resolveQual (r : Relation) (q : Qual) : Except RegistryError Restriction :=
  match q.resolve? r with
  | some restriction => .ok restriction
  | none => .error (.columnNotFound r.name q.column)

end IndexSpec

namespace HypotheticalIndex

/-- The greatest number of bytes of an identifier. -/
def nameRoom : Nat := 63

/-- The name `<oid>method_relation_column…` in full. -/
def fullName (oid : Oid) (m : AccessMethod) (relation : String) (columns : List String) : String :=
  "<" ++ oid.text ++ ">" ++ m.name ++ "_" ++ relation ++
    String.join (columns.map fun c => "_" ++ c)

/-- The full name, cut to what an identifier may have. -/
def displayName (oid : Oid) (m : AccessMethod) (relation : String) (columns : List String) :
    String :=
  Text.cut nameRoom (fullName oid m relation columns)

/-- The hypothetical index of a description. -/
def build (oid : Oid) (r : Relation) (s : IndexSpec) : Except RegistryError HypotheticalIndex :=
  match s.fault? r with
  | some fault => .error (.unsupportedIndex fault)
  | none => do
    let columns ← s.keys.mapM (IndexSpec.resolveKey r)
    let included ← s.included.mapM (IndexSpec.findColumn r)
    let predicate ← s.predicate.mapM (IndexSpec.resolveQual r)
    let types := columns.map (fun c => c.type) ++ included.map fun c => c.type
    let rows := r.tuples * Selectivity.ofAll predicate r.columns
    pure
      { oid
        relid := r.oid
        relation := r.name
        name := displayName oid s.method r.name (columns.map fun c => c.label)
        method := s.method
        columns
        included := included.map fun c => (c.attnum, c.name)
        unique := s.unique
        predicate
        size := IndexSize.estimate s.method types r.pages rows }

variable (x : HypotheticalIndex)

/-- Whether the index is partial. -/
def isPartial (x : HypotheticalIndex) : Bool := !x.predicate.isEmpty

/-- A key as `CREATE INDEX` writes it. The place of `NULL` is written only
where it is not the usual one. -/
def keySql (c : IndexColumn) : String :=
  let target := if c.attnum.isSome then c.label else "(" ++ c.label ++ ")"
  let direction := if c.descending then " DESC" else ""
  let nulls :=
    if c.nullsFirst = c.descending then ""
    else if c.nullsFirst then " NULLS FIRST" else " NULLS LAST"
  target ++ direction ++ nulls

/-- The statement that would build the index. -/
def definition : String :=
  let head := "CREATE " ++ (if x.unique then "UNIQUE " else "") ++ "INDEX ON " ++ x.relation ++
    " USING " ++ x.method.name ++ " (" ++ Text.join ", " (x.columns.map keySql) ++ ")"
  let included :=
    if x.included.isEmpty then ""
    else " INCLUDE (" ++ Text.join ", " (x.included.map Prod.snd) ++ ")"
  let predicate :=
    if x.predicate.isEmpty then ""
    else " WHERE " ++ Text.join " AND " (x.predicate.map Restriction.sql)
  head ++ included ++ predicate

end HypotheticalIndex

end WhatIf
