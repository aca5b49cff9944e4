import WhatIf.Condition
/-!
# Index — what to index

The description of an index as `CREATE INDEX` gives it, and builders that
change one clause at a time.
-/

namespace WhatIf

/-- What a key of an index is computed from. -/
inductive IndexKey where
  | column (name : String)
  /-- An expression nobody looks into: it is sized like a text column and
  answers no restriction. -/
  | expression (text : String)

/-- A key of an index. -/
structure IndexKeySpec where
  /-- What it is computed from. -/
  key : IndexKey
  /-- Whether it is sorted downwards. -/
  descending : Bool
  /-- Where `NULL` is sorted; with the greatest values if not told. -/
  nullsFirst : Option Bool

/-- The description of an index. -/
structure IndexSpec where
  /-- The access method. -/
  method : AccessMethod
  /-- The keys. -/
  keys : List IndexKeySpec
  /-- The names of columns stored without being keys. -/
  included : List String
  /-- Whether it is unique. -/
  unique : Bool
  /-- The predicate of a partial index. -/
  predicate : List Qual

namespace IndexSpec

/-- An index on columns. -/
def onColumns (m : AccessMethod) (columns : List String) : IndexSpec :=
  ⟨m, columns.map fun c => ⟨.column c, false, none⟩, [], false, []⟩

/-- Change the access method. -/
def withMethod (s : IndexSpec) (m : AccessMethod) : IndexSpec := { s with method := m }

/-- Add an expression as the last key. -/
def addExpression (s : IndexSpec) (text : String) : IndexSpec :=
  { s with keys := s.keys ++ [⟨.expression text, false, none⟩] }

/-- Change the first key that is a column of the given name. -/
def changeKey (column : String) (f : IndexKeySpec → IndexKeySpec) :
    List IndexKeySpec → List IndexKeySpec
  | [] => []
  | k :: rest =>
    match k.key with
    | .column name =>
      if Text.sameName name column then f k :: rest else k :: changeKey column f rest
    | .expression _ => k :: changeKey column f rest

/-- Sort a key downwards. -/
def descending (s : IndexSpec) (column : String) : IndexSpec :=
  { s with keys := changeKey column (fun k => { k with descending := true }) s.keys }

/-- Tell where `NULL` is sorted in a key. -/
def nullsFirst (s : IndexSpec) (column : String) (first : Bool) : IndexSpec :=
  { s with keys := changeKey column (fun k => { k with nullsFirst := some first }) s.keys }

/-- Store further columns. -/
def including (s : IndexSpec) (columns : List String) : IndexSpec :=
  { s with included := s.included ++ columns }

/-- Make the index unique. -/
def asUnique (s : IndexSpec) : IndexSpec := { s with unique := true }

/-- Add a conjunct to the predicate. -/
def addQual (s : IndexSpec) (column : String) (test : ColumnTest) : IndexSpec :=
  { s with predicate := s.predicate ++ [⟨column, test⟩] }

end IndexSpec

end WhatIf
