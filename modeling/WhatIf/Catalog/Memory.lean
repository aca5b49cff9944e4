import WhatIf.Catalog.Basic
import WhatIf.Keyed
/-!
# Catalog — held in memory

Relations, indexes and identifiers lent out all take their identifiers from
one counter, which skips those in use and wraps around at the end of the
space. A relation is found by its identifier, and by its name through a map of
the names in lower case. Each call leaves a catalog, also one that fails.
-/

namespace WhatIf

/-- A relation to create. -/
structure NewTable where
  /-- Its name. -/
  name : String
  /-- Its kind. -/
  kind : RelKind
  /-- Its persistence. -/
  persistence : Persistence
  /-- Its columns. -/
  columns : List Column
  /-- How many pages its heap has. -/
  pages : Nat
  /-- How many rows it has. -/
  tuples : Float

/-- The relation that a table is created as. -/
def NewTable.relation (t : NewTable) (oid : Oid) : Relation where
  oid := oid
  name := t.name
  kind := t.kind
  persistence := t.persistence
  tablespace := Oid.invalid
  columns := t.columns
  pages := t.pages
  tuples := t.tuples

/-- A catalog held in memory. -/
structure MemoryCatalog where
  /-- The identifier to try next. -/
  next : Oid
  /-- The relations, in order of creation. -/
  relations : List Relation
  /-- The identifiers of the relations by name, in lower case. -/
  names : List (String × Oid)
  /-- The indexes, by identifier. -/
  indexes : List PhysicalIndex
  /-- The inheritance links from parent to child, in order of creation. -/
  links : List (Oid × Oid)

namespace MemoryCatalog

/-- An empty catalog whose counter starts at an identifier, or at the first
normal one if that is greater. -/
def startingAt (oid : Oid) : MemoryCatalog where
  next := if oid.word < Oid.firstNormal.word then Oid.firstNormal else oid
  relations := []
  names := []
  indexes := []
  links := []

/-- An empty catalog. -/
def empty : MemoryCatalog := startingAt Oid.firstNormal

variable (c : MemoryCatalog)

/-- The relation of an identifier. -/
def find? (oid : Oid) : Option Relation := c.relations.find? fun r => r.oid == oid

/-- The relation of a name, in any letter case. -/
def findNamed? (name : String) : Option Relation :=
  (Keyed.find? c.names (Text.lower name)).bind c.find?

/-- The index of an identifier. -/
def findIndex? (oid : Oid) : Option PhysicalIndex := c.indexes.find? fun i => i.oid == oid

/-- Whether a relation or index has an identifier. -/
def isUsed (oid : Oid) : Bool := (c.find? oid).isSome || (c.findIndex? oid).isSome

/-- **The search for a free identifier** among so many candidates, in cyclic order
from `oid`, and the place of the counter when it is over: each candidate takes it one
step on, also the one that is found. -/
def search (oid : Oid) : Nat → Option Oid × Oid
  | 0 => (none, oid)
  | fuel + 1 => if c.isUsed oid then search oid.next fuel else (some oid, oid.next)

/-- How many identifiers the counter runs through. -/
def span : Nat := Oid.count - Oid.firstNormal.word.toNat

/-- Take the next free identifier. -/
def take : Except CatalogError Oid × MemoryCatalog :=
  match c.search c.next span with
  | (some oid, next) => (.ok oid, { c with next })
  | (none, next) => (.error .identifiersExhausted, { c with next })

/-- Create a relation. -/
def createTable (t : NewTable) : Except CatalogError Oid × MemoryCatalog :=
  if (Keyed.find? c.names (Text.lower t.name)).isSome then (.error (.duplicateRelation t.name), c)
  else
    match c.take with
    | (.error e, c) => (.error e, c)
    | (.ok oid, c) =>
      (.ok oid, { c with
        relations := c.relations ++ [t.relation oid]
        names := Keyed.insert c.names (Text.lower t.name) oid })

/-- The columns of an index by name. -/
def keyColumns (r : Relation) : List String → Except CatalogError (List Column)
  | [] => .ok []
  | name :: rest =>
    match r.columnNamed? name with
    | none => .error (.accessFailed (missingColumn r.name name))
    | some column => (keyColumns r rest).map fun columns => column :: columns

/-- A rough count of the pages of an index over columns: sixteen bytes an
entry beside its columns, pages filled to nine tenths. -/
def indexPages (r : Relation) (columns : List Column) : Nat :=
  let width := columns.foldl (fun w column => w + Decimal.ofCount column.type.width) 0.0
  Decimal.ceilCount (r.tuples * (width + 16.0) / (8192.0 * 0.9)) + 1

/-- Enter an index among those listed by identifier. -/
def enterIndex (i : PhysicalIndex) : List PhysicalIndex → List PhysicalIndex
  | [] => [i]
  | j :: rest => if i.oid.word < j.oid.word then i :: j :: rest else j :: enterIndex i rest

/-- A new index over columns of a relation. -/
def newIndex (r : Relation) (oid : Oid) (name : String) (m : AccessMethod) (columns : List Column)
    (unique : Bool) : PhysicalIndex :=
  let pages := indexPages r columns
  { oid, name, relid := r.oid, method := m, keys := columns.map fun column => column.attnum
    unique, pages, tuples := r.tuples, height := if 2 < pages then 1 else 0 }

/-- Create an index. -/
def createIndex (relid : Oid) (name : String) (m : AccessMethod) (columns : List String)
    (unique : Bool) : Except CatalogError Oid × MemoryCatalog :=
  match c.find? relid with
  | none => (.error (.relationNotFound relid), c)
  | some r =>
    match keyColumns r columns with
    | .error e => (.error e, c)
    | .ok columns =>
      match c.take with
      | (.error e, c) => (.error e, c)
      | (.ok oid, c) =>
        (.ok oid, { c with
          indexes := enterIndex (newIndex r oid name m columns unique) c.indexes })

/-- Record a direct inheritance child. -/
def inherit (parent child : Oid) : Except CatalogError Unit × MemoryCatalog :=
  if (c.find? parent).isNone then (.error (.relationNotFound parent), c)
  else if (c.find? child).isNone then (.error (.relationNotFound child), c)
  else (.ok (), { c with links := c.links ++ [(parent, child)] })

/-- The direct inheritance children of a relation. -/
def childrenOf (oid : Oid) : List Oid :=
  (c.links.filter fun link => link.1 == oid).map Prod.snd

/-- The indexes on a relation. -/
def indexesOn (oid : Oid) : Except CatalogError (List PhysicalIndex) :=
  if (c.find? oid).isNone then .error (.relationNotFound oid)
  else .ok (c.indexes.filter fun i => i.relid == oid)

/-- Lend an identifier for an object that shadows a relation. -/
def lend (relid : Oid) : Except CatalogError Oid × MemoryCatalog :=
  if (c.find? relid).isNone then (.error (.relationNotFound relid), c) else c.take

end MemoryCatalog

/-- What is found, or an error in its place. -/
def orError {α ε : Type} (found : Option α) (e : ε) : Except ε α :=
  match found with
  | some x => .ok x
  | none => .error e

instance : Catalog MemoryCatalog where
  relation c oid := orError (c.find? oid) (.relationNotFound oid)
  relationNamed c name := orError (c.findNamed? name) (.relationNameNotFound name)
  indexes c oid := c.indexesOn oid
  index c oid := orError (c.findIndex? oid) (.indexNotFound oid)
  children c oid := .ok (c.childrenOf oid)
  inUse c oid := c.isUsed oid
  lend c oid := c.lend oid

end WhatIf
