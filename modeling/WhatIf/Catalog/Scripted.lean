import WhatIf.Catalog.Memory
/-!
# Catalog — with scripted answers

A catalog in memory whose answers can be overridden: identifiers to lend
come from a queue while it lasts, further identifiers count as in use, and
whole kinds of lookup can be made to fail.
-/

namespace WhatIf

/-- The lookups that can be made to fail. -/
inductive Lookup where
  | relation
  | relationNamed
  | indexes
  | index
  | children
  deriving DecidableEq

/-- A catalog with scripted answers. -/
structure ScriptedCatalog where
  /-- What answers where the script is silent. -/
  memory : MemoryCatalog
  /-- The next answers to requests for an identifier. -/
  queue : List (Except CatalogError Oid)
  /-- Identifiers that count as in use as well. -/
  reserved : List Oid
  /-- Lookups that fail. -/
  failing : List (Lookup × CatalogError)

namespace ScriptedCatalog

/-- A catalog in memory with an empty script. -/
def ofMemory (c : MemoryCatalog) : ScriptedCatalog := ⟨c, [], [], []⟩

variable (c : ScriptedCatalog)

/-- An answer, unless its kind of lookup fails. -/
def unlessFailing {α : Type} (l : Lookup) (answer : Except CatalogError α) :
    Except CatalogError α :=
  match c.failing.find? fun f => f.1 == l with
  | some (_, e) => .error e
  | none => answer

/-- The next identifier of the queue, and past its end one of the memory. -/
def lend (relid : Oid) : Except CatalogError Oid × ScriptedCatalog :=
  match c.queue with
  | answer :: rest => (answer, { c with queue := rest })
  | [] =>
    let (answer, memory) := c.memory.lend relid
    (answer, { c with memory })

end ScriptedCatalog

instance : Catalog ScriptedCatalog where
  relation c oid := c.unlessFailing .relation (Catalog.relation c.memory oid)
  relationNamed c name := c.unlessFailing .relationNamed (Catalog.relationNamed c.memory name)
  indexes c oid := c.unlessFailing .indexes (Catalog.indexes c.memory oid)
  index c oid := c.unlessFailing .index (Catalog.index c.memory oid)
  children c oid := c.unlessFailing .children (Catalog.children c.memory oid)
  inUse c oid := Catalog.inUse c.memory oid || c.reserved.contains oid
  lend c oid := c.lend oid

end WhatIf
