import WhatIf.Error
/-!
# Catalog — the interface

A catalog is any state that answers lookups and lends identifiers. Lookups
leave the state alone; lending one changes it, so a catalog may answer each
request differently.
-/

namespace WhatIf

/-- A state that can be asked about relations and lends identifiers. -/
class Catalog (σ : Type) where
  /-- The relation of an identifier. -/
  relation : σ → Oid → Except CatalogError Relation
  /-- The relation of a name. -/
  relationNamed : σ → String → Except CatalogError Relation
  /-- The physical indexes on a relation. -/
  indexes : σ → Oid → Except CatalogError (List PhysicalIndex)
  /-- The physical index of an identifier. -/
  index : σ → Oid → Except CatalogError PhysicalIndex
  /-- The direct inheritance children of a relation. -/
  children : σ → Oid → Except CatalogError (List Oid)
  /-- Whether a physical object has an identifier. -/
  inUse : σ → Oid → Bool
  /-- Lend an identifier for an object that shadows a relation. -/
  lend : σ → Oid → Except CatalogError Oid × σ

end WhatIf
