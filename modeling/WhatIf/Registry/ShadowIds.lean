import WhatIf.Catalog.Basic
/-!
# Registry — identifiers for hypothetical objects

Identifiers are borrowed from the catalog. One that is invalid, already
issued or in use is passed over, and the catalog is asked again a limited
number of times.
-/

namespace WhatIf

/-- The identifiers issued and not yet returned. -/
structure ShadowIds where
  /-- The identifiers. -/
  issued : List Oid

namespace ShadowIds

/-- No identifiers. -/
def empty : ShadowIds := ⟨[]⟩

/-- How often the catalog is asked for one identifier. -/
def attempts : Nat := 16

variable {σ : Type} [Catalog σ] (ids : ShadowIds)

/-- Whether an identifier may be issued. -/
def isUsable (c : σ) (oid : Oid) : Bool :=
  oid.isValid && !ids.issued.contains oid && !Catalog.inUse c oid

/-- The first usable identifier among so many answers of the catalog. -/
def draw (relid : Oid) : Nat → σ → Except RegistryError Oid × σ
  | 0, c => (.error (.identifiersExhausted attempts), c)
  | n + 1, c =>
    match Catalog.lend c relid with
    | (.error e, c) => (.error (.allocationFailed e), c)
    | (.ok oid, c) => if ids.isUsable c oid then (.ok oid, c) else draw relid n c

/-- Issue an identifier for an object that shadows a relation. -/
def allocate (relid : Oid) (c : σ) : Except RegistryError Oid × ShadowIds × σ :=
  match ids.draw relid attempts c with
  | (.ok oid, c) => (.ok oid, ⟨oid :: ids.issued⟩, c)
  | (.error e, c) => (.error e, ids, c)

/-- Whether an identifier is issued. -/
def isIssued (oid : Oid) : Bool := ids.issued.contains oid

/-- Return an identifier. -/
def release (oid : Oid) : ShadowIds := ⟨ids.issued.filter fun o => o ≠ oid⟩

/-- How many identifiers are issued. -/
def size : Nat := ids.issued.length

end ShadowIds

end WhatIf
