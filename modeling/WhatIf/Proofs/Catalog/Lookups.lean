import WhatIf.Proofs.Catalog.Memory
import WhatIf.Proofs.Hook.Yields
import WhatIf.Hook.PhysicalHost
/-!
# Catalog — what lookups depend on

A catalog is looked at in two states. Where they answer every lookup alike, the
host answers alike at every point. Lending an identifier is to leave the lookups
as they are: a lookup opens what it reads read-only, and what is lent is a
number. Registering a hypothetical object then leaves them as they are too.
-/

namespace WhatIf

namespace Catalog

variable {σ : Type} [Catalog σ] {c c' c'' : σ}

/-- **Two states of a catalog that answer lookups alike.** -/
structure SameLookups (c c' : σ) : Prop where
  relation : ∀ oid, relation c' oid = relation c oid
  relationNamed : ∀ name, relationNamed c' name = relationNamed c name
  indexes : ∀ oid, indexes c' oid = indexes c oid
  index : ∀ oid, index c' oid = index c oid
  children : ∀ oid, children c' oid = children c oid

theorem SameLookups.refl (c : σ) : SameLookups c c :=
  ⟨fun _ => rfl, fun _ => rfl, fun _ => rfl, fun _ => rfl, fun _ => rfl⟩

theorem SameLookups.trans (h : SameLookups c c') (h' : SameLookups c' c'') : SameLookups c c'' where
  relation oid := (h'.relation oid).trans (h.relation oid)
  relationNamed name := (h'.relationNamed name).trans (h.relationNamed name)
  indexes oid := (h'.indexes oid).trans (h.indexes oid)
  index oid := (h'.index oid).trans (h.index oid)
  children oid := (h'.children oid).trans (h.children oid)

/-- **That lending an identifier leaves the lookups as they are**, a law of the
catalogs of a type. -/
def LendsOnly (σ : Type) [Catalog σ] : Prop :=
  ∀ (c : σ) (relid : Oid), SameLookups c (lend c relid).2

/-- Registering an index leaves the lookups as they are. -/
theorem LendsOnly.registerIndex (h : LendsOnly σ) (x : Extension) (c : σ) (relid : Oid)
    (spec : IndexSpec) : SameLookups c (x.registerIndex c relid spec).2.2 :=
  Extension.registerIndex_keeps (P := SameLookups c) (fun c' relid hc => hc.trans (h c' relid))
    (.refl c) spec

end Catalog

/-! ## A catalog that keeps the law -/

/-- Where the counter stands is not looked up. -/
theorem MemoryCatalog.sameLookups_lend (c : MemoryCatalog) (relid : Oid) :
    Catalog.SameLookups c (c.lend relid).2 := by
  unfold lend
  split
  · exact .refl c
  · rw [take_snd]
    exact ⟨fun _ => rfl, fun _ => rfl, fun _ => rfl, fun _ => rfl, fun _ => rfl⟩

/-- The catalog in memory keeps the law. -/
theorem MemoryCatalog.lendsOnly : Catalog.LendsOnly MemoryCatalog := sameLookups_lend

/-! ## The host -/

namespace Catalog.SameLookups

variable {σ : Type} [Catalog σ] {c c' : σ} (h : SameLookups c c')

include h

theorem walk (fuel : Nat) (found queue : List Oid) :
    PhysicalHost.walk c' fuel found queue = PhysicalHost.walk c fuel found queue := by
  induction fuel generalizing found queue with
  | zero => rfl
  | succ fuel ih =>
    rcases queue with _ | ⟨oid, rest⟩
    · rfl
    rw [PhysicalHost.walk, PhysicalHost.walk, h.children]
    rcases Catalog.children c oid with e | children
    · rfl
    · exact ih _ _

/-- **The host answers alike about relations and indexes.** -/
theorem metadata : PhysicalHost.metadata c' = PhysicalHost.metadata c := by
  have hchildren : ∀ oid, Catalog.children c' oid = Catalog.children c oid := h.children
  have hinheritors : ∀ oid, PhysicalHost.inheritors c' oid = PhysicalHost.inheritors c oid :=
    fun oid => h.walk Oid.count [oid] [oid]
  unfold PhysicalHost.metadata
  simp only [hchildren, hinheritors, h.index]

/-- **The host plans alike**, given how children are finished and found. -/
theorem planning (m : MetadataPoints) :
    PhysicalHost.planning c' m = PhysicalHost.planning c m := by
  have hinfo : ∀ oid inherits,
      PhysicalHost.relationInfo c' oid inherits = PhysicalHost.relationInfo c oid inherits := by
    intro oid inherits
    unfold PhysicalHost.relationInfo
    rw [h.relation, h.indexes]
  have hmembers : ∀ ctx parent parentId oids,
      PhysicalHost.addMembers c' m ctx parent parentId oids =
        PhysicalHost.addMembers c m ctx parent parentId oids := by
    intro ctx parent parentId oids
    induction oids with
    | nil => rfl
    | cons oid oids ih =>
      rw [PhysicalHost.addMembers, PhysicalHost.addMembers, ih]
      unfold PhysicalHost.addMember
      rw [h.relation]
  unfold PhysicalHost.planning PhysicalHost.expandChildren
  simp only [hinfo, hmembers]

/-- A query is planned alike, given the points. -/
theorem plan (q : Query) (m : MetadataPoints) (p : PlanningPoints) (ctx : Context) (s : Settings) :
    q.plan c' m p ctx s = q.plan c m p ctx s := by
  have hbind : q.bind c' = q.bind c := by
    unfold Query.bind
    rw [h.relationNamed]
  unfold Query.plan
  rw [hbind]

end Catalog.SameLookups

end WhatIf
