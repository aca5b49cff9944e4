import WhatIf.Proofs.Constraint.Monotone
import WhatIf.Proofs.Registry.Constraints
import WhatIf.Proofs.Shadow.Refinement
import WhatIf.Proofs.Partition.Disjoint
/-!
# Shadow — what is refuted stays refuted

A refutation is kept by more restrictions and by more constraints, and in whatever
order and however often they come, while each column is compared with values of
one kind. On the way down a tree constraints are only added. So what refutes a
partition refutes every partition below it.
-/

namespace WhatIf

namespace Extension

open Constraint

/-- **Refutation is monotone**: among more restrictions and constraints, of one
kind for each column, what was refuted is refuted; the same restrictions and
constraints in another order, or repeated, have the same answer; in any registry,
what refutes a node refutes every node it stands above; and in an extension that a
run of calls leads to, it refutes every partition that is listed below the node. -/
theorem refutation_monotone :
    (∀ (restrictions restrictions' : List Restriction) (constraints constraints' : List Constraint),
      restrictions ⊆ restrictions' → constraints ⊆ constraints' →
        OneKind restrictions' constraints' → refutedBy restrictions constraints = true →
          refutedBy restrictions' constraints' = true) ∧
      (∀ (restrictions restrictions' : List Restriction)
        (constraints constraints' : List Constraint),
        (∀ r, r ∈ restrictions ↔ r ∈ restrictions') → (∀ c, c ∈ constraints ↔ c ∈ constraints') →
          OneKind restrictions' constraints' →
            refutedBy restrictions constraints = refutedBy restrictions' constraints') ∧
        (∀ (g : Registry) (oid low : Oid) (m n : Node) (k : Nat), g.node? oid = some m →
          g.node? low = some n → g.above k n = some m → ∀ restrictions,
            OneKind restrictions (g.boundConstraints low) →
              refutedBy restrictions (g.boundConstraints oid) = true →
                refutedBy restrictions (g.boundConstraints low) = true) ∧
          ∀ (σ : Type) [Catalog σ] (x : Extension), ReachedWithin σ Unmixed x →
            ∀ oid low, low ∈ x.registry.descendants oid → ∀ restrictions,
              OneKind restrictions (x.registry.boundConstraints low) →
                refutedBy restrictions (x.registry.boundConstraints oid) = true →
                  refutedBy restrictions (x.registry.boundConstraints low) = true := by
  refine ⟨fun _ _ _ _ hrestrictions hconstraints hkind => ?_,
    fun _ _ _ _ hrestrictions hconstraints hkind => ?_, ?_, ?_⟩
  · exact refutedBy_mono hkind hrestrictions hconstraints
  · exact refutedBy_congr hkind hrestrictions hconstraints
  · intro g oid low m n k hm hn habove restrictions hkind
    have hmore := Registry.boundConstraints_subset_of_above hn hm habove
    exact refutedBy_mono hkind (List.Subset.refl _) hmore
  · rintro σ _ x ⟨log, hrun⟩ oid low hlow restrictions hkind
    obtain ⟨v, -, hreflects⟩ := hrun.reflects
    have hmore := hreflects.holds.boundConstraints_subset_of_mem_descendants hlow
    exact refutedBy_mono hkind (List.Subset.refl _) hmore

/-- A catalog with the table `readings` alone. -/
def readingsCatalog : MemoryCatalog := .holding ⟨16400⟩ [Layout.readings]

/-- Shadow `readings` with its partitions by year, the latest of them further by
loudness. -/
def shadowReadings : AdminCall MemoryCatalog :=
  .registerTable readingsCatalog Layout.readings.oid Layout.byYear

/-- An extension with `readings` shadowed. The latest readings are the node 16403,
and the loud ones among them 16405. -/
def readingsSplit : Extension := ((fresh true).perform shadowReadings).2

theorem reached_readingsSplit : ReachedWithin MemoryCatalog Unmixed readingsSplit :=
  .perform shadowReadings (.fresh true) shadowReadings.faithful_memory (by decide +kernel)

/-- Readings of 1999 or before. -/
def beforeMillennium : Restriction := ⟨⟨1⟩, "year", .compare .le (.int 1999)⟩

/-- Readings of one year. -/
def ofYear (i : Int64) : Restriction := ⟨⟨1⟩, "year", .compare .eq (.int i)⟩

/-- Years whose hash leaves one remainder of four. -/
def yearHashed (remainder : UInt32) : Constraint := .hash [⟨1⟩] [.int4] 4 remainder

/-- The year 5 has another hash, and stays refuted if the year has to be 3 first,
whose hash is the one. Two years at once are refuted in any order. And early
readings, or those of an early year, refuted where readings are late, are refuted
where they are late and loud. -/
theorem refutation_monotone_readings :
    refutedBy [ofYear 5] [yearHashed 2] = true ∧
      refutedBy [ofYear 3, ofYear 5] [.column ⟨⟨1⟩, "year", .isNotNull⟩, yearHashed 2] = true ∧
      refutedBy [ofYear 5, ofYear 3, ofYear 5] [] = refutedBy [ofYear 3, ofYear 5] [] ∧
      (⟨16405⟩ : Oid) ∈ readingsSplit.registry.descendants ⟨16403⟩ ∧
      refutedBy [beforeMillennium] (readingsSplit.registry.boundConstraints ⟨16403⟩) = true ∧
      refutedBy [beforeMillennium] (readingsSplit.registry.boundConstraints ⟨16405⟩) = true ∧
      refutedBy [ofYear 1999] (readingsSplit.registry.boundConstraints ⟨16403⟩) = true ∧
      refutedBy [ofYear 1999] (readingsSplit.registry.boundConstraints ⟨16405⟩) = true := by
  -- years are integers, and loudness is a boolean
  have hkinds : ∀ a, (fun a : AttNum => if a = ⟨3⟩ then DataType.bool else .int4) a ≠ .float8 := by
    intro a
    dsimp only
    split <;> decide
  have hfive : refutedBy [ofYear 5] [yearHashed 2] = true := by decide +kernel
  have hlow : (⟨16405⟩ : Oid) ∈ readingsSplit.registry.descendants ⟨16403⟩ := by decide +kernel
  have hlate : refutedBy [beforeMillennium]
      (readingsSplit.registry.boundConstraints ⟨16403⟩) = true := by decide +kernel
  have hyear : refutedBy [ofYear 1999]
      (readingsSplit.registry.boundConstraints ⟨16403⟩) = true := by decide +kernel
  refine ⟨hfive, ?_, ?_, hlow, hlate, ?_, hyear, ?_⟩
  · refine refutation_monotone.1 [ofYear 5] _ [yearHashed 2] _ ?_ ?_ ?_ hfive
    · exact List.subset_cons_self _ _
    · exact List.subset_cons_self _ _
    · exact ⟨_, hkinds, by decide, by decide⟩
  · refine refutation_monotone.2.1 _ _ _ _ (fun r => ?_) (fun c => Iff.rfl) ?_
    · rw [List.mem_cons, or_iff_right_of_imp]
      rintro rfl
      exact List.mem_cons_of_mem _ (List.mem_singleton_self _)
    · exact ⟨_, hkinds, by decide, by decide⟩
  · refine refutation_monotone.2.2.2 MemoryCatalog _ reached_readingsSplit _ _ hlow _ ?_ hlate
    exact ⟨_, hkinds, by decide, by decide +kernel⟩
  · have habove : (readingsSplit.registry.node? ⟨16405⟩).bind (readingsSplit.registry.above 1) =
        readingsSplit.registry.node? ⟨16403⟩ := by rfl
    obtain ⟨m, hm⟩ : ∃ m, readingsSplit.registry.node? ⟨16403⟩ = some m := ⟨_, rfl⟩
    obtain ⟨n, hn, hup⟩ := Option.bind_eq_some_iff.1 (habove.trans hm)
    refine refutation_monotone.2.2.1 _ _ _ _ _ 1 hm hn hup _ ?_ hyear
    exact ⟨_, hkinds, by decide, by decide +kernel⟩

end Extension

end WhatIf
