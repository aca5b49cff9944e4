import WhatIf.Catalog.Memory
import WhatIf.Proofs.Shadow.Registration
import WhatIf.Proofs.Plan.Physical
import WhatIf.Proofs.Store.Keyed
/-!
# Catalog — the catalog in memory agrees with itself

Every identifier the catalog in memory gives to an index was not in use, so no
two of its indexes share one (`Distinct`), and the catalog then finds every
index it lists, on the relation it lists it for. Registering hypothetical
objects borrows identifiers and leaves the indexes alone.
-/

namespace WhatIf

theorem orError_eq_ok_iff {α ε : Type} {found : Option α} {e : ε} {a : α} :
    orError found e = .ok a ↔ found = some a := by
  cases found with
  | none => simp [orError]
  | some b => simp [orError]

namespace MemoryCatalog

variable {c c' : MemoryCatalog} {oid relid : Oid}

/-- A relation that is found is the one that was asked for. -/
theorem oid_of_relation {r : Relation} (h : Catalog.relation c oid = .ok r) : r.oid = oid := by
  have hfound : c.relations.find? (fun r => r.oid == oid) = some r := orError_eq_ok_iff.1 h
  simpa using List.find?_some hfound

/-- Where relations have identifiers of their own, exactly the one of an identifier is
found by it. -/
theorem relation_iff_of_nodup {r : Relation} (h : (c.relations.map fun r => r.oid).Nodup) :
    Catalog.relation c oid = .ok r ↔ r ∈ c.relations ∧ r.oid = oid :=
  orError_eq_ok_iff.trans (find?_iff_of_nodup h)

/-- A relation that is found by its name is listed. -/
theorem mem_of_relationNamed {r : Relation} {name : String}
    (h : Catalog.relationNamed c name = .ok r) : r ∈ c.relations := by
  obtain ⟨o, -, hfound⟩ := Option.bind_eq_some_iff.1 (orError_eq_ok_iff.1 h)
  exact List.mem_of_find?_eq_some hfound

/-- That no two indexes share an identifier. -/
def Distinct (c : MemoryCatalog) : Prop := (c.indexes.map fun i => i.oid).Nodup

/-- **A catalog without shared identifiers agrees with itself.** -/
theorem Distinct.coherent (h : c.Distinct) : Catalog.Coherent c where
  relation_oid _ _ := oid_of_relation
  index_of_listed relid is his i hi := by
    have hlist : c.indexesOn relid = .ok is := his
    unfold indexesOn at hlist
    split at hlist
    · cases hlist
    · obtain rfl := Except.ok.inj hlist
      obtain ⟨hmem, hrelid⟩ := List.mem_filter.1 hi
      have hfound : c.findIndex? i.oid = some i := (find?_iff_of_nodup h).2 ⟨hmem, rfl⟩
      exact ⟨i, orError_eq_ok_iff.2 hfound, beq_iff_eq.1 hrelid⟩

/-! ## Identifiers -/

theorem isUsed_iff : c.isUsed oid = true ↔
    (∃ r ∈ c.relations, r.oid = oid) ∨ ∃ i ∈ c.indexes, i.oid = oid := by
  rw [isUsed, Bool.or_eq_true, find?, findIndex?, List.find?_isSome, List.find?_isSome]
  simp only [beq_iff_eq]

theorem isUsed_of_search {fuel : Nat} {from' : Oid} (h : (c.search from' fuel).1 = some oid) :
    c.isUsed oid = false := by
  induction fuel generalizing from' with
  | zero => cases h
  | succ fuel ih =>
    rw [search] at h
    split at h
    · exact ih h
    · rename_i hfree
      obtain rfl := Option.some.inj h
      simpa using hfree

/-- **Taking an identifier** moves the counter, to where the search for one ends,
and nothing else. -/
theorem take_snd (c : MemoryCatalog) : c.take.2 = { c with next := (c.search c.next span).2 } := by
  unfold take
  split
  · rename_i heq
    rw [heq]
  · rename_i heq
    rw [heq]

/-- What is taken was not in use. -/
theorem isUsed_of_take (h : c.take.1 = .ok oid) : c.isUsed oid = false := by
  unfold take at h
  split at h
  · rename_i heq
    obtain rfl := Except.ok.inj h
    exact isUsed_of_search (congrArg Prod.fst heq)
  · cases h

theorem take_indexes (c : MemoryCatalog) : c.take.2.indexes = c.indexes := by
  rw [take_snd]

/-- An index is entered between others, which stay in order. -/
theorem enterIndex_eq (i : PhysicalIndex) (is : List PhysicalIndex) :
    ∃ before after, is = before ++ after ∧ enterIndex i is = before ++ i :: after := by
  induction is with
  | nil => exact ⟨[], [], rfl, rfl⟩
  | cons j is ih =>
    rw [enterIndex]
    split
    · exact ⟨[], j :: is, rfl, rfl⟩
    · obtain ⟨before, after, rfl, heq⟩ := ih
      exact ⟨j :: before, after, rfl, by rw [heq]; rfl⟩

theorem enterIndex_perm (i : PhysicalIndex) (is : List PhysicalIndex) :
    (enterIndex i is).Perm (i :: is) := by
  obtain ⟨before, after, rfl, heq⟩ := enterIndex_eq i is
  rw [heq]
  exact List.perm_middle

/-! ## What keeps the indexes apart -/

theorem distinct_startingAt (oid : Oid) : (startingAt oid).Distinct := List.nodup_nil

/-- Only the indexes matter. -/
theorem Distinct.of_indexes (hc : c.Distinct) (h : c'.indexes = c.indexes) : c'.Distinct := by
  unfold Distinct
  rw [h]
  exact hc

theorem createTable_indexes (c : MemoryCatalog) (t : NewTable) :
    (c.createTable t).2.indexes = c.indexes := by
  have htake := c.take_indexes
  unfold createTable
  split
  · rfl
  · rcases ht : c.take with ⟨e | oid, c₁⟩
    · rw [ht] at htake
      exact htake
    · rw [ht] at htake
      exact htake

/-- A new index has an identifier that no other has. -/
theorem Distinct.createIndex (hc : c.Distinct) (relid : Oid) (name : String) (m : AccessMethod)
    (columns : List String) (unique : Bool) :
    (c.createIndex relid name m columns unique).2.Distinct := by
  have hindexes := c.take_indexes
  unfold MemoryCatalog.createIndex
  split
  · exact hc
  split
  · exact hc
  rcases ht : c.take with ⟨e | oid, c₁⟩
  · rw [ht] at hindexes
    exact hc.of_indexes hindexes
  have hfree : c.isUsed oid = false := isUsed_of_take (congrArg Prod.fst ht)
  -- an index that had the identifier would have kept it from being taken
  have hnew : oid ∉ c.indexes.map fun i => i.oid := by
    intro hmem
    obtain ⟨i, hi, hoid⟩ := List.mem_map.1 hmem
    have hsome : (c.findIndex? oid).isSome := List.find?_isSome.2 ⟨i, hi, beq_iff_eq.2 hoid⟩
    rw [isUsed, hsome, Bool.or_true] at hfree
    cases hfree
  rw [ht] at hindexes
  refine ((enterIndex_perm _ _).map _).nodup_iff.2 (List.nodup_cons.2 ⟨?_, ?_⟩)
  · rw [hindexes]
    exact hnew
  · rw [hindexes]
    exact hc

theorem inherit_indexes (c : MemoryCatalog) (parent child : Oid) :
    (c.inherit parent child).2.indexes = c.indexes := by
  unfold inherit
  split
  · rfl
  · split
    · rfl
    · rfl

theorem lend_indexes (c : MemoryCatalog) (relid : Oid) : (c.lend relid).2.indexes = c.indexes := by
  unfold lend
  split
  · rfl
  · exact c.take_indexes

/-- A catalog that holds relations and nothing else. -/
def holding (next : Oid) (relations : List Relation) : MemoryCatalog where
  next := next
  relations := relations
  names := relations.map fun r => (Text.lower r.name, r.oid)
  indexes := []
  links := []

end MemoryCatalog

/-! ## Registration -/

namespace Extension

variable {x : Extension} {relid : Oid}

theorem registerIndex_indexes (c : MemoryCatalog) (spec : IndexSpec) :
    (x.registerIndex c relid spec).2.2.indexes = c.indexes :=
  registerIndex_keeps (P := fun c' : MemoryCatalog => c'.indexes = c.indexes)
    (fun c' relid h => (c'.lend_indexes relid).trans h) rfl spec

theorem registerTable_indexes (c : MemoryCatalog) (l : Layout) :
    (x.registerTable c relid l).2.2.indexes = c.indexes :=
  registerTable_keeps (P := fun c' : MemoryCatalog => c'.indexes = c.indexes)
    (fun c' relid h => (c'.lend_indexes relid).trans h) rfl l

end Extension

end WhatIf
