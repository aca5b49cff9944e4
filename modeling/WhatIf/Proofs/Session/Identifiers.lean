import WhatIf.Proofs.Session.World
import WhatIf.Proofs.Shadow.Refinement
import WhatIf.Proofs.Catalog.Counter
/-!
# Session — identifiers are shared only once the counter has gone round

Over a catalog in memory the identifiers of hypothetical objects are distinct,
and none is that of a table or an index, as long as the calls have not made
more requests than the counter has steps (`identifiers_distinct`). The bound is
sharp: with one request more, an index that is still registered and a table
that is created last go by one identifier (`identifier_shared`). The counter
passes over what is in use, but not over what is lent out.
-/

namespace WhatIf

/-- What is shadowed after a registration was so before, or is the relation that was
looked up. -/
theorem Extension.isShadowed_registerTable {σ : Type} [Catalog σ] {x : Extension} {c : σ}
    {relid oid : Oid} {l : Layout}
    (h : (x.registerTable c relid l).2.1.registry.isShadowed oid = true) :
    x.registry.isShadowed oid = true ∨ ∃ r, Catalog.relation c relid = .ok r ∧ r.oid = oid := by
  rcases x.registerTable_cases c relid l with ⟨e, c', heq⟩ |
    ⟨r, t, below, g', ids', c', hr, -, -, htree, -, hinsert, -, -, -, heq⟩
  · rw [heq] at h
    exact Or.inl h
  · rw [heq] at h
    refine ((Registry.isShadowed_insertTree? hinsert oid).1 h).symm.imp id fun hoid => ⟨r, hr, ?_⟩
    rw [hoid, (htree.linked.linkedAt t t.self_mem_subtrees).relid]

namespace World

open MemoryCatalog

/-- How often a call asks the catalog for an identifier, at most. -/
def Call.requests : Call → Nat
  | .createTable _ => 1
  | .createIndex _ _ _ _ _ => 1
  | .registerIndex _ _ => 1
  | .registerTable _ l => l.size
  | _ => 0

/-- The identifiers of all hypothetical objects. -/
def identifiers (w : World) : List Oid :=
  (w.extension.listIndexes.map fun i => i.oid) ++ w.extension.listTables.map fun n => n.oid

/-- **What every call keeps until the counter has gone round**: everything
handed out lies behind the counter, and the extension keeps an inventory and
shadows what exists. -/
structure Counted (w : World) (start : Oid) (k : Nat) : Prop where
  behind : w.catalog.Behind w.extension.ids start k
  reflects : ∃ v, w.extension.Reflects v
  isUsed : ∀ relid, w.extension.registry.isShadowed relid = true → w.catalog.isUsed relid = true

variable {w : World} {start : Oid} {k : Nat}

/-- **The identifiers of a counted world** are distinct, valid, and not in use. -/
theorem Counted.identifiers (h : w.Counted start k)
    (hstart : Oid.firstNormal.word.toNat ≤ start.word.toNat) :
    w.identifiers.Nodup ∧
      ∀ oid ∈ w.identifiers, oid.isValid = true ∧ w.catalog.isUsed oid = false := by
  obtain ⟨v, hv⟩ := h.reflects
  have hshows := hv.shows
  have hperm : w.identifiers.Perm v.oids := by
    rw [World.identifiers, hshows.listIndexes, Inventory.oids, ← v.map_nodes]
    exact (hshows.listTables_perm.map _).append_left _
  refine ⟨hperm.nodup_iff.2 hshows.oids_nodup, fun oid hoid => ?_⟩
  have hissued := (hshows.isIssued_iff oid).2 (hperm.mem_iff.1 hoid)
  obtain ⟨j, -, rfl⟩ := h.behind.issued oid hissued
  exact ⟨Oid.isValid_iterate_next hstart j, h.behind.apart _ hissued⟩

/-! ## One call -/

/-- A call that creates an object in the catalog. -/
theorem Counted.create (hstart : Oid.firstNormal.word.toNat ≤ start.word.toNat)
    (h : w.Counted start k) (hk : k < span) {result : Except CatalogError Oid × MemoryCatalog}
    (hresult : (∃ e, result = (.error e, w.catalog)) ∨ ∃ c', result = (.ok w.catalog.next, c') ∧
      c'.next = w.catalog.advance.next ∧
        ∀ o, c'.isUsed o = true ↔ o = w.catalog.next ∨ w.catalog.isUsed o = true) :
    ∃ k' ≤ k + 1, Counted { w with catalog := result.2 } start k' := by
  rcases hresult with ⟨e, rfl⟩ | ⟨c', rfl, hnext, hused⟩
  · exact ⟨k, Nat.le_succ k, h⟩
  · obtain ⟨v, hv⟩ := h.reflects
    exact ⟨k + 1, le_refl _, h.behind.create hstart hk hnext hused, ⟨v, hv⟩,
      fun relid hrelid => (hused relid).2 (Or.inr (h.isUsed relid hrelid))⟩

/-- A catalog in memory finds the relation it is asked for, which is in use. -/
theorem isUsed_of_relation {c : MemoryCatalog} {relid : Oid} {r : Relation}
    (h : Catalog.relation c relid = .ok r) : r.oid = relid ∧ c.isUsed relid = true := by
  have hfound : c.relations.find? (fun r => r.oid == relid) = some r := orError_eq_ok_iff.1 h
  have hoid : r.oid = relid := MemoryCatalog.oid_of_relation h
  exact ⟨hoid, isUsed_iff.2 (Or.inl ⟨r, List.mem_of_find?_eq_some hfound, hoid⟩)⟩

/-- Where no tree is added, what is shadowed is still in use. -/
theorem Counted.isUsed_of_trees (h : w.Counted start k) {x : Extension} {v v' : Inventory}
    (hv : w.extension.Reflects v) (hx : x.Reflects v') (htrees : ∀ t ∈ v'.trees, t ∈ v.trees)
    (relid : Oid) (hshadowed : x.registry.isShadowed relid = true) :
    w.catalog.isUsed relid = true := by
  obtain ⟨t, ht, hrelid⟩ := hx.holds.isShadowed_iff.1 hshadowed
  exact h.isUsed relid (hv.holds.isShadowed_iff.2 ⟨t, htrees t ht, hrelid⟩)

/-- A registration, which changes the counter alone in the catalog. -/
theorem Counted.register {x : Extension} {c' : MemoryCatalog} {n : Nat} {v : Inventory}
    (hasked : Extension.AskedFor w.catalog start k n x.ids c') (hx : x.Reflects v)
    (hused : ∀ relid, x.registry.isShadowed relid = true → w.catalog.isUsed relid = true) :
    ∃ k' ≤ k + n, Counted { w with extension := x, catalog := c' } start k' := by
  obtain ⟨hc, k', hk', hbehind⟩ := hasked
  refine ⟨k', hk', hbehind, ⟨v, hx⟩, fun relid hshadowed => ?_⟩
  have hbefore := hused relid hshadowed
  rw [hc]
  exact hbefore

/-- **One call moves the counter no further than its requests**, and leaves
everything handed out behind it. -/
theorem Counted.perform (hstart : Oid.firstNormal.word.toNat ≤ start.word.toNat)
    (h : w.Counted start k) (call : Call) (hk : k + call.requests ≤ span) :
    ∃ k' ≤ k + call.requests, (w.perform call).Counted start k' := by
  obtain ⟨v, hv⟩ := h.reflects
  cases call with
  | createTable t =>
    exact h.create hstart hk (h.behind.createTable hstart hk t)
  | createIndex relid name m columns unique =>
    exact h.create hstart hk (h.behind.createIndex hstart hk relid name m columns unique)
  | inherit parent child =>
    refine ⟨k, le_refl _, ?_⟩
    show Counted { w with catalog := (w.catalog.inherit parent child).2 } start k
    unfold MemoryCatalog.inherit
    split
    · exact h
    · split
      · exact h
      · exact ⟨⟨h.behind.next, h.behind.used, h.behind.issued, h.behind.apart⟩, ⟨v, hv⟩, h.isUsed⟩
  | registerIndex relid spec =>
    obtain ⟨v', hstep, hv'⟩ := hv.registerIndex w.catalog relid spec
    refine Counted.register (Extension.registerIndex_askedFor hstart h.behind hk spec) hv'
      (h.isUsed_of_trees hv hv' fun t ht => ?_)
    generalize (w.extension.perform (.registerIndex w.catalog relid spec)).1 = answer at hstep
    cases hstep with
    | indexRefused => exact ht
    | indexRegistered => exact ht
  | registerTable relid l =>
    have hasked := @Extension.registerTable_askedFor _ _ _ relid _ hstart h.behind l hk
    have hused : ∀ oid,
        (w.extension.registerTable w.catalog relid l).2.1.registry.isShadowed oid = true →
          w.catalog.isUsed oid = true := by
      intro oid hshadowed
      rcases Extension.isShadowed_registerTable hshadowed with hbefore | ⟨r, hr, rfl⟩
      · exact h.isUsed oid hbefore
      · obtain ⟨hoid, hin⟩ := isUsed_of_relation hr
        rwa [hoid]
    -- what is shadowed is in use, and nothing issued is
    obtain ⟨v', -, hv'⟩ := hv.registerTable w.catalog relid l
      (fun r hr => MemoryCatalog.oid_of_relation hr) (fun oid hissued => by
        refine Bool.eq_false_iff.2 fun hshadowed => ?_
        obtain ⟨hc, k', -, hbehind⟩ := hasked
        have hfree := hbehind.apart oid hissued
        rw [hc] at hfree
        exact absurd (hfree.symm.trans (hused oid hshadowed)) (by decide))
    exact Counted.register hasked hv' hused
  | dropIndex oid =>
    have hv' := (hv.dropIndex oid).2
    refine ⟨k, le_refl _, ?_, ⟨_, hv'⟩, h.isUsed_of_trees hv hv' fun t ht => ht⟩
    show w.catalog.Behind (w.extension.dropIndex oid).2.ids start k
    unfold Extension.dropIndex
    split
    · exact h.behind
    · exact h.behind.release oid
  | dropTable oid =>
    have hv' := (hv.dropTable oid).2
    refine ⟨k, le_refl _, ?_, ⟨_, hv'⟩,
      h.isUsed_of_trees hv hv' fun t ht => List.mem_of_mem_filter ht⟩
    show w.catalog.Behind (w.extension.dropTable oid).2.ids start k
    unfold Extension.dropTable
    split
    · exact h.behind
    · exact h.behind.foldl_release _
  | resetAll =>
    obtain ⟨v', -, hv'⟩ := hv.perform (σ := MemoryCatalog) .resetAll trivial
      (fun oid hissued => by cases hissued)
    exact ⟨k, le_refl _, h.behind.reset, ⟨v', hv'⟩, nofun⟩
  | setEnabled b => exact ⟨k, le_refl _, h.behind, ⟨v, hv.holds, hv.isIssued_iff⟩, h.isUsed⟩
  | execute s => exact ⟨k, le_refl _, h.behind, ⟨v, hv⟩, h.isUsed⟩

/-! ## Runs -/

theorem counted_fresh (oid : Oid) (enabled : Bool) (settings : Settings) :
    (fresh oid enabled settings).Counted (startingAt oid).next 0 :=
  ⟨behind_startingAt oid, ⟨.empty, Extension.reflects_fresh enabled⟩, nofun⟩

/-- Calls move the counter no further than all their requests. -/
theorem Counted.foldl_perform (hstart : Oid.firstNormal.word.toNat ≤ start.word.toNat)
    (h : w.Counted start k) (calls : List Call) (hk : k + (calls.map Call.requests).sum ≤ span) :
    ∃ k' ≤ k + (calls.map Call.requests).sum, (calls.foldl World.perform w).Counted start k' := by
  induction calls generalizing w k with
  | nil => exact ⟨k, le_refl _, h⟩
  | cons call calls ih =>
    rw [List.map_cons, List.sum_cons] at hk ⊢
    obtain ⟨k₁, hk₁, h₁⟩ := h.perform hstart call (by omega)
    obtain ⟨k₂, hk₂, h₂⟩ := ih h₁ (by omega)
    exact ⟨k₂, by omega, h₂⟩

/-- **Until the counter has gone round, no identifier is shared.** After calls
that make at most as many requests as the counter has steps, the identifiers of
all hypothetical objects are distinct, valid, and not in use. -/
theorem identifiers_distinct (oid : Oid) (enabled : Bool) (settings : Settings)
    (calls : List Call) (h : (calls.map Call.requests).sum ≤ span) :
    (calls.foldl perform (fresh oid enabled settings)).identifiers.Nodup ∧
      ∀ o ∈ (calls.foldl perform (fresh oid enabled settings)).identifiers, o.isValid = true ∧
        (calls.foldl perform (fresh oid enabled settings)).catalog.isUsed o = false := by
  have hstart := firstNormal_le_next_startingAt oid
  obtain ⟨k, -, hcounted⟩ := (counted_fresh oid enabled settings).foldl_perform hstart calls
    (by omega)
  exact hcounted.identifiers hstart

/-- A table with one column. -/
def oneColumn (name : String) : NewTable :=
  ⟨name, .relation, .permanent, [⟨⟨1⟩, "id", .int4, true, none⟩], 10, 100.0⟩

/-- Objects of every kind, over a table that has the last identifier: an index,
a tree, an index in the catalog, and an index whose registration fails. -/
def mixedCalls : List Call :=
  [.createTable (oneColumn "orders"), .registerIndex Oid.last (.onColumns .btree ["id"]),
    .registerTable Oid.last
      ((Layout.blank .range ["id"]).add (.ofRange "low" .minValue (.value (.int 0)))),
    .createIndex Oid.last "orders_id" .btree ["id"] true,
    .registerIndex Oid.last (.onColumns .btree [])]

theorem identifiers_distinct_mixedCalls :
    (mixedCalls.map Call.requests).sum ≤ span ∧
      ((mixedCalls.foldl perform (fresh Oid.last true .standard)).identifiers.map fun o => o.word) =
        [16384, 16385, 16386] ∧
      (mixedCalls.foldl perform (fresh Oid.last true .standard)).identifiers.Nodup := by
  have hrequests : (mixedCalls.map Call.requests).sum ≤ span := by decide
  refine ⟨hrequests, ?_, (identifiers_distinct Oid.last true .standard mixedCalls hrequests).1⟩
  decide +kernel

/-! ## Past the end -/

/-- A registration that fails for its index moves the counter one step on, and
changes nothing else. -/
theorem perform_registerIndex_failed (hstart : Oid.firstNormal.word.toNat ≤ start.word.toNat)
    (h : w.catalog.Behind w.extension.ids start k) (hk : k < span) {relid : Oid} {r : Relation}
    {spec : IndexSpec} (hr : w.catalog.find? relid = some r)
    (hbuild : ∀ oid, ∃ e, HypotheticalIndex.build oid r spec = .error e) :
    w.perform (.registerIndex relid spec) = { w with catalog := w.catalog.advance } := by
  have htarget : Extension.findTarget w.catalog relid = .ok r := by
    have hlookup : Catalog.relation w.catalog relid = .ok r := by
      show orError (w.catalog.find? relid) _ = _
      rw [hr]
      rfl
    rw [Extension.findTarget, hlookup]
  obtain ⟨e, he⟩ := hbuild w.catalog.next
  have hfresh : w.catalog.next ∉ w.extension.ids.issued := by
    rw [← ShadowIds.isIssued_iff, h.isIssued_next hstart hk]
    decide
  rcases h.allocate hstart hk relid with ⟨hnone, -⟩ | hallocate
  · rw [hr] at hnone
    cases hnone
  · have hregister : w.extension.registerIndex w.catalog relid spec =
        (.error (.registry e), w.extension, w.catalog.advance) := by
      unfold Extension.registerIndex
      rw [htarget]
      dsimp only
      rw [hallocate]
      dsimp only
      rw [he]
      dsimp only
      rw [ShadowIds.release_cons hfresh]
    rw [World.perform, hregister]

/-- So many of them move it as many steps. -/
theorem foldl_registerIndex_failed (hstart : Oid.firstNormal.word.toNat ≤ start.word.toNat)
    (h : w.catalog.Behind w.extension.ids start k) {n : Nat} (hk : k + n ≤ span) {relid : Oid}
    {r : Relation} {spec : IndexSpec} (hr : w.catalog.find? relid = some r)
    (hbuild : ∀ oid, ∃ e, HypotheticalIndex.build oid r spec = .error e) :
    (List.replicate n (Call.registerIndex relid spec)).foldl perform w =
      { w with catalog := { w.catalog with next := Oid.next^[n] w.catalog.next } } := by
  induction n generalizing w k with
  | zero => rfl
  | succ n ih =>
    rw [List.replicate_succ, List.foldl_cons,
      perform_registerIndex_failed hstart h (by omega) hr hbuild,
      ih (w := { w with catalog := w.catalog.advance }) h.advance (by omega) hr]
    rfl

/-- A table, an index on it, so many registrations that fail, and one table
more. -/
def goingRound (n : Nat) : List Call :=
  [.createTable (oneColumn "orders"), .registerIndex Oid.firstNormal (.onColumns .btree ["id"])] ++
    List.replicate n (.registerIndex Oid.firstNormal (.onColumns .btree [])) ++
      [.createTable (oneColumn "lines")]

theorem requests_goingRound (n : Nat) : ((goingRound n).map Call.requests).sum = n + 3 := by
  rw [goingRound, List.map_append, List.map_append, List.sum_append, List.sum_append,
    List.map_replicate, List.sum_replicate]
  show 2 + n * 1 + 1 = n + 3
  omega

/-- What there is before the failures. -/
def beforeRound : World :=
  (fresh Oid.firstNormal true .standard).perform (.createTable (oneColumn "orders")) |>.perform
    (.registerIndex Oid.firstNormal (.onColumns .btree ["id"]))

theorem behind_beforeRound :
    beforeRound.catalog.Behind beforeRound.extension.ids Oid.firstNormal 2 where
  next := rfl
  used oid hused := by
    rcases isUsed_iff.1 hused with ⟨r, hr, rfl⟩ | ⟨i, hi, -⟩
    · rw [List.mem_singleton.1 hr]
      exact ⟨0, by decide, rfl⟩
    · cases hi
  issued oid hissued := by
    rw [List.mem_singleton.1 (ShadowIds.isIssued_iff.1 hissued)]
    exact ⟨1, by decide, rfl⟩
  apart oid hissued := by
    rw [List.mem_singleton.1 (ShadowIds.isIssued_iff.1 hissued)]
    rfl

theorem foldl_goingRound (n : Nat) :
    (goingRound n).foldl perform (fresh Oid.firstNormal true .standard) =
      ((List.replicate n (Call.registerIndex Oid.firstNormal (.onColumns .btree []))).foldl perform
        beforeRound).perform (.createTable (oneColumn "lines")) := by
  rw [goingRound, List.foldl_append, List.foldl_append]
  rfl

/-- After all failures the counter stands where it started. -/
theorem iterate_next_beforeRound {n : Nat} (h : n + 2 = span) :
    Oid.next^[n] beforeRound.catalog.next = Oid.firstNormal := by
  rw [behind_beforeRound.next, ← Function.iterate_add_apply, h]
  exact Oid.iterate_next_span (le_refl _)

/-- **One request past the end, an identifier is shared**: that of the index is
in use in the catalog, for the table created last. -/
theorem identifier_shared :
    ∃ calls : List Call, (calls.map Call.requests).sum = span + 1 ∧
      ∃ oid ∈ (calls.foldl perform (fresh Oid.firstNormal true .standard)).identifiers,
        (calls.foldl perform (fresh Oid.firstNormal true .standard)).catalog.isUsed oid = true := by
  obtain ⟨n, hn⟩ : ∃ n, n + 2 = span := ⟨4294950910, rfl⟩
  have hfailed : (List.replicate n (Call.registerIndex Oid.firstNormal
      (.onColumns .btree []))).foldl perform beforeRound = _ :=
    foldl_registerIndex_failed (le_refl _) behind_beforeRound (by omega) rfl fun oid => ⟨_, rfl⟩
  rw [iterate_next_beforeRound hn] at hfailed
  refine ⟨goingRound n, by rw [requests_goingRound]; omega, ⟨16385⟩, ?_⟩
  rw [foldl_goingRound, hfailed]
  exact ⟨by decide +kernel, by decide +kernel⟩

end World

end WhatIf
