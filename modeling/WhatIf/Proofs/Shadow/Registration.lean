import WhatIf.Shadow.Extension
import WhatIf.Proofs.Registry.Issuing
import WhatIf.Proofs.Partition.Planting
/-!
# Shadow — registration, as a whole or not at all

What a registration did, read off its answer. One that fails leaves the
extension as it was, whatever identifiers were drawn on the way: they are all
returned. One that succeeds has drawn identifiers that nothing had.
-/

namespace WhatIf

variable {σ : Type} [Catalog σ]

namespace ShadowIds

variable {ids ids' : ShadowIds} {relid oid : Oid} {c c' : σ} {e : RegistryError}

theorem isIssued_iff : ids.isIssued oid = true ↔ oid ∈ ids.issued := List.contains_iff_mem

/-- **What issuing an identifier does**: it was not issued before. -/
theorem allocate_ok (h : ids.allocate relid c = (.ok oid, ids', c')) :
    oid ∉ ids.issued ∧ ids' = ⟨oid :: ids.issued⟩ := by
  have hout := outcome_allocate ids relid c
  rw [h] at hout
  cases hout with
  | issued _ _ _ husable => exact ⟨husable.2.1, rfl⟩

/-- Failing to issue one does nothing. -/
theorem allocate_error (h : ids.allocate relid c = (.error e, ids', c')) : ids' = ids := by
  have hout := outcome_allocate ids relid c
  rw [h] at hout
  cases hout with
  | refused => rfl
  | exhausted => rfl

/-- Returning what was just issued. -/
theorem release_cons (h : oid ∉ ids.issued) : release ⟨oid :: ids.issued⟩ oid = ids := by
  have hrest : ids.issued.filter (fun o => o ≠ oid) = ids.issued :=
    List.filter_eq_self.2 fun o ho => by
      rw [decide_eq_true_eq]
      rintro rfl
      exact h ho
  rw [release, List.filter_cons_of_neg (by simp), hrest]

/-- Returning several. -/
theorem foldl_release (oids : List Oid) :
    (oids.foldl release ids).issued = ids.issued.filter fun o => o ∉ oids := by
  induction oids generalizing ids with
  | nil => simp
  | cons oid oids ih =>
    rw [List.foldl_cons, ih, release, List.filter_filter]
    refine List.filter_congr fun o _ => ?_
    rw [Bool.eq_iff_iff]
    simp only [Bool.and_eq_true, decide_eq_true_eq, List.mem_cons, not_or]
    exact and_comm

/-- What is issued after some identifiers were drawn: those, and what was
issued before, none of it twice. -/
def Drew (ids : ShadowIds) (st : List Oid × ShadowIds × σ) : Prop :=
  st.2.1.issued = st.1.reverse ++ ids.issued ∧ st.1.Nodup ∧ ∀ o ∈ st.1, o ∉ ids.issued

/-- Each draw keeps that. -/
theorem keeps_drew (ids : ShadowIds) (relid : Oid) :
    Layout.Keeps (@Drew σ ids) (Layout.drawOne (Extension.drawFor relid)) := by
  rintro ⟨drawn, ids₁, c₁⟩ ⟨drawn', ids', c'⟩ x ⟨hissued, hnodup, hnew⟩ h
  unfold Layout.drawOne at h
  dsimp only at h
  rcases hd : Extension.drawFor relid (ids₁, c₁) with ⟨_ | oid, ids₂, c₂⟩
  · rw [hd] at h
    cases h
    obtain rfl := allocate_error hd
    exact ⟨hissued, hnodup, hnew⟩
  · rw [hd] at h
    cases h
    obtain ⟨hfresh, rfl⟩ := allocate_ok hd
    dsimp only at hissued hfresh
    rw [hissued, List.mem_append, List.mem_reverse, not_or] at hfresh
    refine ⟨?_, ?_, ?_⟩
    · simp [hissued]
    · rw [List.nodup_append_comm, List.singleton_append, List.nodup_cons]
      exact ⟨hfresh.1, hnodup⟩
    · intro o ho
      rcases List.mem_append.1 ho with ho | ho
      · exact hnew o ho
      · exact List.mem_singleton.1 ho ▸ hfresh.2

omit [Catalog σ] in
/-- Returning all that were drawn leaves what was issued before. -/
theorem Drew.release {drawn : List Oid} (h : Drew ids (drawn, ids', c)) :
    drawn.foldl ShadowIds.release ids' = ids := by
  obtain ⟨hissued, -, hnew⟩ := h
  -- none of what was drawn is left, and all of what was issued before is
  have hdrawn : drawn.reverse.filter (fun o => o ∉ drawn) = [] :=
    List.filter_eq_nil_iff.2 fun o ho => by simpa using List.mem_reverse.1 ho
  have hold : ids.issued.filter (fun o => o ∉ drawn) = ids.issued :=
    List.filter_eq_self.2 fun o ho => by
      rw [decide_eq_true_eq]
      exact fun hmem => hnew o hmem ho
  have heq : (drawn.foldl ShadowIds.release ids').issued = ids.issued := by
    rw [foldl_release, hissued, List.filter_append, hdrawn, hold, List.nil_append]
  exact congrArg ShadowIds.mk heq

end ShadowIds

namespace Extension

variable {x : Extension} {c : σ} {relid : Oid} {r : Relation} {l : Layout} {spec : IndexSpec}

/-! ## Indexes -/

/-- An index has the identifier it is built for. -/
theorem build_oid {oid : Oid} {i : HypotheticalIndex}
    (h : HypotheticalIndex.build oid r spec = .ok i) : i.oid = oid := by
  unfold HypotheticalIndex.build at h
  split at h
  · cases h
  · simp only [bind, Except.bind] at h
    split at h
    · cases h
    · split at h
      · cases h
      · split at h
        · cases h
        · cases h
          rfl

/-- **What registering an index does**: nothing, or it adds an index built for
an identifier that was not issued. -/
theorem registerIndex_cases (x : Extension) (c : σ) (relid : Oid) (spec : IndexSpec) :
    (∃ e c', x.registerIndex c relid spec = (.error e, x, c')) ∨
    ∃ r i c', Catalog.relation c relid = .ok r ∧ HypotheticalIndex.build i.oid r spec = .ok i ∧
      i.oid ∉ x.ids.issued ∧ x.registerIndex c relid spec =
        (.ok i.oid,
          { x with ids := ⟨i.oid :: x.ids.issued⟩, registry := x.registry.insertIndex i }, c') := by
  unfold registerIndex findTarget
  rcases Catalog.relation c relid with e | r
  · exact Or.inl ⟨_, _, rfl⟩
  dsimp only
  rcases ha : x.ids.allocate relid c with ⟨e | oid, ids, c₁⟩
  · obtain rfl := ShadowIds.allocate_error ha
    exact Or.inl ⟨_, _, rfl⟩
  obtain ⟨hfresh, rfl⟩ := ShadowIds.allocate_ok ha
  dsimp only
  rcases hb : HypotheticalIndex.build oid r spec with e | i
  · refine Or.inl ⟨.registry e, c₁, ?_⟩
    dsimp only
    rw [ShadowIds.release_cons hfresh]
  · obtain rfl := build_oid hb
    exact Or.inr ⟨r, i, c₁, rfl, hb, hfresh, rfl⟩

/-! ## Trees -/

/-- **What planting a tree does**: nothing, or it adds the nodes of a tree for
the layout under identifiers that were not issued. -/
theorem plantTree_cases (x : Extension) (c : σ) (relid : Oid) (r : Relation) (l : Layout) :
    (∃ e c', x.plantTree c relid r l = (.error e, x, c')) ∨
    ∃ t below g' ids' c', l.IsTree r t ∧ (t.node :: below).Perm t.nodes ∧
      x.registry.insertTree? (t.node :: below) = some (t.oid, g') ∧
      t.oids.Nodup ∧ (∀ o ∈ t.oids, o ∉ x.ids.issued) ∧
      (∀ o, o ∈ ids'.issued ↔ o ∈ t.oids ∨ o ∈ x.ids.issued) ∧
      x.plantTree c relid r l = (.ok t.oid, { x with ids := ids', registry := g' }, c') := by
  unfold plantTree
  rcases hp : l.plant (drawFor relid) r ([], x.ids, c) with ⟨e | nodes, drawn, ids', c'⟩
  all_goals
    -- whether planting fails or not, these are the identifiers drawn on the way
    have hdrew : @ShadowIds.Drew σ x.ids (drawn, ids', c') :=
      Layout.keeps_plant (ShadowIds.keeps_drew x.ids relid) l
        ⟨rfl, List.nodup_nil, by simp⟩ hp
  · refine Or.inl ⟨.registry e, c', ?_⟩
    dsimp only
    rw [hdrew.release]
  · obtain ⟨t, htree, ⟨below, rfl⟩, hperm, rfl⟩ := Layout.plant_ok hp
    obtain ⟨hissued, hnodup, hnew⟩ := hdrew
    have hmem : ∀ o, o ∈ (t.node :: below).map (fun n => n.oid) ↔ o ∈ t.oids :=
      fun o => (hperm.map _).mem_iff
    refine Or.inr ⟨t, below, _, ids', c', htree, hperm, rfl, (hperm.map _).nodup_iff.1 hnodup,
      fun o ho => hnew o ((hmem o).2 ho), fun o => ?_, rfl⟩
    dsimp only at hissued
    rw [hissued, List.mem_append, List.mem_reverse, hmem]

/-- A relation that may be shadowed is not shadowed yet. -/
theorem isShadowed_of_checkTarget {x : Extension} (h : x.checkTarget c r relid = .ok ()) :
    x.registry.isShadowed relid = false := by
  unfold checkTarget at h
  split at h
  · split at h
    · cases h
    · split at h
      · cases h
      · split at h
        · cases h
        · rename_i hno
          simpa using hno
  · cases h
  · cases h

/-- **What shadowing a relation does**: nothing, or it adds the nodes of a tree
for a valid layout over a relation without one. -/
theorem registerTable_cases (x : Extension) (c : σ) (relid : Oid) (l : Layout) :
    (∃ e c', x.registerTable c relid l = (.error e, x, c')) ∨
    ∃ r t below g' ids' c', Catalog.relation c relid = .ok r ∧ l.validate r = .ok () ∧
      x.registry.isShadowed relid = false ∧ l.IsTree r t ∧ (t.node :: below).Perm t.nodes ∧
      x.registry.insertTree? (t.node :: below) = some (t.oid, g') ∧
      t.oids.Nodup ∧ (∀ o ∈ t.oids, o ∉ x.ids.issued) ∧
      (∀ o, o ∈ ids'.issued ↔ o ∈ t.oids ∨ o ∈ x.ids.issued) ∧
      x.registerTable c relid l = (.ok t.oid, { x with ids := ids', registry := g' }, c') := by
  unfold registerTable findTarget
  rcases Catalog.relation c relid with e | r
  · exact Or.inl ⟨_, _, rfl⟩
  dsimp only
  rcases hcheck : x.checkTarget c r relid with e | ⟨⟩
  · exact Or.inl ⟨_, _, rfl⟩
  dsimp only
  rcases hvalid : l.validate r with e | ⟨⟩
  · exact Or.inl ⟨_, _, rfl⟩
  dsimp only
  rcases x.plantTree_cases c relid r l with ⟨e, c', he⟩ | ⟨t, below, g', ids', c', hplanted⟩
  · exact Or.inl ⟨e, c', he⟩
  · exact Or.inr ⟨r, t, below, g', ids', c', rfl, hvalid, isShadowed_of_checkTarget hcheck,
      hplanted⟩

end Extension

/-! ## The catalog

Registration does nothing to a catalog but have it lend identifiers. -/

section Kept

variable {P : σ → Prop} {c : σ} {relid : Oid}
variable (hlend : ∀ (c : σ) relid, P c → P (Catalog.lend c relid).2)

include hlend

theorem ShadowIds.afterRequests_keeps (n : Nat) (h : P c) : P (afterRequests relid c n) := by
  induction n generalizing c with
  | zero => exact h
  | succ n ih => exact ih (hlend c relid h)

theorem ShadowIds.allocate_keeps {ids : ShadowIds} (h : P c) : P (ids.allocate relid c).2.2 := by
  have hout := outcome_allocate ids relid c
  generalize ids.allocate relid c = out at hout ⊢
  cases hout with
  | issued => exact afterRequests_keeps hlend _ h
  | refused => exact afterRequests_keeps hlend _ h
  | exhausted => exact afterRequests_keeps hlend _ h

namespace Extension

/-- **Registering an index keeps of a catalog** what lending an identifier
keeps. -/
theorem registerIndex_keeps {x : Extension} (h : P c) (spec : IndexSpec) :
    P (x.registerIndex c relid spec).2.2 := by
  unfold registerIndex
  split
  · exact h
  · have hkept : P (x.ids.allocate relid c).2.2 := ShadowIds.allocate_keeps hlend h
    rcases ha : x.ids.allocate relid c with ⟨e | oid, ids, c'⟩
    · rw [ha] at hkept
      exact hkept
    · rw [ha] at hkept
      dsimp only
      split
      · exact hkept
      · exact hkept

/-- So does shadowing a relation. -/
theorem registerTable_keeps {x : Extension} (h : P c) (l : Layout) :
    P (x.registerTable c relid l).2.2 := by
  have hone : Layout.Keeps (fun st : List Oid × ShadowIds × σ => P st.2.2)
      (Layout.drawOne (drawFor relid)) := by
    rintro ⟨drawn, ids, c₁⟩ ⟨drawn', ids', c'⟩ y hst h
    have hkept : P (ids.allocate relid c₁).2.2 := ShadowIds.allocate_keeps hlend hst
    unfold Layout.drawOne at h
    dsimp only at h
    rcases hd : drawFor relid (ids, c₁) with ⟨e | oid, ids₂, c₂⟩
    all_goals
      have hd' : ids.allocate relid c₁ = (_, ids₂, c₂) := hd
      rw [hd'] at hkept
      rw [hd] at h
      cases h
      exact hkept
  unfold registerTable
  split
  · exact h
  · split
    · exact h
    · split
      · exact h
      · rename_i r _ _ _ _ _
        unfold plantTree
        rcases hp : l.plant (drawFor relid) r ([], x.ids, c) with ⟨e | nodes, drawn, ids', c'⟩
        all_goals have hkept : P c' := Layout.keeps_plant hone l h hp
        · exact hkept
        · dsimp only
          split
          · exact hkept
          · exact hkept

end Extension

end Kept

end WhatIf
