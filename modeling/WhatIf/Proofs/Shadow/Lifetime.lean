import WhatIf.Proofs.Shadow.Refinement
/-!
# Shadow — what is registered stays until it is dropped

A tree that a call of a run has registered is still there at the end of the
run, unless a later call drops it or everything (`AdminCall.Spares`). Every
tree that is there is that of a layout some call registered.
-/

namespace WhatIf

variable {σ : Type} [Catalog σ]

/-- That a call does not drop the tree of a root over a relation. -/
def AdminCall.Spares (root relid : Oid) : AdminCall σ → Prop
  | dropTable oid => oid ≠ root ∧ oid ≠ relid
  | resetAll => False
  | _ => True

namespace Inventory

variable {v w : Inventory} {t : PartitionTree} {call : AdminCall σ} {answer : AdminAnswer}

/-- A call that spares a tree leaves it. -/
theorem Step.mem_trees (h : Step call answer v w) (hspares : call.Spares t.oid t.node.relid)
    (ht : t ∈ v.trees) : t ∈ w.trees := by
  cases h with
  | tableRegistered => exact List.mem_append_left _ ht
  | tableDropped =>
    refine List.mem_filter.2 ⟨ht, ?_⟩
    rw [PartitionTree.goesBy, beq_false_of_ne (Ne.symm hspares.1),
      beq_false_of_ne (Ne.symm hspares.2)]
    rfl
  | everythingDropped => exact hspares.elim
  | _ => exact ht

/-- **A tree that was registered**, and that no later call drops, is the tree of
its layout still. -/
theorem Run.exists_tree {before after : List (AdminCall σ × AdminAnswer)} {c : σ} {relid root : Oid}
    {l : Layout} {r : Relation}
    (h : Run (before ++ (.registerTable c relid l, .registered (.ok root)) :: after) v)
    (hr : Catalog.relation c relid = .ok r)
    (hspares : ∀ entry ∈ after, entry.1.Spares root r.oid) :
    ∃ t ∈ v.trees, t.oid = root ∧ l.IsTree r t ∧ l.validate r = .ok () := by
  generalize hlog : before ++
    (AdminCall.registerTable c relid l, AdminAnswer.registered (.ok root)) :: after = log at h
  induction h generalizing after with
  | start => exact absurd hlog (List.append_ne_nil_of_right_ne_nil _ (List.cons_ne_nil _ _))
  | step _ hstep ih =>
    rcases List.eq_nil_or_concat after with rfl | ⟨earlier, last, rfl⟩
    · -- the registration itself is the last call
      obtain ⟨-, hentry⟩ := List.append_inj' hlog rfl
      obtain ⟨rfl, rfl⟩ := Prod.mk.inj (List.cons.inj hentry).1
      cases hstep with
      | tableRegistered hr' hvalid _ htree _ =>
        obtain rfl := Except.ok.inj (hr.symm.trans hr')
        exact ⟨_, List.mem_append_right _ (List.mem_singleton_self _), rfl, htree, hvalid⟩
    · rw [List.concat_eq_append] at hlog hspares
      rw [← List.cons_append, ← List.append_assoc] at hlog
      obtain ⟨hearlier, hlast⟩ := List.append_inj' hlog rfl
      obtain ⟨t, ht, hroot, htree, hvalid⟩ :=
        ih (fun entry hentry => hspares entry (List.mem_append_left _ hentry)) hearlier
      have hspared := hspares last (List.mem_append_right _ (List.mem_singleton_self _))
      have hrelid : t.node.relid = r.oid := (htree.linked.linkedAt t t.self_mem_subtrees).relid
      rw [(List.cons.inj hlast).1, ← hroot, ← hrelid] at hspared
      exact ⟨t, hstep.mem_trees hspared ht, hroot, htree, hvalid⟩

/-- **Every tree is the tree of a valid layout.** -/
theorem Run.planted {log : List (AdminCall σ × AdminAnswer)} (h : Run log v) :
    ∀ t ∈ v.trees, ∃ (r : Relation) (l : Layout), l.validate r = .ok () ∧ l.IsTree r t := by
  induction h with
  | start => simp [Inventory.empty]
  | step _ hstep ih =>
    intro t ht
    cases hstep with
    | tableRegistered _ hvalid _ htree _ =>
      rcases List.mem_append.1 ht with hold | hnew
      · exact ih t hold
      · exact ⟨_, _, hvalid, List.mem_singleton.1 hnew ▸ htree⟩
    | tableDropped => exact ih t (List.mem_of_mem_filter ht)
    | everythingDropped => exact absurd ht List.not_mem_nil
    | _ => exact ih t ht

end Inventory

end WhatIf
