import WhatIf.Keyed
import WhatIf.Ident
import WhatIf.Proofs.Store.Slots
import Mathlib.Data.List.Nodup
import Mathlib.Data.List.Perm.Subperm
/-!
# Keyed — lookups, and arenas found by identifier

A keyed list is seen through `find?`. The registry keeps each kind of object
in an arena beside a keyed list from identifiers to arena keys; `Indexed` says
that the two agree: an identifier has a key exactly when some live value goes
by it. Inserting a value under a new identifier, erasing one and clearing
everything all keep that.
-/

namespace WhatIf

namespace Keyed

variable {κ ν : Type} [DecidableEq κ] {m : List (κ × ν)} {k k' : κ} {v : ν}

@[simp] theorem find?_nil : find? ([] : List (κ × ν)) k = none := rfl

theorem find?_cons {e : κ × ν} : find? (e :: m) k = if e.1 = k then some e.2 else find? m k := rfl

theorem find?_erase : find? (erase m k) k' = if k' = k then none else find? m k' := by
  induction m with
  | nil => simp [erase]
  | cons e rest ih =>
    rw [erase] at ih ⊢
    by_cases hk : e.1 = k
    · rw [List.filter_cons_of_neg (by simp [hk]), ih, find?_cons]
      by_cases he : k' = k
      · simp [he]
      · simp [he, hk, Ne.symm he]
    · rw [List.filter_cons_of_pos (by simp [hk]), find?_cons, find?_cons, ih]
      by_cases he : e.1 = k'
      · have hne : k' ≠ k := fun h => hk (he.trans h)
        simp [he, hne]
      · simp [he]

theorem find?_insert : find? (insert m k v) k' = if k' = k then some v else find? m k' := by
  rw [insert, find?_cons, find?_erase]
  by_cases h : k' = k
  · simp [h]
  · simp [h, Ne.symm h]

/-- What is found under a key stands in the list. -/
theorem mem_of_find? (h : find? m k = some v) : (k, v) ∈ m := by
  induction m with
  | nil => simp at h
  | cons e rest ih =>
    rw [find?_cons] at h
    split at h
    · rename_i he
      cases h
      rw [← he]
      exact List.mem_cons_self
    · exact List.mem_cons_of_mem _ (ih h)

/-- A list is as long as the number of keys found in it, at least. -/
theorem length_le_of_find? {ks : List κ} (hn : ks.Nodup) (h : ∀ k ∈ ks, (find? m k).isSome) :
    ks.length ≤ m.length := by
  have hsub : ks ⊆ m.map Prod.fst := by
    intro k hk
    obtain ⟨v, hv⟩ := Option.isSome_iff_exists.1 (h k hk)
    exact List.mem_map.2 ⟨(k, v), mem_of_find? hv, rfl⟩
  calc ks.length ≤ (m.map Prod.fst).length := (hn.subperm hsub).length_le
    _ = m.length := List.length_map ..

end Keyed

/-- What stands under a key of its own is found by it. -/
theorem find?_iff_of_nodup {α β : Type} [BEq β] [LawfulBEq β] {key : α → β} {xs : List α} {x : α}
    {k : β} (h : (xs.map key).Nodup) :
    xs.find? (fun x => key x == k) = some x ↔ x ∈ xs ∧ key x = k := by
  constructor
  · intro hfind
    exact ⟨List.mem_of_find?_eq_some hfind, by simpa using List.find?_some hfind⟩
  · rintro ⟨hx, rfl⟩
    obtain ⟨y, hy⟩ := Option.isSome_iff_exists.1
      (List.find?_isSome.2 ⟨x, hx, beq_self_eq_true _⟩ :
        (xs.find? fun y => key y == key x).isSome)
    rw [hy, List.inj_on_of_nodup_map h (List.mem_of_find?_eq_some hy) hx
      (by simpa using List.find?_some hy)]

/-! ## Arenas found by identifier -/

/-- **Values kept in an arena and found by identifier**: the live values are
those listed, and an identifier has the key of the live value that goes by
it. -/
structure Indexed {α : Type} (name : α → Oid) (a : Arena α) (keys : List (Oid × ArenaKey))
    (vs : List α) : Prop where
  find?_iff : ∀ oid k, Keyed.find? keys oid = some k ↔ ∃ v, a.get? k = some v ∧ name v = oid
  live_iff : ∀ v, (∃ k, a.get? k = some v) ↔ v ∈ vs

namespace Indexed

variable {α : Type} {name : α → Oid} {a : Arena α} {keys : List (Oid × ArenaKey)} {vs ws : List α}
variable {v w : α} {oid : Oid} {k : ArenaKey}

theorem empty : Indexed name SimulationArena.empty [] [] where
  find?_iff := by simp
  live_iff := by simp

theorem reset : Indexed name a.reset [] [] where
  find?_iff := by simp
  live_iff := by simp

/-- Only which values are listed matters, not in which order. -/
theorem congr (h : Indexed name a keys vs) (hmem : ∀ v, v ∈ vs ↔ v ∈ ws) :
    Indexed name a keys ws :=
  ⟨h.find?_iff, fun v => (h.live_iff v).trans (hmem v)⟩

/-- **Looking up an identifier** finds the live value that goes by it. -/
theorem lookup_iff (h : Indexed name a keys vs) :
    (Keyed.find? keys oid).bind a.get? = some v ↔ v ∈ vs ∧ name v = oid := by
  rw [Option.bind_eq_some_iff]
  constructor
  · rintro ⟨k, hk, hv⟩
    obtain ⟨w, hw, hname⟩ := (h.find?_iff oid k).1 hk
    have heq : w = v := Option.some.inj (hw.symm.trans hv)
    exact ⟨(h.live_iff v).1 ⟨k, hv⟩, heq ▸ hname⟩
  · rintro ⟨hmem, hname⟩
    obtain ⟨k, hk⟩ := (h.live_iff v).2 hmem
    exact ⟨k, (h.find?_iff oid k).2 ⟨v, hk, hname⟩, hk⟩

/-- An identifier that no live value goes by has no key. -/
theorem find?_eq_none (h : Indexed name a keys vs) (hfresh : ∀ v ∈ vs, name v ≠ oid) :
    Keyed.find? keys oid = none := by
  rw [Option.eq_none_iff_forall_ne_some]
  intro k hk
  obtain ⟨v, hv, hname⟩ := (h.find?_iff oid k).1 hk
  exact hfresh v ((h.live_iff v).1 ⟨k, hv⟩) hname

/-- **Inserting a value under a new identifier.** -/
theorem insert (h : Indexed name a keys vs) (hfresh : ∀ w ∈ vs, name w ≠ name v) :
    Indexed name (a.alloc v).2 (Keyed.insert keys (name v) (a.alloc v).1) (vs ++ [v]) where
  find?_iff oid k := by
    rw [Keyed.find?_insert, SimulationArena.get?_alloc]
    -- the new key was not in use, so no old identifier leads to it
    have hkey : ∀ w, a.get? (a.alloc v).1 ≠ some w := by simp [SimulationArena.get?_alloc_key]
    by_cases hoid : oid = name v
    · rw [if_pos hoid, Option.some.injEq]
      constructor
      · rintro rfl
        exact ⟨v, if_pos rfl, hoid.symm⟩
      · rintro ⟨w, hw, hname⟩
        by_contra hk
        rw [if_neg (Ne.symm hk)] at hw
        exact hfresh w ((h.live_iff w).1 ⟨k, hw⟩) (hname.trans hoid)
    · rw [if_neg hoid, h.find?_iff]
      refine exists_congr fun w => ?_
      by_cases hk : k = (a.alloc v).1
      · rw [if_pos hk, hk]
        constructor
        · rintro ⟨hw, -⟩
          exact absurd hw (hkey w)
        · rintro ⟨hw, hname⟩
          exact absurd (hname.symm.trans (congrArg name (Option.some.inj hw).symm)) hoid
      · rw [if_neg hk]
  live_iff w := by
    rw [List.mem_append, List.mem_singleton, ← h.live_iff w]
    constructor
    · rintro ⟨k, hk⟩
      rw [SimulationArena.get?_alloc] at hk
      split at hk
      · exact Or.inr (Option.some.inj hk).symm
      · exact Or.inl ⟨k, hk⟩
    · rintro (⟨k, hk⟩ | rfl)
      · have hne : k ≠ (a.alloc v).1 := by
          rintro rfl
          rw [SimulationArena.get?_alloc_key] at hk
          simp at hk
        exact ⟨k, by rw [SimulationArena.get?_alloc, if_neg hne, hk]⟩
      · exact ⟨(a.alloc w).1, by rw [SimulationArena.get?_alloc, if_pos rfl]⟩

/-- **Erasing the value that goes by an identifier.** -/
theorem erase (h : Indexed name a keys vs) (hk : Keyed.find? keys oid = some k) :
    Indexed name (a.erase k) (Keyed.erase keys oid) (vs.filter fun v => name v ≠ oid) where
  find?_iff oid' k' := by
    rw [Keyed.find?_erase, SimulationArena.get?_erase]
    -- identifiers and live values go together one to one, so one key goes with one identifier
    obtain ⟨v, hv, hname⟩ := (h.find?_iff oid k).1 hk
    by_cases hoid : oid' = oid
    · rw [if_pos hoid]
      constructor
      · intro hf
        simp at hf
      · rintro ⟨w, hw, hname'⟩
        have hne : k' ≠ k := by
          rintro rfl
          simp at hw
        rw [if_neg hne] at hw
        have hk' := (h.find?_iff oid k').2 ⟨w, hw, hname'.trans hoid⟩
        exact absurd (Option.some.inj (hk'.symm.trans hk)) hne
    · rw [if_neg hoid, h.find?_iff]
      refine exists_congr fun w => ?_
      by_cases hne : k' = k
      · rw [if_pos hne, hne, hv]
        constructor
        · rintro ⟨hw, hname'⟩
          exact absurd (hname'.symm.trans ((Option.some.inj hw) ▸ hname)) hoid
        · rintro ⟨hw, -⟩
          simp at hw
      · rw [if_neg hne]
  live_iff w := by
    obtain ⟨v, hv, hname⟩ := (h.find?_iff oid k).1 hk
    simp only [List.mem_filter, decide_eq_true_eq, SimulationArena.get?_erase]
    constructor
    · rintro ⟨k', hk'⟩
      have hne : k' ≠ k := by
        rintro rfl
        simp at hk'
      rw [if_neg hne] at hk'
      refine ⟨(h.live_iff w).1 ⟨k', hk'⟩, fun hw => hne ?_⟩
      exact Option.some.inj (((h.find?_iff oid k').2 ⟨w, hk', hw⟩).symm.trans hk)
    · rintro ⟨hw, hne⟩
      obtain ⟨k', hk'⟩ := (h.live_iff w).2 hw
      refine ⟨k', ?_⟩
      have : k' ≠ k := by
        rintro rfl
        exact hne ((Option.some.inj (hk'.symm.trans hv)) ▸ hname)
      rw [if_neg this, hk']

end Indexed

end WhatIf
