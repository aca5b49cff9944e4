import WhatIf.Slots
import WhatIf.Proofs.Store.Arena
/-!
# Slots — the list of slots behaves as described

The store that is kept as a list does what a store of slots is described to do, so
what holds of every arena holds of the arenas that the registry keeps. A value goes
into the first slot listed as free, which is free; where none is, into the first of
those added.
-/

namespace WhatIf

namespace SlotList

variable {α : Type} {s : SlotList α} {k : ArenaKey} {v w : α} {i : Nat} {held : Stamped α}

theorem held?_eq_some_iff : s.held? i = some held ↔ s.slots[i]? = some (some held) := by
  rw [SlotList.held?, Option.join_eq_some_iff]

theorem get?_eq_some_iff : s.get? k = some v ↔ s.held? k.slot = some ⟨k.generation, v⟩ := by
  unfold SlotList.get?
  split
  · rename_i held hheld
    obtain ⟨g, w⟩ := held
    by_cases hg : g = k.generation
    · simp [hheld, hg]
    · simp [hheld, hg]
  · rename_i hnone
    simp [hnone]

/-- No slot of a vacant store holds anything. -/
theorem held?_vacant (n generation : Nat) : (vacant n generation : SlotList α).held? i = none := by
  rw [Option.eq_none_iff_forall_ne_some]
  intro held hheld
  rw [held?_eq_some_iff, vacant, List.getElem?_replicate] at hheld
  split at hheld
  · cases hheld
  · cases hheld

/-- A slot that is set to something holds it, if there is such a slot. -/
theorem held?_of_set {t : SlotList α} {slot : Nat} {content : Option (Stamped α)}
    (hlt : slot < s.slots.length) (ht : t.slots = s.slots.set slot content) :
    t.held? i = if i = slot then content else s.held? i := by
  rw [SlotList.held?, SlotList.held?, ht]
  split
  · rename_i heq
    rw [heq, List.getElem?_set_self hlt]
    rfl
  · rename_i hne
    rw [List.getElem?_set_ne (Ne.symm hne)]

/-! ## Putting in -/

/-- New slots hold nothing. -/
theorem held?_withRoom : s.withRoom.held? i = s.held? i := by
  unfold withRoom
  split
  · rw [SlotList.held?, SlotList.held?, grow, List.getElem?_append]
    split
    · rfl
    · rename_i hge
      rw [List.getElem?_eq_none (Nat.le_of_not_lt hge), List.getElem?_replicate]
      split
      · rfl
      · rfl
  · rfl

theorem generation_withRoom (s : SlotList α) : s.withRoom.generation = s.generation := by
  unfold withRoom
  split
  · rfl
  · rfl

/-- The first free slot is there, and holds nothing. -/
theorem slot_of_head (h : s.free ≠ []) : s.slots[s.free.head h]? = some none :=
  s.slot_of_free _ (List.head_mem h)

theorem held?_store (h : s.free ≠ []) :
    (s.store h v).2.held? i = if i = s.free.head h then some ⟨s.generation, v⟩ else s.held? i :=
  held?_of_set (List.getElem?_eq_some_iff.1 (slot_of_head h)).1 rfl

/-! ## Taking out -/

theorem remove_of_none (h : s.get? k = none) : s.remove k = (none, s) := by
  rw [remove, dif_neg (by simp [h])]

/-- A key that resolves is removed. -/
theorem remove_of_some (h : s.get? k = some v) :
    (s.remove k).1 = some v ∧ (s.remove k).2.slots = s.slots.set k.slot none ∧
      (s.remove k).2.generation = s.generation + 1 := by
  have hsome : (s.get? k).isSome := by
    rw [h]
    rfl
  rw [remove, dif_pos hsome]
  exact ⟨h, rfl, rfl⟩

theorem len_pos (h : s.held? i = some held) : s.len ≠ 0 := by
  intro hzero
  have hmem : some held ∈ s.slots := List.mem_of_getElem? (held?_eq_some_iff.1 h)
  exact List.countP_eq_zero.1 hzero _ hmem rfl

theorem len_of_vacant (h : ∀ i, s.held? i = none) : s.len = 0 := by
  refine List.countP_eq_zero.2 fun content hcontent hsome => ?_
  obtain ⟨held, rfl⟩ := Option.isSome_iff_exists.1 hsome
  obtain ⟨n, hn⟩ := List.getElem?_of_mem hcontent
  have hheld := held?_eq_some_iff.2 hn
  rw [h n] at hheld
  cases hheld

/-! ## Listing -/

/-- What is listed from a slot on is what the slots hold. -/
theorem mem_entriesFrom {n : Nat} {slots : List (Option (Stamped α))} :
    (k, v) ∈ entriesFrom n slots ↔
      ∃ i, slots[i]? = some (some ⟨k.generation, v⟩) ∧ k.slot = n + i := by
  induction slots generalizing n with
  | nil => simp [entriesFrom]
  | cons content slots ih =>
    have hrest : (k, v) ∈ entriesFrom (n + 1) slots ↔
        ∃ i, (content :: slots)[i + 1]? = some (some ⟨k.generation, v⟩) ∧ k.slot = n + (i + 1) := by
      rw [ih]
      refine exists_congr fun i => and_congr_right fun _ => ?_
      omega
    rw [← Nat.or_exists_add_one, ← hrest, List.getElem?_cons_zero]
    cases content with
    | none => simp [entriesFrom]
    | some held =>
      obtain ⟨g, w⟩ := held
      obtain ⟨slot, generation⟩ := k
      simp only [entriesFrom, List.mem_cons, Prod.mk.injEq, ArenaKey.mk.injEq, Option.some.injEq,
        Stamped.mk.injEq, Nat.add_zero]
      grind

/-- Entries are listed by slot, so no key is listed twice. -/
theorem nodup_entriesFrom (n : Nat) (slots : List (Option (Stamped α))) :
    ((entriesFrom n slots).map Prod.fst).Nodup := by
  have hslots : (entriesFrom n slots).Pairwise fun e f => e.1.slot < f.1.slot := by
    induction slots generalizing n with
    | nil => exact .nil
    | cons content slots ih =>
      cases content with
      | none => exact ih (n + 1)
      | some held =>
        refine List.pairwise_cons.2 ⟨fun ⟨k, w⟩ hmem => ?_, ih (n + 1)⟩
        obtain ⟨i, -, hslot⟩ := mem_entriesFrom.1 hmem
        dsimp only
        omega
  refine List.pairwise_map.2 (hslots.imp fun hlt heq => ?_)
  rw [heq] at hlt
  exact Nat.lt_irrefl _ hlt

/-- As many entries are listed as slots hold a value. -/
theorem length_entriesFrom (n : Nat) (slots : List (Option (Stamped α))) :
    (entriesFrom n slots).length = slots.countP Option.isSome := by
  induction slots generalizing n with
  | nil => rfl
  | cons content slots ih =>
    cases content with
    | none => simpa [entriesFrom] using ih (n + 1)
    | some held => simpa [entriesFrom] using ih (n + 1)

end SlotList

open SlotList

/-- **A list of slots behaves as described.** -/
instance {α : Type} : LawfulSlots (SlotList α) where
  held?_empty _ := held?_vacant 4 0
  held?_insert_key s v := by
    have hvacant : s.withRoom.held? (s.withRoom.free.head s.withRoom_free_ne_nil) = none := by
      rw [SlotList.held?, slot_of_head]
      rfl
    exact held?_withRoom.symm.trans hvacant
  generation_insert_key s _ := s.generation_withRoom
  held?_insert s v i := by
    refine (held?_store s.withRoom_free_ne_nil).trans ?_
    rw [held?_withRoom, generation_withRoom]
    rfl
  generation_insert s _ := s.generation_withRoom
  get?_eq_some_iff _ _ _ := SlotList.get?_eq_some_iff
  remove_fst s k := by
    show (s.remove k).1 = s.get? k
    rcases hk : s.get? k with _ | v
    · rw [SlotList.remove_of_none hk]
    · exact (remove_of_some hk).1
  remove_of_none _ _ hk := congrArg Prod.snd (SlotList.remove_of_none hk)
  held?_remove s k v hk i := by
    have hheld : s.slots[k.slot]? = some (some ⟨k.generation, v⟩) :=
      held?_eq_some_iff.1 (SlotList.get?_eq_some_iff.1 hk)
    exact held?_of_set (List.getElem?_eq_some_iff.1 hheld).1 (remove_of_some hk).2.1
  generation_remove s k v hk := by
    show s.generation < (s.remove k).2.generation
    rw [(remove_of_some hk).2.2]
    exact Nat.lt_succ_self _
  held?_clear s i := held?_vacant _ _
  generation_clear s i held hheld := by
    show s.generation < if s.len = 0 then s.generation else s.generation + 1
    rw [if_neg (len_pos hheld)]
    exact Nat.lt_succ_self _
  generation_clear_of_vacant s hnone := if_pos (len_of_vacant hnone)
  mem_entries s k v := by
    show (k, v) ∈ entriesFrom 0 s.slots ↔ s.held? k.slot = _
    rw [mem_entriesFrom, held?_eq_some_iff]
    simp
  nodup_entries s := nodup_entriesFrom 0 s.slots
  len_eq s := (length_entriesFrom 0 s.slots).symm

end WhatIf
