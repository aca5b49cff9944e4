import WhatIf.Arena
import Mathlib.Data.List.Nodup
/-!
# Arena — what its keys resolve to

What a store of slots is described to do is stated slot by slot (`LawfulSlots`): a
value goes into some vacant slot under the generation of the store, and taking
values out raises this generation. An arena over it is then seen through `get?`
alone: allocating makes one new key resolve, freeing makes one key cease to, and a
reset makes all of them cease, while every other key resolves as before.
-/

namespace WhatIf

/-- **The described behaviour of a store of slots.** Which vacant slot a value goes
into is left open, and so is in which order the values are listed. -/
class LawfulSlots (σ : Type) {α : outParam Type} [Slots σ α] : Prop where
  held?_empty : ∀ i, Slots.held? (Slots.empty : σ) i = none
  /-- A value goes into a vacant slot, under the generation of the store. -/
  held?_insert_key : ∀ (s : σ) v, Slots.held? s (Slots.insert s v).1.slot = none
  generation_insert_key : ∀ (s : σ) v, (Slots.insert s v).1.generation = Slots.generation s
  held?_insert : ∀ (s : σ) v i, Slots.held? (Slots.insert s v).2 i =
    if i = (Slots.insert s v).1.slot then some ⟨Slots.generation s, v⟩ else Slots.held? s i
  generation_insert : ∀ (s : σ) v, Slots.generation (Slots.insert s v).2 = Slots.generation s
  /-- A key resolves while its slot holds a value of its generation. -/
  get?_eq_some_iff : ∀ (s : σ) k v,
    Slots.get? s k = some v ↔ Slots.held? s k.slot = some ⟨k.generation, v⟩
  /-- A key that resolves is removed with its value, and the generation raised. -/
  remove_fst : ∀ (s : σ) k, (Slots.remove s k).1 = Slots.get? s k
  remove_of_none : ∀ (s : σ) k, Slots.get? s k = none → (Slots.remove s k).2 = s
  held?_remove : ∀ (s : σ) k v, Slots.get? s k = some v → ∀ i,
    Slots.held? (Slots.remove s k).2 i = if i = k.slot then none else Slots.held? s i
  generation_remove : ∀ (s : σ) k v, Slots.get? s k = some v →
    Slots.generation s < Slots.generation (Slots.remove s k).2
  /-- Clearing vacates every slot, and raises the generation if one is in use. -/
  held?_clear : ∀ (s : σ) i, Slots.held? (Slots.clear s) i = none
  generation_clear : ∀ (s : σ) i held, Slots.held? s i = some held →
    Slots.generation s < Slots.generation (Slots.clear s)
  generation_clear_of_vacant : ∀ s : σ, (∀ i, Slots.held? s i = none) →
    Slots.generation (Slots.clear s) = Slots.generation s
  /-- The entries are what the slots hold, each once, and their number is the
  length. -/
  mem_entries : ∀ (s : σ) k v,
    (k, v) ∈ Slots.entries s ↔ Slots.held? s k.slot = some ⟨k.generation, v⟩
  nodup_entries : ∀ s : σ, ((Slots.entries s).map Prod.fst).Nodup
  len_eq : ∀ s : σ, Slots.len s = (Slots.entries s).length

namespace SimulationArena

open LawfulSlots

variable {σ α : Type} [Slots σ α] [LawfulSlots σ] {a : SimulationArena σ}
variable {k k' : ArenaKey} {v w : α}

/-- A key resolves to what its slot holds under its generation. -/
theorem get?_eq_some_iff :
    a.get? k = some v ↔ Slots.held? a.slots k.slot = some ⟨k.generation, v⟩ :=
  LawfulSlots.get?_eq_some_iff a.slots k v

/-- No key resolves to a slot that holds nothing. -/
theorem get?_of_held?_none (h : Slots.held? a.slots k.slot = none) : a.get? k = none := by
  rw [Option.eq_none_iff_forall_ne_some]
  intro v hv
  rw [get?_eq_some_iff, h] at hv
  cases hv

/-- Keys resolve alike where their slots hold the same. -/
theorem get?_congr {b : SimulationArena σ}
    (h : Slots.held? a.slots k.slot = Slots.held? b.slots k.slot) : a.get? k = b.get? k :=
  Option.ext fun v => by rw [get?_eq_some_iff, get?_eq_some_iff, h]

@[simp] theorem get?_empty : (empty : SimulationArena σ).get? k = none :=
  get?_of_held?_none (held?_empty _)

/-! ## Allocation -/

/-- The key handed out resolved to nothing before. -/
theorem get?_alloc_key (a : SimulationArena σ) (v : α) : a.get? (a.alloc v).1 = none :=
  get?_of_held?_none (held?_insert_key a.slots v)

/-- **Allocating makes one key resolve** and leaves every other as it is. -/
theorem get?_alloc : (a.alloc v).2.get? k = if k = (a.alloc v).1 then some v else a.get? k := by
  have hheld : ∀ i, Slots.held? (a.alloc v).2.slots i =
      if i = (a.alloc v).1.slot then some ⟨Slots.generation a.slots, v⟩
      else Slots.held? a.slots i := held?_insert a.slots v
  have hgeneration : (a.alloc v).1.generation = Slots.generation a.slots :=
    generation_insert_key a.slots v
  split
  · rename_i heq
    rw [get?_eq_some_iff, hheld, heq, if_pos rfl, hgeneration]
  · rename_i hne
    by_cases hslot : k.slot = (a.alloc v).1.slot
    · -- the slot of the new key, but another generation; it was vacant before
      have hold : a.get? k = none :=
        get?_of_held?_none (hslot ▸ held?_insert_key a.slots v)
      rw [hold, Option.eq_none_iff_forall_ne_some]
      intro w hw
      rw [get?_eq_some_iff, hheld, if_pos hslot, Option.some.injEq, Stamped.mk.injEq] at hw
      refine hne ?_
      cases k
      rw [ArenaKey.mk.injEq]
      exact ⟨hslot, (hgeneration.trans hw.1).symm⟩
    · exact get?_congr ((hheld _).trans (if_neg hslot))

/-! ## Freeing -/

/-- What is freed is returned. -/
theorem free_fst (a : SimulationArena σ) (k : ArenaKey) : (a.free k).1 = a.get? k :=
  remove_fst a.slots k

/-- **Freeing makes one key cease to resolve** and leaves every other as it
is. -/
theorem get?_erase : (a.erase k).get? k' = if k' = k then none else a.get? k' := by
  rcases hk : a.get? k with _ | v
  · have hsame : (a.erase k).get? k' = a.get? k' :=
      get?_congr (congrArg (Slots.held? · k'.slot) (remove_of_none a.slots k hk))
    rw [hsame]
    split
    · rename_i heq
      rw [heq, hk]
    · rfl
  · have hheld : ∀ i, Slots.held? (a.erase k).slots i =
        if i = k.slot then none else Slots.held? a.slots i := held?_remove a.slots k v hk
    by_cases hslot : k'.slot = k.slot
    · rw [get?_of_held?_none ((hheld _).trans (if_pos hslot))]
      split
      · rfl
      · -- the slot of the key, but another generation
        rename_i hne
        symm
        rw [Option.eq_none_iff_forall_ne_some]
        intro w hw
        rw [get?_eq_some_iff] at hk hw
        rw [hslot, hk, Option.some.injEq, Stamped.mk.injEq] at hw
        refine hne ?_
        cases k
        cases k'
        rw [ArenaKey.mk.injEq]
        exact ⟨hslot, hw.1.symm⟩
    · have hne : k' ≠ k := fun heq => hslot (congrArg ArenaKey.slot heq)
      rw [if_neg hne]
      exact get?_congr ((hheld _).trans (if_neg hslot))

/-! ## Resets -/

@[simp] theorem get?_reset : a.reset.get? k = none :=
  get?_of_held?_none (held?_clear a.slots _)

/-! ## Listing -/

/-- **The entries listed** are the keys that resolve, with what they resolve to. -/
theorem mem_toList : (k, v) ∈ a.toList ↔ a.get? k = some v :=
  (mem_entries a.slots k v).trans get?_eq_some_iff.symm

/-- No key is listed twice. -/
theorem nodup_toList (a : SimulationArena σ) : (a.toList.map Prod.fst).Nodup :=
  nodup_entries a.slots

theorem size_eq (a : SimulationArena σ) : a.size = a.toList.length := len_eq a.slots

/-- An arena is empty exactly when no key resolves in it. -/
theorem isEmpty_iff : a.isEmpty = true ↔ ∀ k, a.get? k = none := by
  rw [isEmpty, beq_iff_eq, size_eq, List.length_eq_zero_iff, List.eq_nil_iff_forall_not_mem]
  constructor
  · intro h k
    rw [Option.eq_none_iff_forall_ne_some]
    exact fun v hv => h (k, v) (mem_toList.2 hv)
  · rintro h ⟨k, v⟩ hmem
    rw [mem_toList, h k] at hmem
    cases hmem

end SimulationArena

end WhatIf
