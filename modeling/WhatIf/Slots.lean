import WhatIf.Arena
/-!
# Slots — a store kept as a list

A store of slots as a list of what they hold. A slot that has been freed is used
again, most recently freed first, but under a new generation: freeing a value and
clearing a store that is not empty both raise the generation, and a key resolves
only while its slot holds a value of its own generation. Where all slots are in use
their number is doubled.
-/

namespace WhatIf

/-- Slots for values, some of them free. What is listed as free is free, and listed
once. -/
structure SlotList (α : Type) where
  /-- The slots; a free one holds nothing. -/
  slots : List (Option (Stamped α))
  /-- The free slots, in the order in which they are used. -/
  free : List Nat
  /-- The generation of the next value. -/
  generation : Nat
  nodup_free : free.Nodup
  slot_of_free : ∀ i ∈ free, slots[i]? = some none

namespace SlotList

variable {α : Type}

/-- So many slots, all of them free. -/
def vacant (n generation : Nat) : SlotList α where
  slots := List.replicate n none
  free := List.range n
  generation := generation
  nodup_free := List.nodup_range
  slot_of_free _ hi := List.getElem?_replicate_of_lt (List.mem_range.1 hi)

variable (s : SlotList α)

/-- The store with twice as many slots, for one whose slots are all in use. -/
def grow : SlotList α where
  slots := s.slots ++ List.replicate (max s.slots.length 1) none
  free := List.range' s.slots.length (max s.slots.length 1)
  generation := s.generation
  nodup_free := List.nodup_range'
  slot_of_free i hi := by
    obtain ⟨hle, hlt⟩ := List.mem_range'_1.1 hi
    rw [List.getElem?_append_right hle]
    exact List.getElem?_replicate_of_lt (by omega)

/-- The store with a free slot. -/
def withRoom : SlotList α := if s.free = [] then s.grow else s

theorem grow_free_ne_nil : s.grow.free ≠ [] := by
  rw [grow, Ne, List.range'_eq_nil_iff]
  omega

theorem withRoom_free_ne_nil : s.withRoom.free ≠ [] := by
  unfold withRoom
  split
  · exact s.grow_free_ne_nil
  · assumption

/-- Put a value into the first free slot. -/
def store (h : s.free ≠ []) (v : α) : ArenaKey × SlotList α :=
  (⟨s.free.head h, s.generation⟩, {
    slots := s.slots.set (s.free.head h) (some ⟨s.generation, v⟩)
    free := s.free.tail
    generation := s.generation
    nodup_free := s.nodup_free.sublist (List.tail_sublist _)
    slot_of_free := fun i hi => by
      have hnodup := s.nodup_free
      rw [← List.cons_head_tail h, List.nodup_cons] at hnodup
      have hne : s.free.head h ≠ i := fun heq => hnodup.1 (heq ▸ hi)
      rw [List.getElem?_set_ne hne]
      exact s.slot_of_free i (List.mem_of_mem_tail hi) })

/-- What a slot holds. -/
def held? (slot : Nat) : Option (Stamped α) := s.slots[slot]?.join

/-- The value of a key. -/
def get? (k : ArenaKey) : Option α :=
  match s.held? k.slot with
  | some held => if held.generation = k.generation then some held.value else none
  | none => none

/-- The slot of a key that resolves is in use. -/
theorem isSome_held?_of_get? {k : ArenaKey} (h : (s.get? k).isSome) : (s.held? k.slot).isSome := by
  unfold get? at h
  split at h
  · rename_i hheld
    rw [hheld]
    rfl
  · cases h

theorem ne_of_mem_free {slot i : Nat} (h : (s.held? slot).isSome) (hi : i ∈ s.free) : slot ≠ i := by
  rintro rfl
  rw [held?, s.slot_of_free slot hi] at h
  cases h

theorem lt_length_of_held? {slot : Nat} (h : (s.held? slot).isSome) : slot < s.slots.length := by
  rcases Nat.lt_or_ge slot s.slots.length with hlt | hge
  · exact hlt
  · rw [held?, List.getElem?_eq_none hge] at h
    cases h

/-- Replace the value of a key that resolves. -/
def set (k : ArenaKey) (v : α) : SlotList α :=
  if h : (s.get? k).isSome then {
    s with
    slots := s.slots.set k.slot (some ⟨k.generation, v⟩)
    slot_of_free := fun i hi => by
      rw [List.getElem?_set_ne (s.ne_of_mem_free (s.isSome_held?_of_get? h) hi)]
      exact s.slot_of_free i hi }
  else s

/-- Free the slot of a key that resolves. -/
def remove (k : ArenaKey) : Option α × SlotList α :=
  if h : (s.get? k).isSome then
    (s.get? k, {
      slots := s.slots.set k.slot none
      free := k.slot :: s.free
      generation := s.generation + 1
      nodup_free := List.nodup_cons.2
        ⟨fun hmem => s.ne_of_mem_free (s.isSome_held?_of_get? h) hmem rfl, s.nodup_free⟩
      slot_of_free := fun i hi => by
        have hheld := s.isSome_held?_of_get? h
        rcases List.mem_cons.1 hi with rfl | hi
        · exact List.getElem?_set_self (s.lt_length_of_held? hheld)
        · rw [List.getElem?_set_ne (s.ne_of_mem_free hheld hi)]
          exact s.slot_of_free i hi })
  else (none, s)

/-- How many slots hold a value. -/
def len : Nat := s.slots.countP Option.isSome

/-- Free every slot. -/
def clear : SlotList α :=
  vacant s.slots.length (if s.len = 0 then s.generation else s.generation + 1)

/-- The key and value of each slot that holds one, from slot `n` on. -/
def entriesFrom (n : Nat) : List (Option (Stamped α)) → List (ArenaKey × α)
  | [] => []
  | some held :: rest => (⟨n, held.generation⟩, held.value) :: entriesFrom (n + 1) rest
  | none :: rest => entriesFrom (n + 1) rest

end SlotList

instance {α : Type} : Slots (SlotList α) α where
  empty := .vacant 4 0
  insert s v := s.withRoom.store s.withRoom_free_ne_nil v
  get? := SlotList.get?
  set := SlotList.set
  remove := SlotList.remove
  clear := SlotList.clear
  len := SlotList.len
  entries s := SlotList.entriesFrom 0 s.slots
  held? := SlotList.held?
  generation := SlotList.generation

/-- An arena over such a store. -/
abbrev Arena (α : Type) : Type := SimulationArena (SlotList α)

end WhatIf
