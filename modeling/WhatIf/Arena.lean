/-!
# Arena — typed keys over a store of slots

Every hypothetical object is kept in an arena, which hands out a key for it. An
arena is a store whose slots are used again, together with a count of its resets;
the store is a parameter (`Slots`). A key names a slot and the generation of the
value it was handed out for.
-/

namespace WhatIf

/-- A key into an arena. -/
structure ArenaKey where
  /-- The slot. -/
  slot : Nat
  /-- The generation of the value it was handed out for. -/
  generation : Nat
  deriving DecidableEq

/-- The text of a key. -/
def ArenaKey.text (k : ArenaKey) : String :=
  "ArenaKey(" ++ toString k.slot ++ "v" ++ toString k.generation ++ ")"

/-- A value with the generation it was put in under. -/
structure Stamped (α : Type) where
  /-- The generation. -/
  generation : Nat
  /-- The value. -/
  value : α

/-- **A store of slots with generations**, as an arena uses it. -/
class Slots (σ : Type) (α : outParam Type) where
  /-- A store that holds nothing. -/
  empty : σ
  /-- Put a value into a slot. -/
  insert (s : σ) (v : α) : ArenaKey × σ
  /-- The value of a key. -/
  get? (s : σ) (k : ArenaKey) : Option α
  /-- Replace the value of a key that resolves. -/
  set (s : σ) (k : ArenaKey) (v : α) : σ
  /-- Take the value of a key out. -/
  remove (s : σ) (k : ArenaKey) : Option α × σ
  /-- Take every value out. -/
  clear (s : σ) : σ
  /-- How many values are held. -/
  len (s : σ) : Nat
  /-- The keys and values that are held. -/
  entries (s : σ) : List (ArenaKey × α)
  /-- What a slot holds, whatever its generation. -/
  held? (s : σ) (slot : Nat) : Option (Stamped α)
  /-- The generation of the store. -/
  generation (s : σ) : Nat

/-- An arena over a store of slots. -/
structure SimulationArena (σ : Type) where
  /-- The store. -/
  slots : σ
  /-- How often the arena has been reset. -/
  resets : Nat

namespace SimulationArena

variable {σ α : Type} [Slots σ α]

/-- An arena that holds nothing. -/
def empty : SimulationArena σ := ⟨Slots.empty, 0⟩

variable (a : SimulationArena σ)

/-- Put a value in, under a new key. -/
def alloc (v : α) : ArenaKey × SimulationArena σ :=
  let (k, slots) := Slots.insert a.slots v
  (k, { a with slots })

/-- The value of a key. -/
def get? (k : ArenaKey) : Option α := Slots.get? a.slots k

/-- Whether a key resolves. -/
def contains (k : ArenaKey) : Bool := (a.get? k).isSome

/-- Replace the value of a key that resolves. -/
def set (k : ArenaKey) (v : α) : SimulationArena σ := { a with slots := Slots.set a.slots k v }

/-- Take the value of a key out; it is returned. -/
def free (k : ArenaKey) : Option α × SimulationArena σ :=
  let (v, slots) := Slots.remove a.slots k
  (v, { a with slots })

/-- The arena without the value of a key. -/
def erase (k : ArenaKey) : SimulationArena σ := (a.free k).2

/-- How many values are held. -/
def size : Nat := Slots.len a.slots

/-- Whether no value is held. -/
def isEmpty : Bool := a.size == 0

/-- Take every value out. -/
def reset : SimulationArena σ where
  slots := Slots.clear a.slots
  resets := a.resets + 1

/-- The keys and values that are held. -/
def toList : List (ArenaKey × α) := Slots.entries a.slots

end SimulationArena

end WhatIf
