import WhatIf.Proofs.Store.Slots
/-!
# Arena — generations, and the life of a key

Over any calls a key resolves to the value it was handed out for until a call
frees it or resets the arena, and to nothing from then on, whichever slots are
used again (`resolves_until_ended`). This rests on the described behaviour of the
store alone. A slot says nothing here, for it may hold one value after another;
the generation tells their keys apart. No key that
resolves is of a later generation than the arena (`Dated`), and one that has
ceased to is of an earlier one (`Spent`), while a new key is of the arena's own.
So what resolves after a run is what its calls have put in and not ended
(`live`), each value under a key of its own.
-/

namespace WhatIf

namespace SimulationArena

/-! ## Calls -/

/-- A call that changes an arena. -/
inductive Call (α : Type) where
  | alloc (v : α)
  | free (k : ArenaKey)
  | reset

variable {σ α : Type} {k : ArenaKey} {v : α} {call : Call α}

/-- Whether a call ends the life of a key. -/
def Call.ends (k : ArenaKey) : Call α → Bool
  | alloc _ => false
  | free k' => k == k'
  | reset => true

section

variable [Slots σ α]

/-- The generation of an arena is that of its store. -/
def generation (a : SimulationArena σ) : Nat := Slots.generation a.slots

/-- The arena after a call. -/
def perform (a : SimulationArena σ) : Call α → SimulationArena σ
  | .alloc v => (a.alloc v).2
  | .free k => a.erase k
  | .reset => a.reset

/-- The key that a call hands out, with the value it stands for. -/
def handed? (a : SimulationArena σ) : Call α → Option (ArenaKey × α)
  | .alloc v => some ((a.alloc v).1, v)
  | _ => none

/-- The arena after several calls. -/
def run (a : SimulationArena σ) (calls : List (Call α)) : SimulationArena σ :=
  calls.foldl perform a

/-- **What calls put in and do not end**: the keys they hand out, with their
values, without those that a later call ends. -/
def live (a : SimulationArena σ) : List (Call α) → List (ArenaKey × α)
  | [] => []
  | call :: calls =>
    ((a.handed? call).filter fun e => !calls.any (Call.ends e.1)).toList ++
      (a.perform call).live calls

theorem run_append (a : SimulationArena σ) (calls calls' : List (Call α)) :
    a.run (calls ++ calls') = (a.run calls).run calls' := List.foldl_append

end

variable [Slots σ α] [LawfulSlots σ] {a : SimulationArena σ}

/-- **What a call does to the keys**: after it resolve the key it hands out and
the keys that resolved before, without those it ends. -/
theorem get?_perform_iff : (a.perform call).get? k = some v ↔
    a.handed? call = some (k, v) ∨ a.get? k = some v ∧ call.ends k = false := by
  cases call with
  | alloc w =>
    rw [perform, get?_alloc, handed?, Option.some.injEq, Prod.mk.injEq]
    by_cases heq : k = (a.alloc w).1
    · have hnone : a.get? k = none := heq ▸ get?_alloc_key a w
      simp [heq.symm, hnone]
    · simp [heq, Ne.symm heq, Call.ends]
  | free k' =>
    rw [perform, get?_erase]
    by_cases heq : k = k'
    · simp [heq, handed?, Call.ends]
    · simp [heq, handed?, Call.ends]
  | reset => simp [perform, handed?, Call.ends]

/-! ## Generations -/

/-- A key that is handed out is new, and of the arena's generation. -/
theorem of_handed? (hk : a.handed? call = some (k, v)) :
    a.get? k = none ∧ k.generation = a.generation := by
  cases call with
  | alloc w =>
    obtain ⟨rfl, -⟩ := Prod.mk.inj (Option.some.inj hk)
    exact ⟨get?_alloc_key a w, LawfulSlots.generation_insert_key a.slots w⟩
  | free k' => cases hk
  | reset => cases hk

/-- A call that ends a key that resolves raises the generation. An arena that is
reset holds that key's value, so a slot is in use. -/
theorem generation_lt_perform (hk : a.get? k = some v) (hends : call.ends k = true) :
    a.generation < (a.perform call).generation := by
  cases call with
  | alloc w => cases hends
  | free k' =>
    obtain rfl : k = k' := beq_iff_eq.1 hends
    exact LawfulSlots.generation_remove a.slots k v hk
  | reset => exact LawfulSlots.generation_clear a.slots k.slot _ (get?_eq_some_iff.1 hk)

/-- **The generation never falls.** -/
theorem generation_le_perform (a : SimulationArena σ) (call : Call α) :
    a.generation ≤ (a.perform call).generation := by
  cases call with
  | alloc v => exact Nat.le_of_eq (LawfulSlots.generation_insert a.slots v).symm
  | free k =>
    rcases hk : a.get? k with _ | v
    · exact Nat.le_of_eq (congrArg Slots.generation (LawfulSlots.remove_of_none a.slots k hk)).symm
    · exact Nat.le_of_lt (LawfulSlots.generation_remove a.slots k v hk)
  | reset =>
    by_cases hvacant : ∀ i, Slots.held? a.slots i = none
    · exact Nat.le_of_eq (LawfulSlots.generation_clear_of_vacant a.slots hvacant).symm
    · obtain ⟨i, hi⟩ := not_forall.1 hvacant
      obtain ⟨held, hheld⟩ := Option.ne_none_iff_exists'.1 hi
      exact Nat.le_of_lt (LawfulSlots.generation_clear a.slots i held hheld)

/-- **An arena whose keys are in order**: none that resolves is of a later
generation. -/
def Dated (a : SimulationArena σ) : Prop := ∀ k v, a.get? k = some v → k.generation ≤ a.generation

theorem dated_empty : (empty : SimulationArena σ).Dated := by
  intro k v hv
  rw [get?_empty] at hv
  cases hv

/-- Every call keeps that. -/
theorem Dated.perform (h : a.Dated) (call : Call α) : (a.perform call).Dated := by
  intro k v hv
  refine Nat.le_trans ?_ (generation_le_perform a call)
  rcases get?_perform_iff.1 hv with hhanded | ⟨hold, -⟩
  · exact Nat.le_of_eq (of_handed? hhanded).2
  · exact h k v hold

theorem Dated.run (h : a.Dated) (calls : List (Call α)) : (a.run calls).Dated := by
  induction calls generalizing a with
  | nil => exact h
  | cons call calls ih => exact ih (h.perform call)

/-- **A key that is over**: it does not resolve, and the arena is of a later
generation. -/
structure Spent (a : SimulationArena σ) (k : ArenaKey) : Prop where
  get?_eq_none : a.get? k = none
  generation_lt : k.generation < a.generation

/-- A key that is over stays over, whatever is put into its slot. -/
theorem Spent.perform (hk : a.Spent k) (call : Call α) : (a.perform call).Spent k := by
  refine ⟨?_, Nat.lt_of_lt_of_le hk.generation_lt (generation_le_perform a call)⟩
  rw [Option.eq_none_iff_forall_ne_some]
  intro v hv
  rcases get?_perform_iff.1 hv with hhanded | ⟨hold, -⟩
  · exact Nat.ne_of_lt hk.generation_lt (of_handed? hhanded).2
  · rw [hk.get?_eq_none] at hold
    cases hold

theorem Spent.run (hk : a.Spent k) (calls : List (Call α)) : (a.run calls).Spent k := by
  induction calls generalizing a with
  | nil => exact hk
  | cons call calls ih => exact ih (hk.perform call)

/-- **The call that ends a key** raises the generation above it. -/
theorem Dated.spent_perform (h : a.Dated) (hk : a.get? k = some v) (hends : call.ends k = true) :
    (a.perform call).Spent k := by
  refine ⟨?_, Nat.lt_of_le_of_lt (h k v hk) (generation_lt_perform hk hends)⟩
  rw [Option.eq_none_iff_forall_ne_some]
  intro w hw
  rcases get?_perform_iff.1 hw with hhanded | ⟨-, hstays⟩
  · rw [(of_handed? hhanded).1] at hk
    cases hk
  · rw [hends] at hstays
    cases hstays

/-! ## Runs -/

/-- **A key over a run**: it resolves to its value until a call ends it, and then
to nothing. -/
theorem Dated.get?_run (h : a.Dated) (hk : a.get? k = some v) (calls : List (Call α)) :
    (a.run calls).get? k = if calls.any (Call.ends k) then none else some v := by
  induction calls generalizing a with
  | nil => exact hk
  | cons call calls ih =>
    rw [List.any_cons]
    by_cases hends : call.ends k = true
    · rw [hends, Bool.true_or, if_pos rfl]
      exact ((h.spent_perform hk hends).run calls).get?_eq_none
    · rw [Bool.not_eq_true] at hends
      rw [hends, Bool.false_or]
      exact ih (h.perform call) (get?_perform_iff.2 (Or.inr ⟨hk, hends⟩))

/-- What resolves after a run is what resolved before, unless the calls end it,
and what they put in and do not end. -/
theorem Dated.get?_run_iff (h : a.Dated) (calls : List (Call α)) :
    (a.run calls).get? k = some v ↔
      (k, v) ∈ a.live calls ∨ a.get? k = some v ∧ calls.any (Call.ends k) = false := by
  induction calls generalizing a with
  | nil => simp [SimulationArena.run, live]
  | cons call calls ih =>
    have hrun : (a.run (call :: calls)).get? k = some v ↔
        (k, v) ∈ (a.perform call).live calls ∨
          (a.perform call).get? k = some v ∧ calls.any (Call.ends k) = false := ih (h.perform call)
    rw [hrun, get?_perform_iff, live, List.mem_append, Option.mem_toList,
      Option.filter_eq_some_iff, List.any_cons, Bool.or_eq_false_iff, Bool.not_eq_true']
    tauto

/-- The keys that calls hand out are new to the arena, and not of an earlier
generation. -/
theorem Dated.of_mem_live (h : a.Dated) {calls : List (Call α)} (hk : (k, v) ∈ a.live calls) :
    a.get? k = none ∧ a.generation ≤ k.generation := by
  induction calls generalizing a with
  | nil => cases hk
  | cons call calls ih =>
    rcases List.mem_append.1 hk with hhanded | hlater
    · rw [Option.mem_toList, Option.filter_eq_some_iff] at hhanded
      obtain ⟨hnew, hgeneration⟩ := of_handed? hhanded.1
      exact ⟨hnew, Nat.le_of_eq hgeneration.symm⟩
    · obtain ⟨hnew, hle⟩ := ih (h.perform call) hlater
      refine ⟨?_, Nat.le_trans (generation_le_perform a call) hle⟩
      rw [Option.eq_none_iff_forall_ne_some]
      intro w hw
      -- a key that the call ends is over, and one that it leaves resolves
      by_cases hends : call.ends k = true
      · exact Nat.not_le_of_lt (h.spent_perform hw hends).generation_lt hle
      · rw [Bool.not_eq_true] at hends
        rw [get?_perform_iff.2 (Or.inr ⟨hw, hends⟩)] at hnew
        cases hnew

/-- **No two live entries have one key.** -/
theorem Dated.nodup_live (h : a.Dated) (calls : List (Call α)) :
    ((a.live calls).map Prod.fst).Nodup := by
  induction calls generalizing a with
  | nil => exact List.nodup_nil
  | cons call calls ih =>
    have hrest := ih (h.perform call)
    rw [live]
    cases hfilter : (a.handed? call).filter fun e => !calls.any (Call.ends e.1) with
    | none => exact hrest
    | some e =>
      obtain ⟨k, v⟩ := e
      refine List.nodup_cons.2 ⟨fun hmem => ?_, hrest⟩
      obtain ⟨⟨k', w⟩, hlater, rfl⟩ := List.mem_map.1 hmem
      have hhanded := (Option.filter_eq_some_iff.1 hfilter).1
      have hnew := ((h.perform call).of_mem_live hlater).1
      rw [get?_perform_iff.2 (Or.inl hhanded)] at hnew
      cases hnew

/-- **A key that has ceased to resolve never resolves again**, over any store that
behaves as described. After any calls on an empty arena, the key of a value resolves
to that value exactly until a later call frees it or resets the arena. What resolves
in the end is what the calls have put in and not ended; this is what can be freed,
and what is listed and counted, each value under a key of its own. -/
theorem resolves_until_ended {σ α : Type} [Slots σ α] [LawfulSlots σ] :
    (∀ (before after : List (Call α)) (v : α),
      ((empty : SimulationArena σ).run (before ++ .alloc v :: after)).get?
          ((empty.run before : SimulationArena σ).alloc v).1 =
        if after.any (Call.ends ((empty.run before : SimulationArena σ).alloc v).1) then none
        else some v) ∧
    ∀ calls : List (Call α),
      (((empty : SimulationArena σ).live calls).map Prod.fst).Nodup ∧
        (∀ k v, (empty.run calls : SimulationArena σ).get? k = some v ↔
          (k, v) ∈ (empty : SimulationArena σ).live calls) ∧
        (∀ k v, ((empty.run calls : SimulationArena σ).free k).1 = some v ↔
          (k, v) ∈ (empty : SimulationArena σ).live calls) ∧
        (empty.run calls : SimulationArena σ).toList.Perm ((empty : SimulationArena σ).live calls) ∧
        (empty.run calls : SimulationArena σ).size =
          ((empty : SimulationArena σ).live calls).length := by
  have hempty : (empty : SimulationArena σ).Dated := dated_empty
  refine ⟨fun before after v => ?_, fun calls => ?_⟩
  · rw [run_append]
    refine ((hempty.run before).perform (.alloc v)).get?_run ?_ after
    exact get?_perform_iff.2 (Or.inl rfl)
  · have hnodup := hempty.nodup_live calls
    have hlive : ∀ k v, (empty.run calls : SimulationArena σ).get? k = some v ↔
        (k, v) ∈ (empty : SimulationArena σ).live calls := by
      intro k v
      rw [hempty.get?_run_iff]
      simp
    have hperm : (empty.run calls : SimulationArena σ).toList.Perm
        ((empty : SimulationArena σ).live calls) := by
      rw [List.perm_ext_iff_of_nodup (nodup_toList _).of_map hnodup.of_map]
      exact fun ⟨k, v⟩ => mem_toList.trans (hlive k v)
    refine ⟨hnodup, hlive, fun k v => ?_, hperm, (size_eq _).trans hperm.length_eq⟩
    rw [free_fst]
    exact hlive k v

/-- A slot that is used again, with the list of slots for a store: the key of the
first value does not lead to the second. -/
theorem resolves_until_ended_reused :
    let a : Arena Nat := empty.run [.alloc 5, .free ⟨0, 0⟩, .alloc 6]
    LawfulSlots (SlotList Nat) ∧ a.get? ⟨0, 0⟩ = none ∧ a.get? ⟨0, 1⟩ = some 6 ∧ a.size = 1 := by
  obtain ⟨hresolves, hlive⟩ := resolves_until_ended (σ := SlotList Nat)
  exact ⟨inferInstance, hresolves [] [.free ⟨0, 0⟩, .alloc 6] 5,
    hresolves [.alloc 5, .free ⟨0, 0⟩] [] 6, (hlive _).2.2.2.2⟩

end SimulationArena

end WhatIf
