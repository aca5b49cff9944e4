import WhatIf.Hook.PhysicalHost
import WhatIf.Proofs.Catalog.Counter
/-!
# Catalog — everything below a relation

The host lists a relation and everything below it by a walk along the
inheritance links. The links may lead anywhere: in a circle, back to where they
start, twice to the same relation. The list is exact all the same, and in order
of distance (`inheritors_exact`). A walk under way has found what it has visited
and what is still in its queue, in this order; what it has not found lies beyond
the queue (`Walking`).
-/

namespace WhatIf

namespace MemoryCatalog

variable {c : MemoryCatalog} {start a o : Oid} {done queue rest found oids : List Oid} {n fuel : Nat}

/-- **That so many inheritance links lead** from one identifier to another. -/
inductive Reaches (c : MemoryCatalog) (start : Oid) : Nat → Oid → Prop
  | start : Reaches c start 0 start
  | link {n : Nat} {parent child : Oid} (h : Reaches c start n parent)
    (hlink : (parent, child) ∈ c.links) : Reaches c start (n + 1) child

/-- That one identifier is no farther from the start than another: however many
links lead to the other, no more are needed to the one. -/
def NoFarther (c : MemoryCatalog) (start a b : Oid) : Prop :=
  ∀ n, c.Reaches start n b → ∃ m ≤ n, c.Reaches start m a

theorem mem_childrenOf_iff : o ∈ c.childrenOf a ↔ (a, o) ∈ c.links := by
  simp [childrenOf]

/-! ## A walk under way -/

/-- **A walk that has visited some identifiers and has others in its queue.** It
has found all of these once, and everything that what it has visited is linked
to. They stand in order of distance, and none is more than one link farther than
anything in the queue. -/
structure Walking (c : MemoryCatalog) (start : Oid) (done queue : List Oid) : Prop where
  head : (done ++ queue).head? = some start
  nodup : (done ++ queue).Nodup
  reached : ∀ o ∈ done ++ queue, ∃ n, c.Reaches start n o
  closed : ∀ a ∈ done, ∀ o, (a, o) ∈ c.links → o ∈ done ++ queue
  inOrder : (done ++ queue).Pairwise (c.NoFarther start)
  within : ∀ a ∈ queue, ∀ o ∈ done ++ queue, ∀ n, c.Reaches start n a →
    ∃ m ≤ n + 1, c.Reaches start m o

theorem walking_start (c : MemoryCatalog) (start : Oid) : c.Walking start [] [start] where
  head := rfl
  nodup := List.nodup_singleton start
  reached _ ho := ⟨0, List.mem_singleton.1 ho ▸ .start⟩
  closed _ ha := absurd ha List.not_mem_nil
  inOrder := List.pairwise_singleton ..
  within _ _ _ ho _ _ := ⟨0, Nat.zero_le _, List.mem_singleton.1 ho ▸ .start⟩

namespace Walking

/-- **What has not been found lies beyond the queue**: the links to it lead
through something in the queue. -/
theorem beyond (h : c.Walking start done queue) (hreach : c.Reaches start n o)
    (ho : o ∉ done ++ queue) : ∃ a ∈ queue, ∃ m < n, c.Reaches start m a := by
  induction hreach with
  | start => exact absurd (List.mem_of_mem_head? h.head) ho
  | @link n parent child hparent hlink ih =>
    by_cases hfound : parent ∈ done ++ queue
    · rcases List.mem_append.1 hfound with hdone | hqueue
      · exact absurd (h.closed parent hdone child hlink) ho
      · exact ⟨parent, hqueue, n, Nat.lt_succ_self n, hparent⟩
    · obtain ⟨a, ha, m, hm, hreach⟩ := ih hfound
      exact ⟨a, ha, m, Nat.lt_succ_of_lt hm, hreach⟩

/-- The front of the queue is no farther than the rest of it. -/
theorem front (h : c.Walking start done (a :: rest)) (ho : o ∈ a :: rest)
    (hreach : c.Reaches start n o) : ∃ m ≤ n, c.Reaches start m a := by
  rcases List.mem_cons.1 ho with rfl | ho
  · exact ⟨n, Nat.le_refl n, hreach⟩
  · exact (List.pairwise_cons.1 (List.pairwise_append.1 h.inOrder).2.1).1 o ho n hreach

/-- What is linked to the front of the queue is farther by one link at most. -/
theorem link_front (h : c.Walking start done (a :: rest)) (hlink : (a, o) ∈ c.links) {b : Oid}
    (hb : b ∈ a :: rest) (hreach : c.Reaches start n b) : ∃ m ≤ n + 1, c.Reaches start m o := by
  obtain ⟨m, hm, ha⟩ := h.front hb hreach
  exact ⟨m + 1, Nat.succ_le_succ hm, ha.link hlink⟩

end Walking

/-! ## One visit -/

theorem mem_fresh_iff : o ∈ PhysicalHost.fresh found oids ↔ o ∈ oids ∧ o ∉ found := by
  induction oids generalizing found with
  | nil => simp [PhysicalHost.fresh]
  | cons oid oids ih =>
    rw [PhysicalHost.fresh]
    split
    · rename_i hfound
      rw [List.contains_iff_mem] at hfound
      rw [ih, List.mem_cons]
      constructor
      · rintro ⟨ho, hnew⟩
        exact ⟨Or.inr ho, hnew⟩
      · rintro ⟨rfl | ho, hnew⟩
        · exact absurd hfound hnew
        · exact ⟨ho, hnew⟩
    · rename_i hnew
      rw [List.contains_iff_mem] at hnew
      rw [List.mem_cons, ih, List.mem_cons, List.mem_append, List.mem_singleton]
      constructor
      · rintro (rfl | ⟨ho, hnot⟩)
        · exact ⟨Or.inl rfl, hnew⟩
        · exact ⟨Or.inr ho, fun hfound => hnot (Or.inl hfound)⟩
      · rintro ⟨rfl | ho, hnot⟩
        · exact Or.inl rfl
        · by_cases heq : o = oid
          · exact Or.inl heq
          · exact Or.inr ⟨ho, not_or.2 ⟨hnot, heq⟩⟩

theorem fresh_nodup (found oids : List Oid) : (PhysicalHost.fresh found oids).Nodup := by
  induction oids generalizing found with
  | nil => exact List.nodup_nil
  | cons oid oids ih =>
    rw [PhysicalHost.fresh]
    split
    · exact ih found
    · refine List.nodup_cons.2 ⟨fun hmem => ?_, ih _⟩
      exact (mem_fresh_iff.1 hmem).2 (List.mem_append_right _ (List.mem_singleton_self oid))

/-- **One visit**: the front of the queue has been visited, and what it is linked
to and had not been found is at the end of the queue. -/
theorem Walking.visit (h : c.Walking start done (a :: rest)) :
    c.Walking start (done ++ [a])
      (rest ++ PhysicalHost.fresh (done ++ a :: rest) (c.childrenOf a)) := by
  have hsplit : (done ++ [a]) ++ (rest ++ PhysicalHost.fresh (done ++ a :: rest) (c.childrenOf a)) =
      (done ++ a :: rest) ++ PhysicalHost.fresh (done ++ a :: rest) (c.childrenOf a) := by simp
  have hnew : ∀ o, o ∈ PhysicalHost.fresh (done ++ a :: rest) (c.childrenOf a) ↔
      (a, o) ∈ c.links ∧ o ∉ done ++ a :: rest := fun o => by
    rw [mem_fresh_iff, mem_childrenOf_iff]
  have hnodup := fresh_nodup (done ++ a :: rest) (c.childrenOf a)
  generalize PhysicalHost.fresh (done ++ a :: rest) (c.childrenOf a) = new at hsplit hnew hnodup ⊢
  -- whatever has been found now is no farther than what has just been found
  have hfar : ∀ o ∈ (done ++ a :: rest) ++ new, ∀ b ∈ new, c.NoFarther start o b := by
    intro o ho b hb n hreach
    obtain ⟨d, hd, m, hm, hreach⟩ := h.beyond hreach ((hnew b).1 hb).2
    have hone : ∃ k ≤ m + 1, c.Reaches start k o := by
      rcases List.mem_append.1 ho with ho | ho
      · exact h.within d hd o ho m hreach
      · exact h.link_front ((hnew o).1 ho).1 hd hreach
    obtain ⟨k, hk, hreach⟩ := hone
    exact ⟨k, Nat.le_trans hk hm, hreach⟩
  constructor
  · rw [hsplit, List.head?_append, h.head]
    rfl
  · rw [hsplit]
    exact List.nodup_append'.2 ⟨h.nodup, hnodup, fun o ho hmem => ((hnew o).1 hmem).2 ho⟩
  · rw [hsplit]
    intro o ho
    rcases List.mem_append.1 ho with ho | ho
    · exact h.reached o ho
    · obtain ⟨n, hreach⟩ := h.reached a (List.mem_append_right _ List.mem_cons_self)
      exact ⟨n + 1, hreach.link ((hnew o).1 ho).1⟩
  · rw [hsplit]
    intro b hb o hlink
    rcases List.mem_append.1 hb with hb | hb
    · exact List.mem_append_left _ (h.closed b hb o hlink)
    · rw [List.mem_singleton.1 hb] at hlink
      by_cases ho : o ∈ done ++ a :: rest
      · exact List.mem_append_left _ ho
      · exact List.mem_append_right _ ((hnew o).2 ⟨hlink, ho⟩)
  · rw [hsplit]
    refine List.pairwise_append.2 ⟨h.inOrder, ?_, fun o ho => hfar o (List.mem_append_left _ ho)⟩
    exact List.pairwise_of_forall_mem_list fun o ho => hfar o (List.mem_append_right _ ho)
  · rw [hsplit]
    intro b hb o ho n hreach
    -- what was in front is no farther than what is still in the queue
    have hfront : ∃ m ≤ n, c.Reaches start m a := by
      rcases List.mem_append.1 hb with hb | hb
      · exact h.front (List.mem_cons_of_mem a hb) hreach
      · exact hfar a (List.mem_append_left _ (List.mem_append_right _ List.mem_cons_self)) b hb n
          hreach
    obtain ⟨m, hm, hreach⟩ := hfront
    have hone : ∃ k ≤ m + 1, c.Reaches start k o := by
      rcases List.mem_append.1 ho with ho | ho
      · exact h.within a List.mem_cons_self o ho m hreach
      · exact h.link_front ((hnew o).1 ho).1 List.mem_cons_self hreach
    obtain ⟨k, hk, hreach⟩ := hone
    exact ⟨k, Nat.le_trans hk (Nat.succ_le_succ hm), hreach⟩

/-! ## The whole walk -/

/-- **A walk comes to its end**, when its queue is empty. Until then it makes one
step for each identifier it finds; more steps it may not use. -/
theorem Walking.finish (steps : Nat) (h : c.Walking start done queue)
    (hsteps : Oid.count ≤ done.length + steps) :
    ∃ found, c.Walking start found [] ∧ done ++ queue <+: found ∧
      ∀ fuel, found.length ≤ done.length + fuel →
        PhysicalHost.walk c fuel (done ++ queue) queue = .ok found := by
  induction steps generalizing done queue with
  | zero =>
    -- every identifier there is has been visited
    have hlength := Oid.length_le_count h.nodup
    rw [List.length_append] at hlength
    obtain rfl := List.eq_nil_of_length_eq_zero (by omega : queue.length = 0)
    refine ⟨done, h, by simp, fun fuel _ => ?_⟩
    rw [List.append_nil]
    cases fuel with
    | zero => rfl
    | succ fuel => rfl
  | succ steps ih =>
    rcases queue with _ | ⟨a, rest⟩
    · refine ⟨done, h, by simp, fun fuel _ => ?_⟩
      rw [List.append_nil]
      cases fuel with
      | zero => rfl
      | succ fuel => rfl
    · have hlength : (done ++ [a]).length = done.length + 1 := by simp
      obtain ⟨found, hfound, hprefix, hwalk⟩ := ih h.visit (by omega)
      have hsplit : done ++ [a] ++
          (rest ++ PhysicalHost.fresh (done ++ a :: rest) (c.childrenOf a)) =
            done ++ a :: rest ++ PhysicalHost.fresh (done ++ a :: rest) (c.childrenOf a) := by simp
      rw [hsplit] at hprefix hwalk
      refine ⟨found, hfound, (List.prefix_append _ _).trans hprefix, fun fuel hfuel => ?_⟩
      have hle := hprefix.length_le
      rw [List.length_append, List.length_append, List.length_cons] at hle
      obtain ⟨fuel, rfl⟩ : ∃ k, fuel = k + 1 := ⟨fuel - 1, by omega⟩
      exact hwalk fuel (by omega)

/-- **The list of a relation and everything below it is exact**, whatever the
links. It starts with the relation, holds what links lead to from there, each
once and nothing else, and stands in order of distance. The walk comes to its end
by itself: as many steps as the list is long are enough, and more change
nothing. -/
theorem inheritors_exact (c : MemoryCatalog) (ctx : Context) (start : Oid) (j : Journal) :
    ∃ found, (PhysicalHost.metadata c).inheritors ctx start ((), j) = (.ok found, ((), j)) ∧
      (∀ fuel, found.length ≤ fuel → PhysicalHost.walk c fuel [start] [start] = .ok found) ∧
      found.head? = some start ∧ found.Nodup ∧
      (∀ oid, oid ∈ found ↔ ∃ n, c.Reaches start n oid) ∧
      found.Pairwise (c.NoFarther start) := by
  obtain ⟨found, hfound, -, hwalk⟩ := (walking_start c start).finish Oid.count (by simp)
  have hends : ∀ fuel, found.length ≤ fuel →
      PhysicalHost.walk c fuel [start] [start] = .ok found := fun fuel hfuel =>
    hwalk fuel (by simpa using hfuel)
  have hnodup : found.Nodup := by simpa using hfound.nodup
  have hanswer : PhysicalHost.inheritors c start = .ok found :=
    hends Oid.count (Oid.length_le_count hnodup)
  refine ⟨found, ?_, hends, ?_, hnodup, fun oid => ⟨fun hoid => ?_, ?_⟩, ?_⟩
  · show PhysicalHost.answer (PhysicalHost.inheritors c start) ((), j) = _
    rw [hanswer]
    rfl
  · simpa using hfound.head
  · exact hfound.reached oid (List.mem_append_left _ hoid)
  · rintro ⟨n, hreach⟩
    by_contra hoid
    -- nothing lies beyond an empty queue
    obtain ⟨a, ha, -⟩ := hfound.beyond hreach (by simpa using hoid)
    exact absurd ha List.not_mem_nil
  · simpa using hfound.inOrder

end MemoryCatalog

end WhatIf
