import WhatIf.Proofs.Catalog.Memory
import WhatIf.Proofs.Partition.Validated
import Mathlib.Logic.Function.Iterate
/-!
# Catalog — one counter for all identifiers

The catalog in memory counts identifiers through, around the end of the space
and over those in use. It does not know which of them are lent out. Until the
counter has gone round this does not matter: everything handed out lies behind
it (`Behind`), so the next identifier is new. Each request takes the counter
one step on, and planting a layout makes one request for each node.
-/

namespace WhatIf

namespace Oid

/-- An identifier is known by its number. -/
theorem eq_of_toNat {o p : Oid} (h : o.word.toNat = p.word.toNat) : o = p := by
  cases o
  cases p
  exact congrArg mk (UInt32.toNat_inj.1 h)

/-- No more identifiers can be listed than there are. -/
theorem length_le_count {oids : List Oid} (h : oids.Nodup) : oids.length ≤ count := by
  have hwords : (oids.map fun o => o.word.toNat).Nodup := h.map fun _ _ => eq_of_toNat
  have hbelow : (oids.map fun o => o.word.toNat) ⊆ List.range count := by
    intro n hn
    obtain ⟨o, -, rfl⟩ := List.mem_map.1 hn
    exact List.mem_range.2 o.word.toNat_lt_size
  calc oids.length = (oids.map fun o => o.word.toNat).length := List.length_map _ |>.symm
    _ ≤ (List.range count).length := (List.subperm_of_subset hwords hbelow).length_le
    _ = count := List.length_range

/-! ## The circle of the counter -/

variable {o : Oid} (ho : firstNormal.word.toNat ≤ o.word.toNat)

theorem toNat_firstNormal : firstNormal.word.toNat = 16384 := rfl

theorem span_eq : MemoryCatalog.span = 4294950912 := rfl

include ho

/-- The space of the counter is a circle. -/
theorem toNat_next : o.next.word.toNat = firstNormal.word.toNat +
    (o.word.toNat - firstNormal.word.toNat + 1) % MemoryCatalog.span := by
  rw [toNat_firstNormal] at ho ⊢
  rw [span_eq]
  have hlt := o.word.toNat_lt
  unfold next
  split
  · rename_i hlast
    rw [hlast]
    rfl
  · rename_i hne
    have hword : o.word.toNat ≠ 4294967295 := fun heq => hne (eq_of_toNat heq)
    have hadd : (o.word + 1).toNat = (o.word.toNat + 1) % 4294967296 := UInt32.toNat_add _ _
    show (o.word + 1).toNat = _
    omega

/-- Where the counter stands after `n` steps. -/
theorem toNat_iterate_next (n : Nat) : (next^[n] o).word.toNat = firstNormal.word.toNat +
    (o.word.toNat - firstNormal.word.toNat + n) % MemoryCatalog.span := by
  have hlt := o.word.toNat_lt
  induction n with
  | zero =>
    rw [Function.iterate_zero_apply]
    rw [toNat_firstNormal, span_eq] at *
    omega
  | succ n ih =>
    rw [Function.iterate_succ_apply', toNat_next (by omega), ih]
    rw [toNat_firstNormal, span_eq] at *
    omega

/-- **The counter does not repeat itself** before it has gone round. -/
theorem iterate_next_inj {i j : Nat} (hi : i < MemoryCatalog.span) (hj : j < MemoryCatalog.span)
    (heq : next^[i] o = next^[j] o) : i = j := by
  have hnat : (next^[i] o).word.toNat = (next^[j] o).word.toNat := by rw [heq]
  rw [toNat_iterate_next ho, toNat_iterate_next ho] at hnat
  have hlt := o.word.toNat_lt
  rw [toNat_firstNormal, span_eq] at *
  omega

/-- Once round, the counter is where it was. -/
theorem iterate_next_span : next^[MemoryCatalog.span] o = o := by
  have hlt := o.word.toNat_lt
  have hnat := toNat_iterate_next ho MemoryCatalog.span
  rw [Nat.add_mod_right, Nat.mod_eq_of_lt (by rw [toNat_firstNormal, span_eq] at *; omega)] at hnat
  exact eq_of_toNat (by omega)

/-- **The counter comes past everything** before it has gone round. -/
theorem exists_iterate_next {p : Oid} (hp : firstNormal.word.toNat ≤ p.word.toNat) :
    ∃ n < MemoryCatalog.span, next^[n] o = p := by
  have hlt := o.word.toNat_lt
  have hlt' := p.word.toNat_lt
  -- forward from `o` if `p` comes after it, and else round the end
  obtain ⟨n, hn, hmod⟩ : ∃ n < MemoryCatalog.span,
      (o.word.toNat - firstNormal.word.toNat + n) % MemoryCatalog.span =
        p.word.toNat - firstNormal.word.toNat := by
    rw [toNat_firstNormal] at *
    rw [span_eq]
    rcases Nat.lt_or_ge p.word.toNat o.word.toNat with hbefore | hafter
    · exact ⟨4294950912 - (o.word.toNat - p.word.toNat), by omega, by omega⟩
    · exact ⟨p.word.toNat - o.word.toNat, by omega, by omega⟩
  have hnat := toNat_iterate_next ho n
  rw [hmod] at hnat
  exact ⟨n, hn, eq_of_toNat (by omega)⟩

/-- The counter stays among the identifiers handed out to user objects. -/
theorem firstNormal_le_iterate_next (n : Nat) :
    firstNormal.word.toNat ≤ (next^[n] o).word.toNat := by
  rw [toNat_iterate_next ho]
  exact Nat.le_add_right _ _

theorem isValid_iterate_next (n : Nat) : (next^[n] o).isValid = true := by
  rw [isValid, bne_iff_ne]
  intro hinvalid
  have hle := firstNormal_le_iterate_next ho n
  rw [hinvalid] at hle
  exact absurd hle (by decide)

end Oid

/-! ## What lies behind the counter -/

namespace MemoryCatalog

/-- **Everything handed out lies behind the counter**: it has been asked `k`
times since it stood at `start`, every identifier in use or lent out is one it
has passed, and none is both. -/
structure Behind (c : MemoryCatalog) (ids : ShadowIds) (start : Oid) (k : Nat) : Prop where
  next : c.next = Oid.next^[k] start
  used : ∀ oid, c.isUsed oid = true → ∃ j < k, Oid.next^[j] start = oid
  issued : ∀ oid, ids.isIssued oid = true → ∃ j < k, Oid.next^[j] start = oid
  apart : ∀ oid, ids.isIssued oid = true → c.isUsed oid = false

/-- The catalog with its counter one step on. -/
def advance (c : MemoryCatalog) : MemoryCatalog := { c with next := c.next.next }

variable {c c' : MemoryCatalog} {ids ids' : ShadowIds} {start relid oid : Oid} {k : Nat}

theorem behind_startingAt (oid : Oid) :
    (startingAt oid).Behind .empty (startingAt oid).next 0 where
  next := rfl
  used oid hused := by cases hused
  issued oid hissued := by cases hissued
  apart oid hissued := by cases hissued

theorem firstNormal_le_next_startingAt (oid : Oid) :
    Oid.firstNormal.word.toNat ≤ (startingAt oid).next.word.toNat := by
  unfold startingAt
  dsimp only
  split
  · exact le_refl _
  · rename_i hle
    exact UInt32.le_iff_toNat_le.1 (UInt32.not_lt.1 hle)

namespace Behind

theorem release (h : c.Behind ids start k) (oid : Oid) : c.Behind (ids.release oid) start k := by
  have hsub : ∀ o, (ids.release oid).isIssued o = true → ids.isIssued o = true := by
    intro o ho
    rw [ShadowIds.isIssued_iff, ShadowIds.release] at ho
    exact ShadowIds.isIssued_iff.2 (List.mem_filter.1 ho).1
  exact ⟨h.next, h.used, fun o ho => h.issued o (hsub o ho), fun o ho => h.apart o (hsub o ho)⟩

theorem foldl_release (h : c.Behind ids start k) (oids : List Oid) :
    c.Behind (oids.foldl ShadowIds.release ids) start k := by
  induction oids generalizing ids with
  | nil => exact h
  | cons oid oids ih => exact ih (h.release oid)

theorem reset (h : c.Behind ids start k) : c.Behind .empty start k where
  next := h.next
  used := h.used
  issued oid hissued := by cases hissued
  apart oid hissued := by cases hissued

/-- A request leaves everything behind. -/
theorem advance (h : c.Behind ids start k) : c.advance.Behind ids start (k + 1) where
  next := by
    rw [Function.iterate_succ_apply', ← h.next]
    rfl
  used oid hoid := by
    obtain ⟨j, hj, heq⟩ := h.used oid hoid
    exact ⟨j, Nat.lt_succ_of_lt hj, heq⟩
  issued oid hoid := by
    obtain ⟨j, hj, heq⟩ := h.issued oid hoid
    exact ⟨j, Nat.lt_succ_of_lt hj, heq⟩
  apart := h.apart

variable (hstart : Oid.firstNormal.word.toNat ≤ start.word.toNat)

include hstart

/-- What the counter has passed is not where it stands. -/
theorem ne_next (h : c.Behind ids start k) (hk : k < span) :
    ¬ ∃ j < k, Oid.next^[j] start = c.next := by
  rintro ⟨j, hj, heq⟩
  rw [h.next] at heq
  exact absurd (Oid.iterate_next_inj hstart (hj.trans hk) hk heq) hj.ne

theorem isUsed_next (h : c.Behind ids start k) (hk : k < span) : c.isUsed c.next = false :=
  Bool.eq_false_iff.2 fun hused => h.ne_next hstart hk (h.used _ hused)

theorem isIssued_next (h : c.Behind ids start k) (hk : k < span) : ids.isIssued c.next = false :=
  Bool.eq_false_iff.2 fun hissued => h.ne_next hstart hk (h.issued _ hissued)

/-- **What is taken** is where the counter stands. -/
theorem take (h : c.Behind ids start k) (hk : k < span) : c.take = (.ok c.next, c.advance) := by
  obtain ⟨n, hn⟩ : ∃ n, span = n + 1 := ⟨4294950911, rfl⟩
  have hfirst : c.search c.next span = (some c.next, c.next.next) := by
    rw [hn, search, h.isUsed_next hstart hk]
    rfl
  unfold MemoryCatalog.take
  rw [hfirst]
  rfl

theorem lend (h : c.Behind ids start k) (hk : k < span) (relid : Oid) :
    (c.find? relid = none ∧ ∃ e, c.lend relid = (.error e, c)) ∨
      c.lend relid = (.ok c.next, c.advance) := by
  unfold MemoryCatalog.lend
  split
  · rename_i hnone
    exact Or.inl ⟨Option.isNone_iff_eq_none.1 hnone, _, rfl⟩
  · rw [h.take hstart hk]
    exact Or.inr rfl

/-- **What is issued** is where the counter stands, at the first attempt. -/
theorem allocate (h : c.Behind ids start k) (hk : k < span) (relid : Oid) :
    (c.find? relid = none ∧ ∃ e, ids.allocate relid c = (.error e, ids, c)) ∨
      ids.allocate relid c = (.ok c.next, ⟨c.next :: ids.issued⟩, c.advance) := by
  have husable : ids.isUsable c.advance c.next = true := by
    have hvalid : c.next.isValid = true := h.next ▸ Oid.isValid_iterate_next hstart k
    have hissued : ids.issued.contains c.next = false := h.isIssued_next hstart hk
    have hused : Catalog.inUse c.advance c.next = false := h.isUsed_next hstart hk
    rw [ShadowIds.isUsable, hvalid, hissued, hused]
    rfl
  unfold ShadowIds.allocate ShadowIds.attempts
  rw [ShadowIds.draw]
  rcases h.lend hstart hk relid with ⟨hnone, e, hlend⟩ | hlend
  · have hlend' : Catalog.lend c relid = (.error e, c) := hlend
    rw [hlend']
    exact Or.inl ⟨hnone, _, rfl⟩
  · have hlend' : Catalog.lend c relid = (.ok c.next, c.advance) := hlend
    rw [hlend']
    dsimp only
    rw [if_pos husable]
    exact Or.inr rfl

/-- An identifier that a new object takes stays behind the counter. -/
theorem create (h : c.Behind ids start k) (hk : k < span) (hnext : c'.next = c.advance.next)
    (hused : ∀ o, c'.isUsed o = true ↔ o = c.next ∨ c.isUsed o = true) :
    c'.Behind ids start (k + 1) where
  next := hnext.trans h.advance.next
  used o ho := by
    rcases (hused o).1 ho with rfl | ho
    · exact ⟨k, Nat.lt_succ_self k, h.next.symm⟩
    · exact h.advance.used o ho
  issued := h.advance.issued
  apart o ho := by
    rw [Bool.eq_false_iff]
    intro hin
    rcases (hused o).1 hin with rfl | hin
    · rw [h.isIssued_next hstart hk] at ho
      cases ho
    · rw [h.apart o ho] at hin
      cases hin

/-- A relation is created where the counter stands. -/
theorem createTable (h : c.Behind ids start k) (hk : k < span) (t : NewTable) :
    (∃ e, c.createTable t = (.error e, c)) ∨
      ∃ c', c.createTable t = (.ok c.next, c') ∧ c'.next = c.advance.next ∧
        ∀ o, c'.isUsed o = true ↔ o = c.next ∨ c.isUsed o = true := by
  unfold MemoryCatalog.createTable
  split
  · exact Or.inl ⟨_, rfl⟩
  rw [h.take hstart hk]
  refine Or.inr ⟨_, rfl, rfl, fun o => ?_⟩
  rw [isUsed_iff, isUsed_iff]
  simp only [List.mem_append, List.mem_singleton, MemoryCatalog.advance]
  constructor
  · rintro (⟨r, hr | rfl, rfl⟩ | hi)
    · exact Or.inr (Or.inl ⟨r, hr, rfl⟩)
    · exact Or.inl rfl
    · exact Or.inr (Or.inr hi)
  · rintro (rfl | ⟨r, hr, rfl⟩ | hi)
    · exact Or.inl ⟨_, Or.inr rfl, rfl⟩
    · exact Or.inl ⟨r, Or.inl hr, rfl⟩
    · exact Or.inr hi

/-- So is an index. -/
theorem createIndex (h : c.Behind ids start k) (hk : k < span) (relid : Oid) (name : String)
    (m : AccessMethod) (columns : List String) (unique : Bool) :
    (∃ e, c.createIndex relid name m columns unique = (.error e, c)) ∨
      ∃ c', c.createIndex relid name m columns unique = (.ok c.next, c') ∧
        c'.next = c.advance.next ∧ ∀ o, c'.isUsed o = true ↔ o = c.next ∨ c.isUsed o = true := by
  unfold MemoryCatalog.createIndex
  split
  · exact Or.inl ⟨_, rfl⟩
  split
  · exact Or.inl ⟨_, rfl⟩
  rw [h.take hstart hk]
  refine Or.inr ⟨_, rfl, rfl, fun o => ?_⟩
  rw [isUsed_iff, isUsed_iff]
  simp only [(enterIndex_perm _ _).mem_iff, List.mem_cons, MemoryCatalog.advance]
  constructor
  · rintro (hr | ⟨i, rfl | hi, rfl⟩)
    · exact Or.inr (Or.inl hr)
    · exact Or.inl rfl
    · exact Or.inr (Or.inr ⟨i, hi, rfl⟩)
  · rintro (rfl | hr | ⟨i, hi, rfl⟩)
    · exact Or.inr ⟨_, Or.inl rfl, rfl⟩
    · exact Or.inl hr
    · exact Or.inr ⟨i, Or.inr hi, rfl⟩

/-- An identifier that is issued stays behind the counter. -/
theorem issue (h : c.Behind ids start k) (hk : k < span) :
    c.advance.Behind ⟨c.next :: ids.issued⟩ start (k + 1) := by
  have hcons : ∀ o, ShadowIds.isIssued ⟨c.next :: ids.issued⟩ o = true →
      o = c.next ∨ ids.isIssued o = true := by
    intro o ho
    rw [ShadowIds.isIssued_iff] at ho ⊢
    exact List.mem_cons.1 ho
  refine ⟨h.advance.next, h.advance.used, fun o ho => ?_, fun o ho => ?_⟩
  · rcases hcons o ho with rfl | ho
    · exact ⟨k, Nat.lt_succ_self k, h.next.symm⟩
    · exact h.advance.issued o ho
  · rcases hcons o ho with rfl | ho
    · exact h.isUsed_next hstart hk
    · exact h.apart o ho

end Behind

end MemoryCatalog

/-! ## Registration -/

namespace Extension

open MemoryCatalog

variable {x : Extension} {c : MemoryCatalog} {start relid : Oid} {k : Nat}
variable (hstart : Oid.firstNormal.word.toNat ≤ start.word.toNat)

/-- **After at most `n` requests**: the catalog differs in its counter alone, and
everything handed out lies behind it still. -/
def AskedFor (c : MemoryCatalog) (start : Oid) (k n : Nat) (ids : ShadowIds)
    (c' : MemoryCatalog) : Prop :=
  c' = { c with next := c'.next } ∧ ∃ k' ≤ k + n, c'.Behind ids start k'

include hstart

/-- Registering an index makes one request. -/
theorem registerIndex_askedFor (h : c.Behind x.ids start k) (hk : k < span) (spec : IndexSpec) :
    AskedFor c start k 1 (x.registerIndex c relid spec).2.1.ids
      (x.registerIndex c relid spec).2.2 := by
  have hsame : AskedFor c start k 1 x.ids c := ⟨rfl, k, Nat.le_succ k, h⟩
  unfold registerIndex
  split
  · exact hsame
  rcases h.allocate hstart hk relid with ⟨-, e, heq⟩ | heq
  · rw [heq]
    exact hsame
  · rw [heq]
    have hissue := h.issue hstart hk
    dsimp only
    split
    · exact ⟨rfl, k + 1, le_refl _, hissue.release _⟩
    · exact ⟨rfl, k + 1, le_refl _, hissue⟩

/-- **Planting makes a request for each node.** -/
theorem plantTree_askedFor (h : c.Behind x.ids start k) {l : Layout} (hk : k + l.size ≤ span)
    (r : Relation) :
    AskedFor c start k l.size (x.plantTree c relid r l).2.1.ids (x.plantTree c relid r l).2.2 := by
  -- good for `m` more draws: so many may be made without more than `l.size` in all
  let J : Nat → List Oid × ShadowIds × MemoryCatalog → Prop := fun m st =>
    st.2.2 = { c with next := st.2.2.next } ∧
      ∃ k', k' + m ≤ k + l.size ∧ st.2.2.Behind st.2.1 start k'
  have hless : ∀ m st, J (m + 1) st → J m st := by
    rintro m st ⟨hc, k', hk', hbehind⟩
    exact ⟨hc, k', by omega, hbehind⟩
  have hone : Layout.Spends J 1 (Layout.drawOne (drawFor relid)) := by
    rintro m ⟨drawn, ids, c₁⟩ ⟨drawn', ids', c'⟩ y ⟨hc, k', hk', hbehind⟩ hdraw
    have hlt : k' < span := by omega
    unfold Layout.drawOne at hdraw
    dsimp only at hdraw hc hbehind
    rcases hbehind.allocate hstart hlt relid with ⟨-, e, heq⟩ | heq
    · have heq' : drawFor relid (ids, c₁) = (.error e, ids, c₁) := heq
      rw [heq'] at hdraw
      cases hdraw
      exact ⟨hc, k', by omega, hbehind⟩
    · have heq' : drawFor relid (ids, c₁) = (.ok c₁.next, ⟨c₁.next :: ids.issued⟩, c₁.advance) := heq
      rw [heq'] at hdraw
      cases hdraw
      refine ⟨?_, k' + 1, by omega, hbehind.issue hstart hlt⟩
      show c₁.advance = _
      rw [hc]
      rfl
  have hstarted : J (0 + l.ordered.size) ([], x.ids, c) :=
    ⟨rfl, k, by rw [l.size_ordered]; omega, h⟩
  unfold plantTree
  rcases hp : l.plant (drawFor relid) r ([], x.ids, c) with ⟨e | nodes, drawn, ids', c'⟩
  all_goals
    obtain ⟨hc, k', hk', hbehind⟩ := Layout.spends_plant hless hone l hstarted hp
    dsimp only at hc hbehind
  · exact ⟨hc, k', hk', hbehind.foldl_release drawn⟩
  · dsimp only
    split
    · exact ⟨hc, k', hk', hbehind⟩
    · exact ⟨hc, k', hk', hbehind⟩

theorem registerTable_askedFor (h : c.Behind x.ids start k) {l : Layout} (hk : k + l.size ≤ span) :
    AskedFor c start k l.size (x.registerTable c relid l).2.1.ids
      (x.registerTable c relid l).2.2 := by
  have hsame : AskedFor c start k l.size x.ids c := ⟨rfl, k, Nat.le_add_right _ _, h⟩
  unfold registerTable
  split
  · exact hsame
  split
  · exact hsame
  split
  · exact hsame
  · exact plantTree_askedFor hstart h hk _

end Extension

end WhatIf
