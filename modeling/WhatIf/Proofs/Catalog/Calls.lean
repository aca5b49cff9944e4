import WhatIf.Proofs.Catalog.Counter
/-!
# Catalog — the store over all calls

The catalog in memory gives each object the first free identifier in cyclic
order from its counter (`take_cases`). What a call answers and what it leaves is
listed once (`Outcome`); all else is read off this list. What the calls keep
(`Sound`) is that the map of the names, the relations, the indexes and the links
go together.
-/

namespace WhatIf

namespace MemoryCatalog

variable {c : MemoryCatalog} {o oid : Oid}

/-! ## The search -/

/-- **How a search ends**: it has passed over as many as it may, or it has come
to the first that is free. -/
theorem search_cases (c : MemoryCatalog) (o : Oid) (fuel : Nat) :
    (c.search o fuel = (none, Oid.next^[fuel] o) ∧ ∀ k < fuel, c.isUsed (Oid.next^[k] o) = true) ∨
      ∃ k < fuel, c.search o fuel = (some (Oid.next^[k] o), (Oid.next^[k] o).next) ∧
        c.isUsed (Oid.next^[k] o) = false ∧ ∀ j < k, c.isUsed (Oid.next^[j] o) = true := by
  induction fuel generalizing o with
  | zero => exact Or.inl ⟨rfl, fun k hk => absurd hk (Nat.not_lt_zero k)⟩
  | succ fuel ih =>
    rw [search]
    split
    · rename_i hused
      -- what is used from the next candidate on is used from this one on
      have hstep : ∀ n, (∀ k < n, c.isUsed (Oid.next^[k] o.next) = true) →
          ∀ k < n + 1, c.isUsed (Oid.next^[k] o) = true := by
        rintro n hn (_ | k) hk
        · exact hused
        · exact hn k (Nat.lt_of_succ_lt_succ hk)
      rcases ih o.next with ⟨hsearch, hall⟩ | ⟨k, hk, hsearch, hfree, hbefore⟩
      · exact Or.inl ⟨hsearch, hstep fuel hall⟩
      · exact Or.inr ⟨k + 1, Nat.succ_lt_succ hk, hsearch, hfree, hstep k hbefore⟩
    · rename_i hfree
      exact Or.inr ⟨0, Nat.succ_pos fuel, rfl, Bool.eq_false_iff.2 hfree,
        fun j hj => absurd hj (Nat.not_lt_zero j)⟩

/-- That an identifier is the first free one in cyclic order from the counter. -/
def FirstFree (c : MemoryCatalog) (oid : Oid) : Prop :=
  ∃ k < span, oid = Oid.next^[k] c.next ∧ c.isUsed oid = false ∧
    ∀ j < k, c.isUsed (Oid.next^[j] c.next) = true

/-- That every identifier of the counter's range is in use. -/
def Full (c : MemoryCatalog) : Prop :=
  ∀ oid : Oid, Oid.firstNormal.word.toNat ≤ oid.word.toNat → c.isUsed oid = true

/-- **Taking an identifier**: all are in use and the search has brought the counter
back, or the first free one is taken and the counter stands behind it. -/
theorem take_cases (hnext : Oid.firstNormal.word.toNat ≤ c.next.word.toNat) :
    (c.Full ∧ c.take = (.error .identifiersExhausted, c)) ∨
      (¬ c.Full ∧ ∃ oid, c.FirstFree oid ∧ c.take = (.ok oid, { c with next := oid.next })) := by
  rcases c.search_cases c.next span with ⟨hsearch, hall⟩ | ⟨k, hk, hsearch, hfree, hbefore⟩
  · refine Or.inl ⟨fun oid hoid => ?_, ?_⟩
    · obtain ⟨k, hk, rfl⟩ := Oid.exists_iterate_next hnext hoid
      exact hall k hk
    · rw [take, hsearch, Oid.iterate_next_span hnext]
  · refine Or.inr ⟨fun hfull => ?_, _, ⟨k, hk, rfl, hfree, hbefore⟩, by rw [take, hsearch]⟩
    rw [hfull _ (Oid.firstNormal_le_iterate_next hnext k)] at hfree
    cases hfree

theorem FirstFree.isUsed (h : c.FirstFree oid) : c.isUsed oid = false := by
  obtain ⟨k, -, -, hfree, -⟩ := h
  exact hfree

/-- Where one is free, the range is not full. -/
theorem FirstFree.not_full (h : c.FirstFree oid)
    (hnext : Oid.firstNormal.word.toNat ≤ c.next.word.toNat) : ¬ c.Full := by
  obtain ⟨k, -, rfl, hfree, -⟩ := h
  intro hfull
  rw [hfull _ (Oid.firstNormal_le_iterate_next hnext k)] at hfree
  cases hfree

/-! ## Calls -/

/-- A call on the catalog. -/
inductive Call where
  | createTable (t : NewTable)
  | createIndex (relid : Oid) (name : String) (m : AccessMethod) (columns : List String)
    (unique : Bool)
  | inherit (parent child : Oid)
  | lend (relid : Oid)

/-- **One call**: the identifier handed out, where there is one, and the catalog
left. -/
def perform (c : MemoryCatalog) : Call → Except CatalogError (Option Oid) × MemoryCatalog
  | .createTable t => (c.createTable t).map (Except.map some) id
  | .createIndex relid name m columns unique =>
    (c.createIndex relid name m columns unique).map (Except.map some) id
  | .inherit parent child => (c.inherit parent child).map (Except.map fun _ => none) id
  | .lend relid => (c.lend relid).map (Except.map some) id

/-- A run of calls, one after the other. -/
def run (c : MemoryCatalog) (calls : List Call) : MemoryCatalog :=
  calls.foldl (fun c call => (c.perform call).2) c

/-! ## What the calls keep -/

/-- **The store agrees with itself**: the counter stands in its range, no two
objects share an identifier, and a name leads to the identifier of the relation
of that name, in whatever letter case. Indexes are listed in order and lie on
relations, and links join relations. -/
structure Sound (c : MemoryCatalog) : Prop where
  counter : Oid.firstNormal.word.toNat ≤ c.next.word.toNat
  oids : (c.relations.map (fun r => r.oid) ++ c.indexes.map fun i => i.oid).Nodup
  named : ∀ name oid, Keyed.find? c.names name = some oid ↔
    ∃ r ∈ c.relations, Text.lower r.name = name ∧ r.oid = oid
  sorted : c.indexes.Pairwise fun i j => i.oid.word < j.oid.word
  onRelations : ∀ i ∈ c.indexes, (c.find? i.relid).isSome
  linked : ∀ link ∈ c.links, (c.find? link.1).isSome ∧ (c.find? link.2).isSome

theorem sound_startingAt (oid : Oid) : (startingAt oid).Sound where
  counter := firstNormal_le_next_startingAt oid
  oids := List.nodup_nil
  named name oid := by simp [startingAt]
  sorted := .nil
  onRelations _ hi := absurd hi List.not_mem_nil
  linked _ hlink := absurd hlink List.not_mem_nil

/-- Nothing else depends on where the counter stands in its range. -/
theorem Sound.move (h : c.Sound) {next : Oid}
    (hnext : Oid.firstNormal.word.toNat ≤ next.word.toNat) : Sound { c with next } :=
  ⟨hnext, h.oids, h.named, h.sorted, h.onRelations, h.linked⟩

/-- The name map has a name if and only if a relation has it. -/
theorem Sound.find?_names_eq_none_iff (h : c.Sound) {name : String} :
    Keyed.find? c.names name = none ↔ ∀ r ∈ c.relations, Text.lower r.name ≠ name := by
  rw [Option.eq_none_iff_forall_ne_some]
  constructor
  · exact fun hnone r hr hname => hnone r.oid ((h.named name r.oid).2 ⟨r, hr, hname, rfl⟩)
  · intro hall oid hoid
    obtain ⟨r, hr, hname, -⟩ := (h.named name oid).1 hoid
    exact hall r hr hname

/-- A relation that is found is one of those listed. -/
theorem Sound.find?_iff (h : c.Sound) {r : Relation} :
    c.find? oid = some r ↔ r ∈ c.relations ∧ r.oid = oid :=
  find?_iff_of_nodup (List.nodup_append'.1 h.oids).1

theorem Sound.findIndex?_iff (h : c.Sound) {i : PhysicalIndex} :
    c.findIndex? oid = some i ↔ i ∈ c.indexes ∧ i.oid = oid :=
  find?_iff_of_nodup (List.nodup_append'.1 h.oids).2.1

/-- What no object uses is the identifier of none. -/
theorem not_mem_of_not_isUsed (h : c.isUsed oid = false) :
    oid ∉ c.relations.map (fun r => r.oid) ++ c.indexes.map fun i => i.oid := by
  intro hmem
  have hused : c.isUsed oid = true := by
    rw [isUsed_iff]
    rcases List.mem_append.1 hmem with hmem | hmem
    · exact Or.inl (List.mem_map.1 hmem)
    · exact Or.inr (List.mem_map.1 hmem)
  rw [hused] at h
  cases h

theorem find?_eq_none_of_not_isUsed (h : c.isUsed oid = false) : c.find? oid = none := by
  rw [isUsed, Bool.or_eq_false_iff] at h
  simpa using h.1

theorem findIndex?_eq_none_of_not_isUsed (h : c.isUsed oid = false) : c.findIndex? oid = none := by
  rw [isUsed, Bool.or_eq_false_iff] at h
  simpa using h.2

/-! ### A relation more -/

/-- A relation created under an identifier. -/
def addTable (c : MemoryCatalog) (t : NewTable) (oid : Oid) : MemoryCatalog where
  next := oid.next
  relations := c.relations ++ [t.relation oid]
  names := Keyed.insert c.names (Text.lower t.name) oid
  indexes := c.indexes
  links := c.links

theorem find?_addTable {t : NewTable} (hfree : c.isUsed oid = false) :
    (c.addTable t oid).find? o = if o = oid then some (t.relation oid) else c.find? o := by
  have hnone := find?_eq_none_of_not_isUsed hfree
  unfold find? at *
  rw [addTable, List.find?_append]
  split
  · rename_i heq
    rw [heq, hnone, Option.none_or]
    exact List.find?_cons_of_pos (beq_self_eq_true oid)
  · rename_i hne
    rw [List.find?_cons_of_neg (by simpa [NewTable.relation] using Ne.symm hne), List.find?_nil,
      Option.or_none]

/-- What was found is found still. -/
theorem isSome_find?_addTable {t : NewTable} (h : (c.find? o).isSome) :
    ((c.addTable t oid).find? o).isSome := by
  unfold find? at *
  rw [addTable, List.find?_append, Option.isSome_or, h, Bool.true_or]

/-- **A relation of a new name under a free identifier** leaves the store in
agreement with itself. -/
theorem Sound.addTable (h : c.Sound) {t : NewTable}
    (hnext : Oid.firstNormal.word.toNat ≤ oid.next.word.toNat) (hfree : c.isUsed oid = false)
    (hname : ∀ r ∈ c.relations, Text.lower r.name ≠ Text.lower t.name) :
    (c.addTable t oid).Sound where
  counter := hnext
  oids := by
    have hperm : (c.relations.map (fun r => r.oid) ++ oid :: c.indexes.map fun i => i.oid).Perm
        (oid :: (c.relations.map (fun r => r.oid) ++ c.indexes.map fun i => i.oid)) :=
      List.perm_middle
    rw [MemoryCatalog.addTable, List.map_append, List.append_assoc]
    exact hperm.nodup_iff.2 (List.nodup_cons.2 ⟨not_mem_of_not_isUsed hfree, h.oids⟩)
  named name oid' := by
    rw [MemoryCatalog.addTable, Keyed.find?_insert]
    simp only [List.mem_append, List.mem_singleton]
    -- the name is that of the new relation or of an old one, never of both
    split
    · rename_i hnew
      constructor
      · intro heq
        exact ⟨_, Or.inr rfl, hnew.symm, Option.some.inj heq⟩
      · rintro ⟨r, hr | rfl, hr', hoid⟩
        · exact absurd (hr'.trans hnew) (hname r hr)
        · exact congrArg some hoid
    · rename_i hold
      rw [h.named]
      constructor
      · rintro ⟨r, hr, hr'⟩
        exact ⟨r, Or.inl hr, hr'⟩
      · rintro ⟨r, hr | rfl, hr', hoid⟩
        · exact ⟨r, hr, hr', hoid⟩
        · exact absurd hr'.symm hold
  sorted := h.sorted
  onRelations i hi := isSome_find?_addTable (h.onRelations i hi)
  linked link hlink := (h.linked link hlink).imp isSome_find?_addTable isSome_find?_addTable

/-! ### An index more -/

/-- An index created under its identifier. -/
def addIndex (c : MemoryCatalog) (i : PhysicalIndex) : MemoryCatalog :=
  { c with next := i.oid.next, indexes := enterIndex i c.indexes }

theorem sorted_enterIndex {i : PhysicalIndex} {is : List PhysicalIndex}
    (h : is.Pairwise fun i j => i.oid.word < j.oid.word) (hnew : ∀ j ∈ is, j.oid ≠ i.oid) :
    (enterIndex i is).Pairwise fun i j => i.oid.word < j.oid.word := by
  induction is with
  | nil => exact List.pairwise_singleton _ _
  | cons j is ih =>
    obtain ⟨hfirst, hrest⟩ := List.pairwise_cons.1 h
    rw [enterIndex]
    split
    · rename_i hbefore
      refine List.pairwise_cons.2 ⟨fun k hk => ?_, h⟩
      rcases List.mem_cons.1 hk with rfl | hk
      · exact hbefore
      · exact UInt32.lt_trans hbefore (hfirst k hk)
    · rename_i hafter
      have hne : j.oid.word ≠ i.oid.word := fun heq =>
        hnew j List.mem_cons_self (Oid.eq_of_toNat (congrArg UInt32.toNat heq))
      have hbefore : j.oid.word < i.oid.word :=
        UInt32.lt_of_le_of_ne (UInt32.not_lt.1 hafter) hne
      refine List.pairwise_cons.2 ⟨fun k hk => ?_,
        ih hrest fun k hk => hnew k (List.mem_cons_of_mem _ hk)⟩
      rcases List.mem_cons.1 ((enterIndex_perm i is).mem_iff.1 hk) with rfl | hk
      · exact hbefore
      · exact hfirst k hk

/-- **An index on a relation under a free identifier** leaves the store in agreement
with itself. -/
theorem Sound.addIndex (h : c.Sound) {i : PhysicalIndex}
    (hnext : Oid.firstNormal.word.toNat ≤ i.oid.next.word.toNat) (hfree : c.isUsed i.oid = false)
    (hrelid : (c.find? i.relid).isSome) : (c.addIndex i).Sound where
  counter := hnext
  oids := by
    have hperm : (c.relations.map (fun r => r.oid) ++
        (enterIndex i c.indexes).map fun i => i.oid).Perm
          (i.oid :: (c.relations.map (fun r => r.oid) ++ c.indexes.map fun i => i.oid)) :=
      (((enterIndex_perm i c.indexes).map _).append_left _).trans List.perm_middle
    exact hperm.nodup_iff.2 (List.nodup_cons.2 ⟨not_mem_of_not_isUsed hfree, h.oids⟩)
  named := h.named
  sorted := sorted_enterIndex h.sorted fun j hj hoid =>
    not_mem_of_not_isUsed hfree (List.mem_append_right _ (List.mem_map.2 ⟨j, hj, hoid⟩))
  onRelations j hj := by
    rcases List.mem_cons.1 ((enterIndex_perm i c.indexes).mem_iff.1 hj) with rfl | hj
    · exact hrelid
    · exact h.onRelations j hj
  linked := h.linked

/-! ## What a call answers -/

/-- **That a call comes to ask for an identifier**: nothing else is wrong with it. -/
def Asks (c : MemoryCatalog) : Call → Prop
  | .createTable t => ∀ r ∈ c.relations, Text.lower r.name ≠ Text.lower t.name
  | .createIndex relid _ _ columns _ =>
    ∃ r, c.find? relid = some r ∧ ∀ name ∈ columns, (r.columnNamed? name).isSome
  | .inherit _ _ => False
  | .lend relid => (c.find? relid).isSome

/-- That columns of a relation are those of given names, in this order. -/
def ColumnsNamed (r : Relation) (names : List String) (columns : List Column) : Prop :=
  List.Forall₂ (fun name column => r.columnNamed? name = some column) names columns

/-- **What a call may answer and leave.** -/
inductive Outcome (c : MemoryCatalog) :
    Call → Except CatalogError (Option Oid) × MemoryCatalog → Prop
  | refused {call : Call} {e : CatalogError} (hasks : ¬ c.Asks call)
    (he : e ≠ .identifiersExhausted) : Outcome c call (.error e, c)
  | exhausted {call : Call} (hasks : c.Asks call) (hfull : c.Full) :
    Outcome c call (.error .identifiersExhausted, c)
  | created {t : NewTable} {oid : Oid} (hasks : c.Asks (.createTable t))
    (hfirst : c.FirstFree oid) :
    Outcome c (.createTable t) (.ok (some oid), c.addTable t oid)
  | indexed {relid : Oid} {name : String} {m : AccessMethod} {columns : List String} {unique : Bool}
    {r : Relation} {found : List Column} {oid : Oid}
    (hasks : c.Asks (.createIndex relid name m columns unique)) (hfirst : c.FirstFree oid)
    (hr : c.find? relid = some r) (hfound : ColumnsNamed r columns found) :
    Outcome c (.createIndex relid name m columns unique)
      (.ok (some oid), c.addIndex (newIndex r oid name m found unique))
  | linked {parent child : Oid} (hparent : (c.find? parent).isSome)
    (hchild : (c.find? child).isSome) :
    Outcome c (.inherit parent child) (.ok none, { c with links := c.links ++ [(parent, child)] })
  | lent {relid oid : Oid} (hasks : c.Asks (.lend relid)) (hfirst : c.FirstFree oid) :
    Outcome c (.lend relid) (.ok (some oid), { c with next := oid.next })

/-- The columns of an index are all found, or one is missing. -/
theorem keyColumns_cases (r : Relation) (names : List String) :
    (∃ columns, keyColumns r names = .ok columns ∧ ColumnsNamed r names columns) ∨
      ∃ name ∈ names, r.columnNamed? name = none ∧
        keyColumns r names = .error (.accessFailed (missingColumn r.name name)) := by
  induction names with
  | nil => exact Or.inl ⟨[], rfl, .nil⟩
  | cons name names ih =>
    rw [keyColumns]
    rcases hcolumn : r.columnNamed? name with _ | column
    · exact Or.inr ⟨name, List.mem_cons_self, hcolumn, rfl⟩
    · rcases ih with ⟨columns, hok, hall⟩ | ⟨other, hother, hnone, herror⟩
      · exact Or.inl ⟨column :: columns, by rw [hok]; rfl, .cons hcolumn hall⟩
      · exact Or.inr ⟨other, List.mem_cons_of_mem _ hother, hnone, by rw [herror]; rfl⟩

/-- Columns that go by names show that all are found. -/
theorem ColumnsNamed.isSome {r : Relation} {names : List String} {columns : List Column}
    (h : ColumnsNamed r names columns) : ∀ name ∈ names, (r.columnNamed? name).isSome := by
  induction h with
  | nil => exact fun name hname => absurd hname List.not_mem_nil
  | cons hcolumn _ ih =>
    refine List.forall_mem_cons.2 ⟨?_, ih⟩
    rw [hcolumn]
    rfl

variable {call : Call} {result : Except CatalogError (Option Oid) × MemoryCatalog}

/-- **Every call has such an outcome.** -/
theorem Sound.outcome (h : c.Sound) (call : Call) : c.Outcome call (c.perform call) := by
  cases call with
  | createTable t =>
    rw [perform, createTable]
    split
    · rename_i hnamed
      refine .refused (fun hasks => ?_) (by simp)
      rw [h.find?_names_eq_none_iff.2 hasks] at hnamed
      cases hnamed
    · rename_i hnamed
      have hasks : c.Asks (.createTable t) :=
        h.find?_names_eq_none_iff.1 (by simpa using hnamed)
      rcases take_cases h.counter with ⟨hfull, htake⟩ | ⟨-, oid, hfirst, htake⟩
      · rw [htake]
        exact .exhausted hasks hfull
      · rw [htake]
        exact .created hasks hfirst
  | createIndex relid name m columns unique =>
    rw [perform, createIndex]
    rcases hr : c.find? relid with _ | r
    · refine .refused ?_ (by simp)
      rintro ⟨r, hr', -⟩
      rw [hr] at hr'
      cases hr'
    · rcases keyColumns_cases r columns with ⟨found, hok, hall⟩ | ⟨missing, hmem, hnone, herror⟩
      · have hasks : c.Asks (.createIndex relid name m columns unique) := ⟨r, hr, hall.isSome⟩
        dsimp only
        rw [hok]
        rcases take_cases h.counter with ⟨hfull, htake⟩ | ⟨-, oid, hfirst, htake⟩
        · rw [htake]
          exact .exhausted hasks hfull
        · rw [htake]
          exact .indexed hasks hfirst hr hall
      · dsimp only
        rw [herror]
        refine .refused ?_ (by simp)
        rintro ⟨r', hr', hall⟩
        obtain rfl : r = r' := Option.some.inj (hr.symm.trans hr')
        have hsome := hall missing hmem
        rw [hnone] at hsome
        cases hsome
  | inherit parent child =>
    rw [perform, inherit]
    split
    · exact .refused id (by simp)
    · split
      · exact .refused id (by simp)
      · rename_i hparent hchild
        exact .linked (by simpa [Option.isSome_iff_ne_none] using hparent)
          (by simpa [Option.isSome_iff_ne_none] using hchild)
  | lend relid =>
    rw [perform, lend]
    split
    · rename_i hrelid
      refine .refused (fun hasks => ?_) (by simp)
      have hsome : (c.find? relid).isSome := hasks
      rw [Option.isNone_iff_eq_none.1 hrelid] at hsome
      cases hsome
    · rename_i hrelid
      have hasks : c.Asks (.lend relid) := by
        show (c.find? relid).isSome
        simpa [Option.isSome_iff_ne_none] using hrelid
      rcases take_cases h.counter with ⟨hfull, htake⟩ | ⟨-, oid, hfirst, htake⟩
      · rw [htake]
        exact .exhausted hasks hfull
      · rw [htake]
        exact .lent hasks hfirst

namespace Outcome

/-- What is handed out is free, and the counter stands behind it. -/
theorem handed (ho : c.Outcome call result) (hok : result.1 = .ok (some oid)) :
    c.FirstFree oid ∧ result.2.next = oid.next := by
  cases ho with
  | refused | exhausted | linked => cases hok
  | created hasks hfirst | indexed hasks hfirst | lent hasks hfirst =>
    obtain rfl := Option.some.inj (Except.ok.inj hok)
    exact ⟨hfirst, rfl⟩

/-- Where not all are in use, a call that asks is granted one. -/
theorem granted (ho : c.Outcome call result) (hasks : c.Asks call) (hfull : ¬ c.Full) :
    ∃ oid, result.1 = .ok (some oid) := by
  cases ho with
  | refused hnot => exact absurd hasks hnot
  | exhausted _ hall => exact absurd hall hfull
  | @created _ oid | @indexed _ _ _ _ _ _ _ oid | @lent _ oid => exact ⟨oid, rfl⟩
  | linked => exact hasks.elim

/-- Only where all are in use is there none left. -/
theorem exhausted_iff (ho : c.Outcome call result)
    (hnext : Oid.firstNormal.word.toNat ≤ c.next.word.toNat) :
    result.1 = .error .identifiersExhausted ↔ c.Asks call ∧ c.Full := by
  cases ho with
  | refused hasks he =>
    exact ⟨fun heq => absurd (Except.error.inj heq) he, fun hfull => absurd hfull.1 hasks⟩
  | exhausted hasks hfull => exact ⟨fun _ => ⟨hasks, hfull⟩, fun _ => rfl⟩
  | created hasks hfirst | indexed hasks hfirst | lent hasks hfirst =>
    refine ⟨fun heq => ?_, fun hfull => absurd hfull.2 (hfirst.not_full hnext)⟩
    cases heq
  | linked => exact ⟨fun heq => (by cases heq), fun hfull => hfull.1.elim⟩

/-- What fails changes nothing. -/
theorem failed (ho : c.Outcome call result) {e : CatalogError} (herror : result.1 = .error e) :
    result.2 = c := by
  cases ho with
  | refused | exhausted => rfl
  | created | indexed | linked | lent => cases herror

end Outcome

/-- **One call keeps the store sound**, whatever its outcome. -/
theorem Outcome.sound (ho : c.Outcome call result) (h : c.Sound) : result.2.Sound := by
  have hcounter : ∀ oid, c.FirstFree oid →
      Oid.firstNormal.word.toNat ≤ oid.next.word.toNat := by
    rintro oid ⟨k, -, rfl, -⟩
    rw [← Function.iterate_succ_apply' Oid.next]
    exact Oid.firstNormal_le_iterate_next h.counter (k + 1)
  cases ho with
  | refused | exhausted => exact h
  | @linked parent child hparent hchild =>
    refine ⟨h.counter, h.oids, h.named, h.sorted, h.onRelations, fun link hlink => ?_⟩
    rcases List.mem_append.1 hlink with hlink | hlink
    · exact h.linked link hlink
    · rw [List.mem_singleton.1 hlink]
      exact ⟨hparent, hchild⟩
  | lent hasks hfirst => exact h.move (hcounter _ hfirst)
  | created hasks hfirst => exact h.addTable (hcounter _ hfirst) hfirst.isUsed hasks
  | indexed hasks hfirst hr hfound =>
    refine h.addIndex (hcounter _ hfirst) hfirst.isUsed ?_
    show (c.find? (Relation.oid _)).isSome
    rw [(h.find?_iff.1 hr).2, hr]
    rfl

/-- So does a run of calls. -/
theorem Sound.run (h : c.Sound) (calls : List Call) : (c.run calls).Sound := by
  induction calls generalizing c with
  | nil => exact h
  | cons call calls ih => exact ih ((h.outcome call).sound h)

end MemoryCatalog

end WhatIf
