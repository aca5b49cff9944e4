import WhatIf.Proofs.Catalog.Calls
/-!
# Catalog — what the store can be relied on for

After any run of calls the lookups of the catalog in memory agree with each other,
identifiers come in the order of the counter, a call that fails leaves everything
as it was, and a call that succeeds adds what it was asked for and changes no other
lookup (`run_dependable`). A relation that is added is under a name and an
identifier that nothing had, so no lookup that found something finds another.
-/

namespace WhatIf

namespace MemoryCatalog

variable {c c' : MemoryCatalog} {oid parent child : Oid}

/-! ## What is added -/

/-- **That a relation has been added**: it is found by its identifier and by its
name, no index is on it, and every other lookup answers as before. -/
structure AddsTable (c c' : MemoryCatalog) (r : Relation) : Prop where
  relation : ∀ oid, Catalog.relation c' oid = if oid = r.oid then .ok r else Catalog.relation c oid
  relationNamed : ∀ name, Catalog.relationNamed c' name =
    if Text.lower name = Text.lower r.name then .ok r else Catalog.relationNamed c name
  indexes : ∀ oid, Catalog.indexes c' oid = if oid = r.oid then .ok [] else Catalog.indexes c oid
  index : ∀ oid, Catalog.index c' oid = Catalog.index c oid
  children : ∀ oid, Catalog.children c' oid = Catalog.children c oid

/-- **That an index has been added**: it is found by its identifier, it is listed
among those on its relation, and every other lookup answers as before. -/
structure AddsIndex (c c' : MemoryCatalog) (i : PhysicalIndex) : Prop where
  relation : ∀ oid, Catalog.relation c' oid = Catalog.relation c oid
  relationNamed : ∀ name, Catalog.relationNamed c' name = Catalog.relationNamed c name
  listed : ∃ before after, Catalog.indexes c i.relid = .ok (before ++ after) ∧
    Catalog.indexes c' i.relid = .ok (before ++ i :: after)
  indexes : ∀ oid, oid ≠ i.relid → Catalog.indexes c' oid = Catalog.indexes c oid
  index : ∀ oid, Catalog.index c' oid = if oid = i.oid then .ok i else Catalog.index c oid
  children : ∀ oid, Catalog.children c' oid = Catalog.children c oid

/-- **That a link has been added**, as the last of its parent, and every other
lookup answers as before. -/
structure AddsLink (c c' : MemoryCatalog) (parent child : Oid) : Prop where
  relation : ∀ oid, Catalog.relation c' oid = Catalog.relation c oid
  relationNamed : ∀ name, Catalog.relationNamed c' name = Catalog.relationNamed c name
  indexes : ∀ oid, Catalog.indexes c' oid = Catalog.indexes c oid
  index : ∀ oid, Catalog.index c' oid = Catalog.index c oid
  children : ∀ oid, Catalog.children c' oid =
    if oid = parent then .ok (c.childrenOf parent ++ [child]) else Catalog.children c oid

theorem Sound.addsTable (h : c.Sound) {t : NewTable} (hfree : c.isUsed oid = false) :
    AddsTable c (c.addTable t oid) (t.relation oid) where
  relation o := by
    show orError ((c.addTable t oid).find? o) _ = if o = oid then _ else orError (c.find? o) _
    rw [find?_addTable hfree]
    split
    · rfl
    · rfl
  relationNamed name := by
    show orError ((Keyed.find? (Keyed.insert c.names (Text.lower t.name) oid) _).bind _) _ =
      if Text.lower name = Text.lower t.name then _ else orError (c.findNamed? name) _
    rw [Keyed.find?_insert]
    split
    · rw [Option.bind_some, find?_addTable hfree, if_pos rfl]
      rfl
    · -- an old name leads to an old relation, which has another identifier
      have hold : (Keyed.find? c.names (Text.lower name)).bind (c.addTable t oid).find? =
          (Keyed.find? c.names (Text.lower name)).bind c.find? := by
        rcases hfound : Keyed.find? c.names (Text.lower name) with _ | o
        · rfl
        · obtain ⟨r, hr, -, hoid⟩ := (h.named _ o).1 hfound
          have hne : o ≠ oid := by
            rintro rfl
            exact not_mem_of_not_isUsed hfree
              (List.mem_append_left _ (List.mem_map.2 ⟨r, hr, hoid⟩))
          rw [Option.bind_some, Option.bind_some, find?_addTable hfree, if_neg hne]
      rw [hold, findNamed?]
  indexes o := by
    show (c.addTable t oid).indexesOn o = if o = oid then _ else c.indexesOn o
    rw [indexesOn, find?_addTable hfree]
    by_cases heq : o = oid
    · -- an index on it would be on a relation that was not there
      have hnone : (c.addTable t oid).indexes.filter (fun i => i.relid == o) = [] := by
        refine List.filter_eq_nil_iff.2 fun i hi hon => ?_
        have hfound := h.onRelations i hi
        rw [beq_iff_eq.1 hon, heq, find?_eq_none_of_not_isUsed hfree] at hfound
        cases hfound
      rw [if_pos heq, if_pos heq, hnone]
      rfl
    · rw [if_neg heq, if_neg heq]
      rfl
  index _ := rfl
  children _ := rfl

/-- The indexes on a relation, where the others stand around one that is entered. -/
theorem indexes_of_split {before after : List PhysicalIndex} (hsplit : c.indexes = before ++ after)
    (hfound : (c.find? oid).isSome) : Catalog.indexes c oid =
      .ok ((before.filter fun j => j.relid == oid) ++ after.filter fun j => j.relid == oid) := by
  show c.indexesOn oid = _
  rw [indexesOn, if_neg (by simpa [Option.isSome_iff_ne_none] using hfound), hsplit,
    List.filter_append]

theorem addsIndex {i : PhysicalIndex} (hfree : c.isUsed i.oid = false)
    (hrelid : (c.find? i.relid).isSome) : AddsIndex c (c.addIndex i) i := by
  obtain ⟨before, after, hbefore, hafter⟩ := enterIndex_eq i c.indexes
  refine ⟨fun _ => rfl, fun _ => rfl, ?_, fun o ho => ?_, fun o => ?_, fun _ => rfl⟩
  · refine ⟨_, _, indexes_of_split hbefore hrelid,
      (indexes_of_split (c := c.addIndex i) hafter hrelid).trans ?_⟩
    rw [List.filter_cons_of_pos (by simp)]
  · by_cases hfound : (c.find? o).isSome
    · rw [indexes_of_split hbefore hfound, indexes_of_split (c := c.addIndex i) hafter hfound,
        List.filter_cons_of_neg (by simpa using Ne.symm ho)]
    · have hnone : (c.find? o).isNone = true := by simpa using hfound
      show (if (c.find? o).isNone = true then _ else _) = c.indexesOn o
      rw [indexesOn, if_pos hnone, if_pos hnone]
  · show orError ((enterIndex i c.indexes).find? fun j => j.oid == o) _ =
      if o = i.oid then _ else orError (c.findIndex? o) _
    have hnone := findIndex?_eq_none_of_not_isUsed hfree
    unfold findIndex? at hnone ⊢
    rw [hbefore, List.find?_append, Option.or_eq_none_iff] at hnone
    rw [hafter, hbefore, List.find?_append, List.find?_append]
    split
    · rename_i heq
      rw [heq, hnone.1, List.find?_cons_of_pos (by simp)]
      rfl
    · rename_i hne
      rw [List.find?_cons_of_neg (by simpa using Ne.symm hne)]

theorem addsLink (c : MemoryCatalog) (parent child : Oid) :
    AddsLink c { c with links := c.links ++ [(parent, child)] } parent child where
  relation _ := rfl
  relationNamed _ := rfl
  indexes _ := rfl
  index _ := rfl
  children o := by
    show Except.ok
      (((c.links ++ [(parent, child)]).filter fun link => link.1 == o).map Prod.snd) = _
    rw [List.filter_append, List.map_append]
    split
    · rename_i heq
      rw [heq, List.filter_cons_of_pos (by simp)]
      rfl
    · rename_i hne
      rw [List.filter_cons_of_neg (by simpa using Ne.symm hne), List.filter_nil, List.map_nil,
        List.append_nil]
      rfl

/-! ### The calls that add it -/

namespace Outcome

variable {result : Except CatalogError (Option Oid) × MemoryCatalog}

theorem of_createTable {t : NewTable} (ho : c.Outcome (.createTable t) result) (h : c.Sound)
    (hok : result.1 = .ok (some oid)) : AddsTable c result.2 (t.relation oid) := by
  cases ho with
  | refused | exhausted => cases hok
  | created hasks hfirst =>
    obtain rfl := Option.some.inj (Except.ok.inj hok)
    exact h.addsTable hfirst.isUsed

theorem of_createIndex {relid : Oid} {name : String} {m : AccessMethod} {columns : List String}
    {unique : Bool} (ho : c.Outcome (.createIndex relid name m columns unique) result) (h : c.Sound)
    (hok : result.1 = .ok (some oid)) :
    ∃ r found, Catalog.relation c relid = .ok r ∧ ColumnsNamed r columns found ∧
      AddsIndex c result.2 (newIndex r oid name m found unique) := by
  cases ho with
  | refused | exhausted => cases hok
  | @indexed _ _ _ _ _ r found _ hasks hfirst hr hfound =>
    obtain rfl := Option.some.inj (Except.ok.inj hok)
    refine ⟨r, found, orError_eq_ok_iff.2 hr, hfound, addsIndex hfirst.isUsed ?_⟩
    show (c.find? r.oid).isSome
    rw [(h.find?_iff.1 hr).2, hr]
    rfl

theorem of_inherit (ho : c.Outcome (.inherit parent child) result) (hok : result.1 = .ok none) :
    AddsLink c result.2 parent child := by
  cases ho with
  | refused | exhausted => cases hok
  | linked => exact c.addsLink parent child

theorem of_lend {relid : Oid} (ho : c.Outcome (.lend relid) result)
    (hok : result.1 = .ok (some oid)) : result.2 = { c with next := oid.next } := by
  cases ho with
  | refused | exhausted => cases hok
  | lent =>
    obtain rfl := Option.some.inj (Except.ok.inj hok)
    rfl

end Outcome

/-! ## Lookups -/

theorem Sound.relation_iff (h : c.Sound) {r : Relation} :
    Catalog.relation c oid = .ok r ↔ r ∈ c.relations ∧ r.oid = oid :=
  relation_iff_of_nodup (List.nodup_append'.1 h.oids).1

/-- By name exactly the relation of this name, in whatever letter case. -/
theorem Sound.relationNamed_iff (h : c.Sound) {r : Relation} {name : String} :
    Catalog.relationNamed c name = .ok r ↔
      r ∈ c.relations ∧ Text.lower r.name = Text.lower name := by
  refine orError_eq_ok_iff.trans (Option.bind_eq_some_iff.trans ⟨?_, ?_⟩)
  · rintro ⟨o, ho, hfound⟩
    -- the map leads to a relation of the name, and this is the one of its identifier
    obtain ⟨r', hr', hname, hoid⟩ := (h.named _ o).1 ho
    obtain rfl : r' = r := Option.some.inj ((h.find?_iff.2 ⟨hr', hoid⟩).symm.trans hfound)
    exact ⟨hr', hname⟩
  · rintro ⟨hr, hname⟩
    exact ⟨r.oid, (h.named _ _).2 ⟨r, hr, hname, rfl⟩, h.find?_iff.2 ⟨hr, rfl⟩⟩

/-- No two relations have one name, in whatever letter case. -/
theorem Sound.nodup_names (h : c.Sound) : (c.relations.map fun r => Text.lower r.name).Nodup := by
  have hoids := (List.nodup_append'.1 h.oids).1
  refine List.Nodup.map_on (fun r hr r' hr' heq => ?_) hoids.of_map
  have hr'' := h.relationNamed_iff.2 ⟨hr, heq⟩
  exact Except.ok.inj (hr''.symm.trans (h.relationNamed_iff.2 ⟨hr', rfl⟩))

/-! ## At any time -/

/-- **What holds of a catalog in memory at any time.** -/
structure Dependable (c : MemoryCatalog) : Prop where
  /-- The counter stands in its range. -/
  counter : 16384 ≤ c.next.word.toNat ∧ c.next.word.toNat ≤ 4294967295
  /-- No two objects share an identifier. -/
  oids : (c.relations.map (fun r => r.oid) ++ c.indexes.map fun i => i.oid).Nodup
  /-- No two names differ in letter case alone. -/
  names : (c.relations.map fun r => Text.lower r.name).Nodup
  /-- By identifier exactly the relation of this identifier is found. -/
  relation : ∀ oid r, Catalog.relation c oid = .ok r ↔ r ∈ c.relations ∧ r.oid = oid
  /-- By name exactly the relation of this name is found. -/
  named : ∀ name r, Catalog.relationNamed c name = .ok r ↔
    r ∈ c.relations ∧ Text.lower r.name = Text.lower name
  /-- The map of the names leads to the relations of these names, and to no other
  identifier. -/
  agree : ∀ name oid, Keyed.find? c.names name = some oid ↔
    ∃ r, Catalog.relation c oid = .ok r ∧ Text.lower r.name = name
  /-- By identifier exactly the index of this identifier is found. -/
  index : ∀ oid i, Catalog.index c oid = .ok i ↔ i ∈ c.indexes ∧ i.oid = oid
  /-- Each index is listed once, on a relation, in the order of the identifiers. -/
  listed : ∀ i ∈ c.indexes, ∃ is, Catalog.indexes c i.relid = .ok is ∧ i ∈ is
  sorted : ∀ relid is, Catalog.indexes c relid = .ok is →
    is.Pairwise fun i j => i.oid.word < j.oid.word
  /-- Links join relations. -/
  linked : ∀ parent child, child ∈ c.childrenOf parent →
    (∃ r, Catalog.relation c parent = .ok r) ∧ ∃ r, Catalog.relation c child = .ok r
  /-- What is handed out is the first free identifier, and the counter stands
  behind it. -/
  handed : ∀ call oid, (c.perform call).1 = .ok (some oid) →
    c.FirstFree oid ∧ (c.perform call).2.next = oid.next
  /-- A call that asks for an identifier is refused if and only if all are in
  use. -/
  exhausted : ∀ call, (c.perform call).1 = .error .identifiersExhausted ↔ c.Asks call ∧ c.Full
  granted : ∀ call, c.Asks call → ¬ c.Full → ∃ oid, (c.perform call).1 = .ok (some oid)
  /-- A call that fails leaves everything as it was. -/
  failed : ∀ call e, (c.perform call).1 = .error e → (c.perform call).2 = c
  /-- A call that succeeds adds what it was asked for, and nothing else. -/
  created : ∀ t oid, (c.createTable t).1 = .ok oid →
    AddsTable c (c.createTable t).2 (t.relation oid)
  indexed : ∀ relid name m columns unique oid,
    (c.createIndex relid name m columns unique).1 = .ok oid →
      ∃ r found, Catalog.relation c relid = .ok r ∧ ColumnsNamed r columns found ∧
        AddsIndex c (c.createIndex relid name m columns unique).2
          (newIndex r oid name m found unique)
  inherited : ∀ parent child, (c.inherit parent child).1 = .ok () →
    AddsLink c (c.inherit parent child).2 parent child
  lent : ∀ relid oid, (c.lend relid).1 = .ok oid → (c.lend relid).2 = { c with next := oid.next }

/-- What is sound is dependable. -/
theorem Sound.dependable (h : c.Sound) : c.Dependable where
  counter := ⟨h.counter, Nat.le_of_lt_succ c.next.word.toNat_lt⟩
  oids := h.oids
  names := h.nodup_names
  relation _ _ := h.relation_iff
  named _ _ := h.relationNamed_iff
  agree name oid := by
    simp only [h.named, h.relation_iff]
    constructor
    · rintro ⟨r, hr, hname, hoid⟩
      exact ⟨r, ⟨hr, hoid⟩, hname⟩
    · rintro ⟨r, ⟨hr, hoid⟩, hname⟩
      exact ⟨r, hr, hname, hoid⟩
  index _ _ := orError_eq_ok_iff.trans h.findIndex?_iff
  listed i hi := by
    have hsome := h.onRelations i hi
    refine ⟨c.indexes.filter fun j => j.relid == i.relid, ?_,
      List.mem_filter.2 ⟨hi, beq_self_eq_true _⟩⟩
    show c.indexesOn i.relid = _
    rw [indexesOn, if_neg (by simpa [Option.isSome_iff_ne_none] using hsome)]
  sorted relid is his := by
    have hlist : c.indexesOn relid = .ok is := his
    unfold indexesOn at hlist
    split at hlist
    · cases hlist
    · exact Except.ok.inj hlist ▸ h.sorted.filter _
  linked parent child hchild := by
    have hlink : (parent, child) ∈ c.links := by simpa [childrenOf] using hchild
    obtain ⟨hparent, hchild⟩ := h.linked _ hlink
    obtain ⟨r, hr⟩ := Option.isSome_iff_exists.1 hparent
    obtain ⟨r', hr'⟩ := Option.isSome_iff_exists.1 hchild
    exact ⟨⟨r, orError_eq_ok_iff.2 hr⟩, r', orError_eq_ok_iff.2 hr'⟩
  handed call oid hok := (h.outcome call).handed hok
  exhausted call := (h.outcome call).exhausted_iff h.counter
  granted call hasks hfull := (h.outcome call).granted hasks hfull
  failed call e herror := (h.outcome call).failed herror
  created t oid hok :=
    (h.outcome (.createTable t)).of_createTable h (congrArg (Except.map some) hok)
  indexed relid name m columns unique oid hok :=
    (h.outcome (.createIndex relid name m columns unique)).of_createIndex h
      (congrArg (Except.map some) hok)
  inherited parent child hok :=
    (h.outcome (.inherit parent child)).of_inherit (congrArg (Except.map fun _ => none) hok)
  lent relid oid hok := (h.outcome (.lend relid)).of_lend (congrArg (Except.map some) hok)

/-- **The catalog in memory is dependable after any run of calls**, wherever its
counter starts. -/
theorem run_dependable (start : Oid) (calls : List Call) :
    ((startingAt start).run calls).Dependable :=
  ((sound_startingAt start).run calls).dependable

example : ((startingAt Oid.last).perform (.createTable
    { name := "t", kind := .relation, persistence := .permanent, columns := [], pages := 0,
      tuples := 0 })).2.next = Oid.firstNormal := by decide +kernel

end MemoryCatalog

end WhatIf
