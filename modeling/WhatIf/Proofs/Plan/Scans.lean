import WhatIf.Plan.Search
import Mathlib.Data.List.Basic
/-!
# Plan — what a plan scans

The scans of a path are its leaves that read something: an entry of the range
table, in sequence or through an index. Which scans a relation's paths have is
read off how they are built: a base relation is scanned under its own entry
and through its own candidates, and an append path scans what its children
scan. The range table itself only grows while a query is planned.
-/

namespace WhatIf

/-! ## Scans -/

namespace Path

mutual

/-- The scans of the path and everything below it, each with the index it goes
through. -/
def scans : Path → List (RangeIndex × Option Oid)
  | append _ children => scansOfAll children
  | indexScan h i _ => [(h.entry, some i)]
  | bitmapScan h i _ => [(h.entry, some i)]
  | seqScan h => [(h.entry, none)]
  | dummy _ => []

/-- The scans of each of several paths. -/
def scansOfAll : List Path → List (RangeIndex × Option Oid)
  | [] => []
  | p :: ps => scans p ++ scansOfAll ps

end

/-- What holds of every path that reads one relation or none, and of an append
path whenever it holds of its children, holds of every path. -/
theorem induct {P : Path → Prop} (seqScan : ∀ h, P (.seqScan h))
    (indexScan : ∀ h i rs, P (.indexScan h i rs)) (bitmapScan : ∀ h i rs, P (.bitmapScan h i rs))
    (append : ∀ h ps, (∀ p ∈ ps, P p) → P (.append h ps)) (dummy : ∀ h, P (.dummy h)) :
    ∀ p, P p :=
  @Path.rec P (fun ps => ∀ p ∈ ps, P p) seqScan indexScan bitmapScan append dummy (by simp)
    fun p ps hp hps q hq => by
      rcases List.mem_cons.1 hq with rfl | hq
      · exact hp
      · exact hps q hq

theorem scansOfAll_eq (ps : List Path) : scansOfAll ps = ps.flatMap scans := by
  induction ps with
  | nil => rfl
  | cons p ps ih => rw [scansOfAll, ih, List.flatMap_cons]

theorem indexesOfAll_eq (ps : List Path) : indexesOfAll ps = ps.flatMap indexes := by
  induction ps with
  | nil => rfl
  | cons p ps ih => rw [indexesOfAll, ih, List.flatMap_cons]

theorem scans_append {h : PathHead} {ps : List Path} :
    (append h ps).scans = ps.flatMap scans := by
  rw [scans, scansOfAll_eq]

/-- A path that scans something reads something. -/
theorem isDummy_of_mem_scans {p : Path} {scan : RangeIndex × Option Oid} (h : scan ∈ p.scans) :
    p.isDummy = false := by
  cases p with
  | dummy _ =>
    rw [scans] at h
    cases h
  | _ => rfl

/-- The indexes of a path are those its scans go through. -/
theorem mem_indexes_iff {p : Path} {oid : Oid} :
    oid ∈ p.indexes ↔ ∃ i, (i, some oid) ∈ p.scans := by
  induction p using Path.induct with
  | seqScan h => simp [indexes, scans]
  | indexScan h i rs => simp [indexes, scans]
  | bitmapScan h i rs => simp [indexes, scans]
  | dummy h => simp [indexes, scans]
  | append h ps ih =>
    rw [indexes, indexesOfAll_eq, scans_append, List.mem_flatMap]
    constructor
    · rintro ⟨p, hp, hoid⟩
      obtain ⟨i, hi⟩ := (ih p hp).1 hoid
      exact ⟨i, List.mem_flatMap.2 ⟨p, hp, hi⟩⟩
    · rintro ⟨i, hi⟩
      obtain ⟨p, hp, hi⟩ := List.mem_flatMap.1 hi
      exact ⟨p, hp, (ih p hp).2 ⟨i, hi⟩⟩

/-- The cheapest of several paths is one of them. -/
theorem mem_of_cheapest? {ps : List Path} {p : Path} (h : cheapest? ps = some p) : p ∈ ps := by
  have hbest : ∀ p, cheapest? ps = some p → p ∈ ps := by
    refine List.foldlRecOn (motive := fun best => ∀ p, best = some p → p ∈ ps) ps _ ?_ ?_
    · intro p hnone
      cases hnone
    · intro best hbest q hq p hp
      split at hp
      · split at hp
        · exact hbest p hp
        · exact Option.some.inj hp ▸ hq
      · exact Option.some.inj hp ▸ hq
  exact hbest p h

/-- There is a cheapest path where there is one. -/
theorem cheapest?_isSome {ps : List Path} (h : ps ≠ []) : (cheapest? ps).isSome := by
  cases ps with
  | nil => exact absurd rfl h
  | cons p ps =>
    unfold cheapest?
    rw [List.foldl_cons]
    refine List.foldlRecOn (motive := fun best : Option Path => best.isSome = true) ps _ rfl ?_
    intro best _ q _
    split
    · split
      · rfl
      · rfl
    · rfl

end Path

/-! ## The paths of a relation -/

/-- An index once it is known whether restrictions imply its predicate. -/
def Candidate.judged (x : Candidate) (rs : List Restriction) : Candidate :=
  { x with implied := !x.isPartial || Restriction.allImply rs x.predicate }

namespace RelState

variable {rel : RelState} {s : Settings} {p : Path}

/-- **A scan of the relation itself**: under its entry, in sequence or through
an index. -/
def ScansBy (rel : RelState) (index? : Option Oid) (p : Path) : Prop :=
  p.scans = [(rel.entry, index?)]

/-- **The paths through an index**: the index can be used for the restrictions that
it answers. These are the conditions, and the others are the filter. -/
theorem mem_indexPaths {x : Candidate} (h : p ∈ rel.indexPaths s x) :
    (x.isPartial = true → x.implied = true) ∧
      x.isUsableWith (rel.restrictions.filter x.answers) = true ∧
      ∃ head conditions, (p = .indexScan head x.oid conditions ∨
          p = .bitmapScan head x.oid conditions) ∧
        conditions = rel.restrictions.filter x.answers ∧
        ∃ cost, head =
          rel.headWith cost (rel.restrictions.filter fun r => !conditions.contains r) := by
  unfold indexPaths at h
  dsimp only at h
  split at h
  · cases h
  rename_i hopen
  obtain ⟨hpartial, husable⟩ : (x.isPartial = true → x.implied = true) ∧
      x.isUsableWith (rel.restrictions.filter x.answers) = true := by simpa using hopen
  refine ⟨hpartial, husable, ?_⟩
  rcases List.mem_append.1 h with h | h
  · split at h
    · exact ⟨_, _, Or.inl (List.mem_singleton.1 h), rfl, _, rfl⟩
    · cases h
  · split at h
    · exact ⟨_, _, Or.inr (List.mem_singleton.1 h), rfl, _, rfl⟩
    · cases h

/-- A path through an index scans the relation through that index. -/
theorem scansBy_of_mem_indexPaths {x : Candidate} (h : p ∈ rel.indexPaths s x) :
    rel.ScansBy (some x.oid) p := by
  obtain ⟨-, -, head, conditions, rfl | rfl, -, cost, rfl⟩ := mem_indexPaths h
  · rfl
  · rfl

/-- **The paths of a base relation**, apart from those it had: it is scanned in
sequence or through a candidate. -/
theorem mem_addBasePaths {p : Path} (h : p ∈ (rel.addBasePaths s).paths) :
    p ∈ rel.paths ∨ rel.ScansBy none p ∨ ∃ x ∈ rel.candidates, rel.ScansBy (some x.oid) p := by
  unfold addBasePaths at h
  dsimp only at h
  rcases List.mem_append.1 h with h | h
  · exact Or.inl h
  · rcases List.mem_cons.1 h with rfl | h
    · exact Or.inr (Or.inl rfl)
    · obtain ⟨x, hx, hp⟩ := List.mem_flatMap.1 h
      obtain ⟨y, hy, rfl⟩ := List.mem_map.1 hx
      have hscan := scansBy_of_mem_indexPaths hp
      exact Or.inr (Or.inr ⟨y, hy, hscan⟩)

/-- The relation with the number of rows expected to pass its restrictions. -/
def estimated (rel : RelState) : RelState :=
  { rel with rows := clampRows (rel.tuples * Selectivity.ofAll rel.restrictions rel.columns) }

/-- **The paths of a base relation in order**: those it had, the one in sequence,
and those through each index in turn. -/
theorem paths_addBasePaths : (rel.addBasePaths s).paths =
    rel.paths ++ rel.estimated.seqPath s ::
      rel.candidates.flatMap fun x => rel.estimated.indexPaths s (x.judged rel.restrictions) := by
  unfold addBasePaths
  dsimp only
  rw [List.flatMap_map]
  rfl

/-- **The path through the children** of a relation that had no path: it appends
theirs, or is a dummy one. -/
theorem mem_addAppendPath (hpaths : rel.paths = []) {ps : List Path}
    (h : p ∈ (rel.addAppendPath ps).paths) :
    (∃ head, p = .dummy head) ∨ ∃ head, p = .append head ps := by
  unfold addAppendPath at h
  split at h
  · exact Or.inl ⟨_, List.mem_singleton.1 h⟩
  · dsimp only [addPath] at h
    rw [hpaths, List.nil_append] at h
    exact Or.inr ⟨_, List.mem_singleton.1 h⟩

end RelState

/-! ## The range table -/

namespace PlanState

/-- **A range table that has grown**: what was in it is still there, in the
same places. -/
structure Extends (p q : PlanState) : Prop where
  entries : p.entries <+: q.entries
  links : p.links <+: q.links
  settings : q.settings = p.settings

variable {p q r : PlanState} {i : RangeIndex} {e : RangeEntry}

theorem Extends.refl (p : PlanState) : p.Extends p := ⟨List.prefix_rfl, List.prefix_rfl, rfl⟩

theorem Extends.trans (h : p.Extends q) (h' : q.Extends r) : p.Extends r :=
  ⟨h.entries.trans h'.entries, h.links.trans h'.links, h'.settings.trans h.settings⟩

/-- An entry stays where it is. -/
theorem Extends.entry? (h : p.Extends q) (he : p.entry? i = some e) : q.entry? i = some e := by
  unfold PlanState.entry? at he ⊢
  split
  · rename_i hzero
    rw [if_pos hzero] at he
    cases he
  · rename_i hzero
    rw [if_neg hzero] at he
    obtain ⟨added, hadded⟩ := h.entries
    rw [← hadded, List.getElem?_append_left (List.getElem?_eq_some_iff.1 he).1, he]

theorem mem_of_entry? (h : p.entry? i = some e) : e ∈ p.entries := by
  unfold PlanState.entry? at h
  split at h
  · cases h
  · exact List.mem_of_getElem? h

theorem extends_addChild (p : PlanState) (i : RangeIndex) (e : RangeEntry) :
    p.Extends (p.addChild i e).2 :=
  ⟨List.prefix_append .., List.prefix_append .., rfl⟩

end PlanState

end WhatIf
