import WhatIf.Proofs.Hook.Coupled
import WhatIf.Proofs.Plan.Entry
/-!
# Plan — what additional indexes change

A query is planned twice, the second time with some indexes more. Their paths
come after all others of a relation, and of two equally cheap paths the first is
chosen, so either the choice stays as it was or it falls on one of theirs. The
second path therefore has the shape of the first, and its scans are those of the
first but for some through an additional index (`Path.DiffersBy`). What else
planning produces is the same both times.
-/

namespace WhatIf

/-! ## Paths -/

namespace Path

/-- Whether the path scans a relation, in sequence or through an index. -/
def isScan : Path → Bool
  | seqScan _ | indexScan _ _ _ | bitmapScan _ _ _ => true
  | append _ _ | dummy _ => false

/-- **A path that differs by some indexes only.** It has the shape of the other;
each of its scans is the one that the other has in its place, or goes through
one of the indexes and reads the same entry for the same number of rows. An
append path differs in its costs, and only if its children differ. -/
inductive DiffersBy (new : Oid → Prop) : Path → Path → Prop
  | same (p : Path) : DiffersBy new p p
  | displaced {p q : Path} {oid : Oid} (hscan : p.isScan = true) (hindex : q.index? = some oid)
    (hnew : new oid) (hentry : q.head.entry = p.head.entry) (hrelid : q.head.relid = p.head.relid)
    (hrows : q.head.rows = p.head.rows) : DiffersBy new p q
  | append {h h' : PathHead} {ps qs : List Path} (hps : List.Forall₂ (DiffersBy new) ps qs)
    (hentry : h'.entry = h.entry) (hrelid : h'.relid = h.relid) (hrows : h'.rows = h.rows)
    (hfilter : h'.filter = h.filter) (hcosts : qs = ps → h' = h) :
    DiffersBy new (.append h ps) (.append h' qs)

variable {new : Oid → Prop} {p q : Path}

theorem DiffersBy.rows (h : DiffersBy new p q) : q.head.rows = p.head.rows := by
  cases h with
  | same => rfl
  | displaced _ _ _ _ _ hrows => exact hrows
  | append _ _ _ hrows _ _ => exact hrows

theorem DiffersBy.isDummy (h : DiffersBy new p q) : q.isDummy = p.isDummy := by
  cases h with
  | same => rfl
  | displaced hscan hindex _ _ _ _ =>
    have hp : p.isDummy = false := by
      cases p with
      | dummy => cases hscan
      | _ => rfl
    have hq : q.isDummy = false := by
      cases q with
      | dummy => cases hindex
      | _ => rfl
    rw [hp, hq]
  | append => rfl

theorem mem_indexes_of_index? {oid : Oid} (h : p.index? = some oid) : oid ∈ p.indexes := by
  cases p with
  | indexScan _ _ _ => exact List.mem_singleton.2 (Option.some.inj h).symm
  | bitmapScan _ _ _ => exact List.mem_singleton.2 (Option.some.inj h).symm
  | _ => cases h

/-- Lists that are related element by element, by no more than equality. -/
theorem eq_of_forall₂ {α : Type} {R : α → α → Prop} {as bs : List α} (h : List.Forall₂ R as bs)
    (heq : ∀ a, ∀ b ∈ bs, R a b → b = a) : bs = as := by
  induction h with
  | nil => rfl
  | cons hab _ ih =>
    rw [heq _ _ List.mem_cons_self hab, ih fun a b hb => heq a b (List.mem_cons_of_mem _ hb)]

/-- A path that is chosen, if any, does not differ from itself. -/
theorem rel_differsBy_self (best : Option Path) : Option.Rel (DiffersBy new) best best := by
  cases best with
  | none => exact .none
  | some p => exact .some (.same p)

/-- **A path that uses none of the indexes does not differ.** -/
theorem DiffersBy.eq_of_unused (hunused : ∀ oid ∈ q.indexes, ¬ new oid) (h : DiffersBy new p q) :
    q = p := by
  induction q using Path.induct generalizing p with
  | append head qs ih =>
    cases h with
    | same => rfl
    | displaced _ hindex _ _ _ _ => cases hindex
    | append hps _ _ _ _ hcosts =>
      rw [indexes, indexesOfAll_eq] at hunused
      have hchildren := eq_of_forall₂ hps fun p q hq hpq =>
        ih q hq (fun oid hoid => hunused oid (List.mem_flatMap.2 ⟨q, hq, hoid⟩)) hpq
      rw [hchildren, hcosts hchildren]
  | _ =>
    cases h with
    | same => rfl
    | displaced _ hindex hnew _ _ _ =>
      exact absurd hnew (hunused _ (mem_indexes_of_index? hindex))

/-- **More paths after the others**: the choice stays as it was, or falls on one
of them. -/
theorem cheapest?_append (ps qs : List Path) :
    cheapest? (ps ++ qs) = cheapest? ps ∨ ∃ q ∈ qs, cheapest? (ps ++ qs) = some q := by
  unfold cheapest?
  rw [List.foldl_append]
  generalize ps.foldl _ none = best
  refine List.foldlRecOn (motive := fun b => b = best ∨ ∃ q ∈ qs, b = some q) qs _ (.inl rfl) ?_
  intro b hb q hq
  split
  · split
    · exact hb
    · exact .inr ⟨q, hq, rfl⟩
  · exact .inr ⟨q, hq, rfl⟩

end Path

/-! ## Relations -/

namespace RelState

variable {new : Oid → Prop} {r r' rel : RelState} {s : Settings} {p : Path}

/-- **A relation with some indexes more**, of which no paths were found yet. -/
structure Gains (new : Oid → Prop) (r r' : RelState) : Prop where
  paths : r.paths = []
  eq : ∃ extra : List Candidate, (∀ x ∈ extra, new x.oid) ∧
    r' = { r with candidates := r.candidates ++ extra }

/-- **A relation that differs by some indexes** in its candidates and in the path
it would be read by. -/
def DiffersBy (new : Oid → Prop) (r r' : RelState) : Prop :=
  ∃ candidates paths, r' = { r with candidates, paths } ∧
    Option.Rel (Path.DiffersBy new) r.cheapest? (Path.cheapest? paths)

/-- A relation that is scanned by itself: under its own entry, for the rows
expected of it. -/
structure ScannedBy (rel : RelState) (p : Path) : Prop where
  isScan : p.isScan = true
  entry : p.head.entry = rel.entry
  relid : p.head.relid = rel.relid
  rows : p.head.rows = rel.rows

theorem scannedBy_of_mem_indexPaths {x : Candidate} (h : p ∈ rel.indexPaths s x) :
    rel.ScannedBy p ∧ p.index? = some x.oid := by
  obtain ⟨-, -, head, conditions, rfl | rfl, -, cost, rfl⟩ := mem_indexPaths h
  · exact ⟨⟨rfl, rfl, rfl, rfl⟩, rfl⟩
  · exact ⟨⟨rfl, rfl, rfl, rfl⟩, rfl⟩

/-- The paths through additional indexes come after all others. -/
theorem addBasePaths_append (r : RelState) (extra : List Candidate) (s : Settings) :
    ∃ candidates, ({ r with candidates := r.candidates ++ extra } : RelState).addBasePaths s =
      { r.addBasePaths s with
        candidates
        paths := (r.addBasePaths s).paths ++
          extra.flatMap fun x => r.estimated.indexPaths s (x.judged r.restrictions) } := by
  have hpaths : (({ r with candidates := r.candidates ++ extra } : RelState).addBasePaths s).paths =
      (r.addBasePaths s).paths ++
        extra.flatMap fun x => r.estimated.indexPaths s (x.judged r.restrictions) := by
    refine paths_addBasePaths.trans ?_
    rw [paths_addBasePaths, List.append_assoc, List.cons_append, ← List.flatMap_append]
    rfl
  exact ⟨_, congrArg (fun paths => ({ r.addBasePaths s with candidates := _, paths } : RelState))
    hpaths⟩

/-- A base relation has paths, all of them scans of it. -/
theorem scannedBy_of_mem_addBasePaths (hpaths : r.paths = []) (h : p ∈ (r.addBasePaths s).paths) :
    r.estimated.ScannedBy p := by
  rw [paths_addBasePaths, hpaths, List.nil_append] at h
  rcases List.mem_cons.1 h with rfl | h
  · exact ⟨rfl, rfl, rfl, rfl⟩
  · obtain ⟨x, -, hx⟩ := List.mem_flatMap.1 h
    exact (scannedBy_of_mem_indexPaths hx).1

/-- **The paths of a base relation** differ by its additional indexes. -/
theorem Gains.addBasePaths (h : r.Gains new r') :
    (r.addBasePaths s).DiffersBy new (r'.addBasePaths s) := by
  obtain ⟨hpaths, extra, hnew, rfl⟩ := h
  obtain ⟨candidates, heq⟩ := r.addBasePaths_append extra s
  refine ⟨candidates, _, heq, ?_⟩
  rcases Path.cheapest?_append (r.addBasePaths s).paths
    (extra.flatMap fun x => r.estimated.indexPaths s (x.judged r.restrictions)) with
    hsame | ⟨q, hq, hchosen⟩
  · rw [hsame]
    exact Path.rel_differsBy_self _
  · -- the choice fell on an additional path; what it displaces is a scan, too
    have hne : (r.addBasePaths s).paths ≠ [] := by
      rw [paths_addBasePaths]
      simp
    obtain ⟨p, hp⟩ := Option.isSome_iff_exists.1 (Path.cheapest?_isSome hne)
    obtain ⟨x, hx, hq⟩ := List.mem_flatMap.1 hq
    obtain ⟨hscanned, hindex⟩ := scannedBy_of_mem_indexPaths hq
    have hbefore := scannedBy_of_mem_addBasePaths hpaths (Path.mem_of_cheapest? hp)
    rw [hchosen, RelState.cheapest?, hp]
    exact .some (.displaced hbefore.isScan hindex (hnew x hx) (hscanned.entry.trans hbefore.entry.symm)
      (hscanned.relid.trans hbefore.relid.symm) (hscanned.rows.trans hbefore.rows.symm))

/-- What the path through some children has in common with all paths. -/
def appendHead (rel : RelState) (first : Path) (others : List Path) : PathHead where
  entry := rel.entry
  relid := rel.relid
  rows := others.foldl (fun n p => n + p.head.rows) first.head.rows
  startup := first.head.startup
  total := others.foldl (fun n p => n + p.head.total) first.head.total
  filter := []

theorem addAppendPath_cons {first : Path} {others : List Path} :
    rel.addAppendPath (first :: others) = { rel with
      rows := (rel.appendHead first others).rows
      paths := rel.paths ++ [.append (rel.appendHead first others) (first :: others)] } := rfl

/-- Children that read as many rows are read for as many rows. -/
theorem appendHead_rows {p q : Path} {ps qs : List Path} (hpq : p.DiffersBy new q)
    (hrest : List.Forall₂ (Path.DiffersBy new) ps qs) :
    (rel.appendHead q qs).rows = (rel.appendHead p ps).rows := by
  unfold appendHead
  dsimp only
  rw [hpq.rows]
  generalize p.head.rows = n
  induction hrest generalizing n with
  | nil => rfl
  | cons hpq _ ih =>
    rw [List.foldl_cons, List.foldl_cons, hpq.rows]
    exact ih _

/-- **The path through the children** differs as their paths do. -/
theorem Gains.addAppendPath (h : r.Gains new r') {ps qs : List Path}
    (hps : List.Forall₂ (Path.DiffersBy new) ps qs) :
    (r.addAppendPath ps).DiffersBy new (r'.addAppendPath qs) := by
  obtain ⟨hpaths, extra, -, rfl⟩ := h
  cases hps with
  | nil => exact ⟨r.candidates ++ extra, _, rfl, Path.rel_differsBy_self _⟩
  | @cons p q ps qs hpq hrest =>
    have hrows : (r.appendHead q qs).rows = (r.appendHead p ps).rows := appendHead_rows hpq hrest
    refine ⟨r.candidates ++ extra, [.append (r.appendHead q qs) (q :: qs)], ?_, ?_⟩
    · rw [addAppendPath_cons, addAppendPath_cons, ← hrows, hpaths]
      rfl
    · rw [addAppendPath_cons, RelState.cheapest?, hpaths]
      refine .some (.append (.cons hpq hrest) rfl rfl hrows rfl fun heq => ?_)
      obtain ⟨rfl, rfl⟩ := List.cons_eq_cons.1 heq
      rfl

end RelState

/-! ## Planning -/

namespace Draft

variable {new : Oid → Prop} {m m' : MetadataPoints} {p p' : PlanningPoints} {ctx ctx' : Context}
variable {rs : List Restriction} {fuel : Nat} {i : RangeIndex} {entry : RangeEntry}
variable {plan plan' : RangeIndex → Edit Draft Path} {r r' : RelState} {d : Draft}

/-- **Points of which the second know some indexes more**, for one statement
each. They give a relation these candidates, and are alike in everything else. -/
structure Gain (new : Oid → Prop) (m m' : MetadataPoints) (p p' : PlanningPoints)
    (ctx ctx' : Context) : Prop where
  partitionDesc : ∀ oid, m'.partitionDesc ctx' oid = m.partitionDesc ctx oid
  relationInfo : ∀ oid inherits s, s.rel.paths = [] →
    Edit.Coupled (p.relationInfo ctx oid inherits) s (p'.relationInfo ctx' oid inherits) s
      fun _ u _ u' => u'.state = u.state ∧ u.rel.Gains new u'.rel
  relationPaths : ∀ i state r r', RelState.DiffersBy new r r' →
    Edit.Coupled (p.relationPaths ctx i) ⟨state, r⟩ (p'.relationPaths ctx' i) ⟨state, r'⟩
      fun _ u _ u' => u'.state = u.state ∧ u.rel.DiffersBy new u'.rel
  expandChildren : ∀ i desc, p'.expandChildren ctx' i desc = p.expandChildren ctx i desc

theorem onRel_coupled {x y : Edit Scope Unit} {Q : RelState → RelState → Prop}
    (h : Edit.Coupled x ⟨d.state, r⟩ y ⟨d.state, r'⟩
      fun _ u _ u' => u'.state = u.state ∧ Q u.rel u'.rel) :
    Edit.Coupled (onRel x r) d (onRel y r') d fun r d r' d' => d' = d ∧ Q r r' :=
  .bind (.value (.bind (.lend (h.imp fun _ _ _ _ hu =>
    .bind (.change (.pure ⟨by rw [hu.1], hu.2⟩))))))

/-- The paths of a relation are found side by side, if its children are planned
so. -/
theorem Gain.findPaths (h : Gain new m m' p p' ctx ctx') (hr : r.Gains new r')
    (hplan : ∀ i d, Edit.Coupled (plan i) d (plan' i) d
      fun q d q' d' => d' = d ∧ q.DiffersBy new q') :
    Edit.Coupled (findPaths m p ctx plan i entry r) d (findPaths m' p' ctx' plan' i entry r') d
      fun r d r' d' => d' = d ∧ r.DiffersBy new r' := by
  have hexpand : expand m' p' ctx' entry i = expand m p ctx entry i := by
    unfold expand
    rw [h.partitionDesc]
    exact bind_congr fun desc => by rw [h.expandChildren]
  unfold Draft.findPaths
  rw [hexpand]
  split
  · refine .bind (.refl fun children d => .bind ((Edit.Coupled.mapM children hplan d).imp ?_))
    rintro ps _ qs d ⟨rfl, hps⟩
    have hkept : List.Forall₂ (Path.DiffersBy new) (ps.filter fun p => !p.isDummy)
        (qs.filter fun q => !q.isDummy) :=
      List.rel_filter (fun p q hpq => by dsimp only; rw [hpq.isDummy]) hps
    exact .pure ⟨rfl, hr.addAppendPath hkept⟩
  · exact .bind (.value (.pure ⟨rfl, hr.addBasePaths⟩))

/-- The paths chosen differ as the cheapest do. -/
theorem choose_coupled (h : r.DiffersBy new r') :
    Edit.Coupled (choose i entry r) d (choose i entry r') d
      fun q d q' d' => d' = d ∧ q.DiffersBy new q' := by
  obtain ⟨candidates, paths, rfl, hpaths⟩ := h
  have hcheapest : ∀ d, Edit.Coupled (cheapest r) d (cheapest { r with candidates, paths }) d
      fun q d q' d' => d' = d ∧ q.DiffersBy new q' := by
    intro d
    have hchoice : ({ r with candidates, paths } : RelState).cheapest? = Path.cheapest? paths := rfl
    unfold cheapest
    rw [hchoice]
    generalize r.cheapest? = before at hpaths ⊢
    generalize Path.cheapest? paths = after at hpaths ⊢
    cases hpaths with
    | some hq => exact .pure ⟨rfl, hq⟩
    | none => exact .fail
  unfold choose
  dsimp only
  split
  · exact .bind (.change (hcheapest _))
  · exact hcheapest d

/-- **Every entry is planned side by side**: what is planned, and how, differs by
the additional indexes alone. -/
theorem Gain.planEntry (h : Gain new m m' p p' ctx ctx') : ∀ i d,
    Edit.Coupled (planEntry m p ctx rs fuel i) d (planEntry m' p' ctx' rs fuel i) d
      fun q d q' d' => d' = d ∧ q.DiffersBy new q' := by
  induction fuel with
  | zero => exact fun i d => .fail
  | succ fuel ih =>
    intro i d
    rw [planEntry_succ, planEntry_succ]
    refine .bind (.value ?_)
    rcases d.state.entry? i with _ | entry
    · exact .fail
    dsimp only
    unfold planFrom
    -- the relation is described, its paths are found, adjusted, and one is chosen
    refine .bind ((onRel_coupled (h.relationInfo entry.relid entry.inherits
      ⟨d.state, .blank i entry.relid entry.label rs⟩ rfl)).imp ?_)
    rintro r _ r' d ⟨rfl, hr⟩
    have hwidth : r'.width = r.width := by
      obtain ⟨-, extra, -, rfl⟩ := hr
      rfl
    rw [hwidth]
    refine .bind (.change (.bind ((h.findPaths hr ih).imp ?_)))
    rintro r _ r' d ⟨rfl, hr⟩
    refine .bind ((onRel_coupled (h.relationPaths i d.state r r' hr)).imp ?_)
    rintro r _ r' d ⟨rfl, hr⟩
    exact choose_coupled hr

end Draft

/-- **A plan that differs by some indexes only**: in the path, and nowhere
else. -/
structure Plan.DiffersBy (new : Oid → Prop) (p q : Plan) : Prop where
  state : q.state = p.state
  widths : q.widths = p.widths
  pruned : q.pruned = p.pruned
  path : p.path.DiffersBy new q.path

/-- A plan that uses none of the indexes does not differ. -/
theorem Plan.DiffersBy.eq_of_unused {new : Oid → Prop} {p q : Plan} (h : p.DiffersBy new q)
    (hunused : ∀ oid ∈ q.path.indexes, ¬ new oid) : q = p := by
  obtain ⟨hstate, hwidths, hpruned, hpath⟩ := h
  have heq : q.path = p.path := hpath.eq_of_unused hunused
  cases p
  cases q
  cases hstate
  cases hwidths
  cases hpruned
  cases heq
  rfl

/-- **A query is planned side by side** with some indexes more. -/
theorem Query.plan_coupled {σ : Type} [Catalog σ] {c : σ} {new : Oid → Prop}
    {m m' : MetadataPoints} {p p' : PlanningPoints} {ctx ctx' : Context} {q : Query}
    (h : Draft.Gain new m m' p p' ctx ctx')
    (hreads : ∀ r, q.readsChildren m' ctx' r = q.readsChildren m ctx r) (s : Settings) :
    Edit.Coupled (q.plan c m p ctx s) () (q.plan c m' p' ctx' s) ()
      fun plan _ plan' _ => plan.DiffersBy new plan' := by
  unfold Query.plan
  refine .bind (.refl fun ⟨r, rs⟩ _ => ?_)
  dsimp only
  rw [hreads]
  refine .bind (.refl fun inherits _ => .bind (.lend ((h.planEntry _ _).imp ?_)))
  rintro path _ path' draft ⟨rfl, hpath⟩
  exact .pure ⟨rfl, rfl, rfl, hpath⟩

end WhatIf
