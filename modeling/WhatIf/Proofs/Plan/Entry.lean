import WhatIf.Proofs.Plan.Scans
import WhatIf.Proofs.Hook.Yields
/-!
# Plan — planning one entry, in steps

Planning an entry is asking what is known of its relation, finding its paths,
letting them be adjusted and choosing one (`planFrom`). Each step has a rule
for what it yields, so that a statement about plans is proved from statements
about the points alone; what is to be so of every path is such a statement for
each point (`Upholds`). Points that act alike on whatever planning hands them
plan alike.
-/

namespace WhatIf

namespace Draft

variable {m m' : MetadataPoints} {p p' : PlanningPoints} {ctx ctx' : Context}
variable {rs : List Restriction} {fuel : Nat} {i : RangeIndex} {entry : RangeEntry}
variable {plan plan' : RangeIndex → Edit Draft Path} {rel : RelState} {d : Draft}
variable {E : Error → Prop}

/-! ## Steps -/

/-- Find the paths of a relation: through its children, each planned by a
call, or its own. -/
def findPaths (m : MetadataPoints) (p : PlanningPoints) (ctx : Context)
    (plan : RangeIndex → Edit Draft Path) (i : RangeIndex) (entry : RangeEntry) (rel : RelState) :
    Edit Draft RelState :=
  if entry.inherits then do
    let children ← expand m p ctx entry i
    let paths ← children.mapM plan
    pure (rel.addAppendPath (paths.filter fun path => !path.isDummy))
  else do
    let draft ← Edit.value
    pure (rel.addBasePaths draft.state.settings)

/-- The cheapest path of a relation. -/
def cheapest (rel : RelState) : Edit Draft Path :=
  match rel.cheapest? with
  | some path => pure path
  | none => Edit.fail (.planning (.noPath rel.name))

/-- Choose the cheapest path of a relation, and note whether a child has no
matching rows. -/
def choose (i : RangeIndex) (entry : RangeEntry) (rel : RelState) : Edit Draft Path :=
  if rel.isDummy && entry.parent.isSome then do
    notePruned i
    cheapest rel
  else cheapest rel

/-- A draft once the path of a relation is chosen: if the relation is a child
without matching rows, this is noted. -/
def noting (i : RangeIndex) (entry : RangeEntry) (rel : RelState) (d : Draft) : Draft :=
  if rel.isDummy && entry.parent.isSome then { d with pruned := d.pruned ++ [i] } else d

@[simp] theorem noting_state : (d.noting i entry rel).state = d.state := by
  unfold noting
  split
  · rfl
  · rfl

/-- Plan an entry, whose children are each planned by a call. -/
def planFrom (m : MetadataPoints) (p : PlanningPoints) (ctx : Context) (rs : List Restriction)
    (plan : RangeIndex → Edit Draft Path) (i : RangeIndex) (entry : RangeEntry) :
    Edit Draft Path := do
  let rel ← onRel (p.relationInfo ctx entry.relid entry.inherits)
    (.blank i entry.relid entry.label rs)
  noteWidth i rel.width
  let rel ← findPaths m p ctx plan i entry rel
  let rel ← onRel (p.relationPaths ctx i) rel
  choose i entry rel

/-- **The steps make up the plan of an entry.** -/
theorem planEntry_succ : planEntry m p ctx rs (fuel + 1) i = (do
    let draft ← Edit.value
    match draft.state.entry? i with
    | none => Edit.fail (.planning (.noEntry i))
    | some entry => planFrom m p ctx rs (planEntry m p ctx rs fuel) i entry) := by
  rw [planEntry]
  refine bind_congr fun draft => ?_
  rcases draft.state.entry? i with _ | entry
  · rfl
  · dsimp only
    unfold planFrom findPaths choose
    refine bind_congr fun rel => bind_congr fun _ => ?_
    by_cases hinherits : entry.inherits = true
    · simp only [hinherits, if_true, bind_assoc, pure_bind]
      rfl
    · simp only [hinherits, pure_bind]
      rfl

/-! ## What the steps yield -/

theorem onRel_yields {x : Edit Scope Unit} {Q : RelState → Draft → Prop}
    (h : Edit.Yields x ⟨d.state, rel⟩ (fun _ s => Q s.rel { d with state := s.state }) E) :
    Edit.Yields (onRel x rel) d Q E :=
  .bind (.value (.bind (.lend (h.imp fun _ _ hs => .bind (.change (.pure hs))))))

theorem noteWidth_yields {n : Nat} {Q : Unit → Draft → Prop}
    (h : Q () { d with widths := Keyed.insert d.widths i n }) :
    Edit.Yields (noteWidth i n) d Q E :=
  .change h

/-- The children that are planned are those linked to the entry once it has
been expanded. -/
theorem expand_yields {Q : List RangeIndex → Draft → Prop}
    (hdesc : Edit.Yields (m.partitionDesc ctx entry.logicalId) ()
      (fun desc _ => Edit.Yields (p.expandChildren ctx i desc) d.state
        (fun _ state => Q (state.childrenOf i) { d with state }) E) E) :
    Edit.Yields (expand m p ctx entry i) d Q E :=
  .bind (.ask (hdesc.imp fun _ _ hexpand =>
    .bind (.zoom (hexpand.imp fun _ _ hstate => .bind (.value (.pure hstate))))))

/-- A relation that has paths gets one of them. -/
theorem choose_yields {Q : Path → Draft → Prop}
    (hpath : ∀ path ∈ rel.paths, Q path (d.noting i entry rel))
    (hnone : rel.paths = [] → E (.planning (.noPath rel.name))) :
    Edit.Yields (choose i entry rel) d Q E := by
  have hcheapest : Edit.Yields (cheapest rel) (d.noting i entry rel) Q E := by
    unfold cheapest
    cases hc : rel.cheapest? with
    | some path => exact .pure (hpath path (Path.mem_of_cheapest? hc))
    | none =>
      refine .fail (hnone ?_)
      by_contra hne
      have hsome := Path.cheapest?_isSome hne
      rw [← RelState.cheapest?, hc] at hsome
      cases hsome
  unfold noting at hcheapest
  unfold choose
  split
  · rename_i hdummy
    rw [if_pos hdummy] at hcheapest
    exact .bind (.change hcheapest)
  · rename_i hdummy
    rw [if_neg hdummy] at hcheapest
    exact hcheapest

/-! ## What points uphold -/

/-- **Points that uphold something of every path**, for one statement: `I` of the
range table, `K` of an entry once its relation is known, and `P` of the paths. -/
structure Upholds (m : MetadataPoints) (p : PlanningPoints) (ctx : Context)
    (rs : List Restriction) (I : PlanState → Prop) (K : RangeEntry → Prop) (P : Path → Prop) :
    Prop where
  dummy : ∀ head, P (.dummy head)
  append : ∀ head paths, (∀ path ∈ paths, P path) → P (.append head paths)
  relationInfo : ∀ i entry state, I state → state.entry? i = some entry →
    Edit.Yields (p.relationInfo ctx entry.relid entry.inherits)
      ⟨state, .blank i entry.relid entry.label rs⟩
      (fun _ s => s.state = state ∧ K entry ∧ s.rel.paths = [] ∧
        ∀ settings, ∀ path ∈ (s.rel.addBasePaths settings).paths, P path) fun _ => True
  expandChildren : ∀ i entry state, I state → state.entry? i = some entry → K entry →
    Edit.Yields (m.partitionDesc ctx entry.logicalId) ()
      (fun desc _ => Edit.Yields (p.expandChildren ctx i desc) state (fun _ q => I q)
        fun _ => True) fun _ => True
  relationPaths : ∀ i s, (∀ path ∈ s.rel.paths, P path) →
    Edit.Yields (p.relationPaths ctx i) s
      (fun _ s' => s'.state = s.state ∧ ∀ path ∈ s'.rel.paths, P path) fun _ => True

/-- **What the points uphold** is so of the path of every entry. -/
theorem Upholds.planEntry {I : PlanState → Prop} {K : RangeEntry → Prop} {P : Path → Prop}
    (h : Upholds m p ctx rs I K P) (fuel : Nat) : ∀ i d, I d.state →
    Edit.Yields (planEntry m p ctx rs fuel i) d (fun path d' => I d'.state ∧ P path)
      fun _ => True := by
  induction fuel with
  | zero => exact fun i d _ => .fail trivial
  | succ fuel ih =>
    intro i d hd
    rw [planEntry_succ]
    refine .bind (.value ?_)
    rcases hentry : d.state.entry? i with _ | entry
    · exact .fail trivial
    refine .bind (onRel_yields ((h.relationInfo i entry d.state hd hentry).imp
      fun _ s hinfo => .bind (noteWidth_yields (.bind ?_))))
    obtain ⟨hstate, hknown, hpaths, hbase⟩ := hinfo
    -- whichever way the paths are found, one of them is chosen
    have hchoose : ∀ (rel : RelState) (d' : Draft), I d'.state → (∀ path ∈ rel.paths, P path) →
        Edit.Yields (do
          let rel ← onRel (p.relationPaths ctx i) rel
          choose i entry rel) d' (fun path d' => I d'.state ∧ P path) fun _ => True := by
      intro rel d' hd' hrel
      refine .bind (onRel_yields ((h.relationPaths i ⟨d'.state, rel⟩ hrel).imp fun _ s' hs' =>
        choose_yields (fun path hpath => ?_) fun _ => trivial))
      rw [noting_state]
      exact ⟨hs'.1 ▸ hd', hs'.2 path hpath⟩
    unfold findPaths
    split
    · refine .bind (expand_yields ?_)
      refine (h.expandChildren i entry s.state (hstate ▸ hd) (hstate ▸ hentry) hknown).imp
        fun desc _ hexpand => hexpand.imp fun _ q hq => .bind ?_
      refine (Edit.Yields.mapM (I := fun _ paths w => I w.state ∧ ∀ path ∈ paths, P path) _
        ⟨hq, by simp⟩ fun _ child _ paths w _ hw => ?_).imp fun paths w hw => .pure ?_
      · refine (ih child w hw.1).imp fun path w' hpath => ⟨hpath.1, fun path' hmem => ?_⟩
        rcases List.mem_append.1 hmem with hmem | hmem
        · exact hw.2 path' hmem
        · exact List.mem_singleton.1 hmem ▸ hpath.2
      · refine hchoose _ w hw.1 fun path hpath => ?_
        rcases RelState.mem_addAppendPath hpaths hpath with ⟨head, rfl⟩ | ⟨head, rfl⟩
        · exact h.dummy head
        · exact h.append head _ fun path hpath => hw.2 path (List.mem_filter.1 hpath).1
    · exact .bind (.value (.pure (hchoose _ _ (hstate ▸ hd) (hbase _))))

/-! ## Points that plan alike -/

/-- **Points that plan alike**, for one statement each: they answer alike about
partitions, fill in and expand relations alike, and adjust alike the paths of
every relation whose rows are not known to satisfy anything. -/
structure Alike (m m' : MetadataPoints) (p p' : PlanningPoints) (ctx ctx' : Context) : Prop where
  partitionDesc : ∀ oid, m.partitionDesc ctx oid = m'.partitionDesc ctx' oid
  relationInfo : ∀ oid inherits, p.relationInfo ctx oid inherits = p'.relationInfo ctx' oid inherits
  unconstrained : ∀ oid inherits s, s.rel.constraints = [] →
    Edit.Yields (p'.relationInfo ctx' oid inherits) s (fun _ s => s.rel.constraints = [])
      fun _ => True
  relationPaths : ∀ i rel, rel.constraints = [] →
    onRel (p.relationPaths ctx i) rel = onRel (p'.relationPaths ctx' i) rel
  expandChildren : ∀ i desc, p.expandChildren ctx i desc = p'.expandChildren ctx' i desc

/-- Finding paths adds nothing to what is known of a relation's rows. -/
theorem findPaths_constraints (h : rel.constraints = []) :
    Edit.Yields (findPaths m p ctx plan i entry rel) d (fun rel _ => rel.constraints = [])
      fun _ => True := by
  have happend : ∀ children, (rel.addAppendPath children).constraints = [] := by
    rintro (_ | ⟨first, others⟩)
    · exact h
    · exact h
  unfold findPaths
  split
  · refine .bind (Edit.Yields.any.imp fun children w _ =>
      .bind (Edit.Yields.any.imp fun paths w _ => ?_))
    exact .pure (happend _)
  · exact .bind (.value (.pure h))

/-- The paths of a relation are found alike, if its children are planned
alike. -/
theorem Alike.findPaths (h : Alike m m' p p' ctx ctx') (hplan : plan = plan') :
    findPaths m p ctx plan i entry rel = findPaths m' p' ctx' plan' i entry rel := by
  have hexpand : expand m p ctx entry i = expand m' p' ctx' entry i := by
    unfold expand
    rw [h.partitionDesc]
    exact bind_congr fun desc => by rw [h.expandChildren]
  unfold Draft.findPaths
  rw [hexpand, hplan]

/-- **Points that plan alike** plan every entry alike. -/
theorem Alike.planEntry (h : Alike m m' p p' ctx ctx') :
    planEntry m p ctx rs fuel = planEntry m' p' ctx' rs fuel := by
  induction fuel with
  | zero =>
    funext i
    rfl
  | succ fuel ih =>
    funext i
    rw [planEntry_succ, planEntry_succ]
    refine bind_congr fun draft => ?_
    rcases draft.state.entry? i with _ | entry
    · rfl
    dsimp only
    unfold planFrom
    rw [h.relationInfo]
    refine Edit.bind_congr_of_yields (Q := fun rel => rel.constraints = [])
      (fun _ => onRel_yields (h.unconstrained _ _ _ rfl)) fun rel hrel => bind_congr fun _ => ?_
    rw [h.findPaths ih]
    refine Edit.bind_congr_of_yields (Q := fun rel => rel.constraints = [])
      (fun _ => findPaths_constraints hrel) fun rel hrel => ?_
    rw [h.relationPaths i rel hrel]

end Draft

namespace Query

/-- **What the points uphold** is so of the path of the query. -/
theorem plan_yields {σ : Type} [Catalog σ] {c : σ} {q : Query} {m : MetadataPoints}
    {p : PlanningPoints} {ctx : Context} {settings : Settings} {K : RangeEntry → Prop}
    {I : Relation → PlanState → Prop} {P : Relation → List Restriction → Path → Prop}
    (h : ∀ r rs, q.bind c = .ok (r, rs) → Draft.Upholds m p ctx rs (I r) K (P r rs) ∧
      ∀ inherits, I r ((PlanState.ofSettings settings).addEntry
        (.ofRelation r.oid r.kind r.name inherits)).2) :
    Edit.Yields (q.plan c m p ctx settings) ()
      (fun plan _ => ∃ r rs, q.bind c = .ok (r, rs) ∧ P r rs plan.path) fun _ => True := by
  unfold Query.plan
  refine .bind (.ofExcept (fun ⟨r, rs⟩ hbind => .bind ?_) fun _ _ => trivial)
  obtain ⟨hupholds, hstart⟩ := h r rs hbind
  refine Edit.Yields.any.imp fun inherits _ _ => .bind (.lend ?_)
  exact (hupholds.planEntry Draft.maxDepth _ _ (hstart inherits)).imp
    fun path draft hpath => .pure ⟨r, rs, hbind, hpath.2⟩

end Query

end WhatIf
