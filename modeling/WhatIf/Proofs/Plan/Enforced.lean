import WhatIf.Proofs.Constraint.Implication
import WhatIf.Proofs.Shadow.Concealment
import WhatIf.Proofs.Shadow.Refinement
/-!
# Plan — every scan enforces the query

A scan hands each restriction of the query either to its index, as a condition,
or to the filter on the rows fetched (`Candidate.Enforces`). The index answers
every condition it is handed and holds every row that the query asks for. All
scans of a plan are like this (`plan_enforces`): the paths of a relation are
built so, and planning an entry chooses one of them.
-/

namespace WhatIf

variable {rs : List Restriction} {r : Restriction}

/-! ## What an index can be handed -/

/-- **The tests that an index answers**: any index answers an equality, and all
but hash indexes a comparison; a list of values takes an index in key order. -/
inductive AccessMethod.Answers : AccessMethod → ColumnTest → Prop
  | equality {m : AccessMethod} {v : Datum} (hv : v.isNull = false) :
    Answers m (.compare .eq v)
  | range {m : AccessMethod} {op : CompareOp} {v : Datum} (hm : m ≠ .hash) (hop : op ≠ .ne)
    (hv : v.isNull = false) : Answers m (.compare op v)
  | listed {vs : List Datum} : Answers .btree (.isIn vs)
  | null {m : AccessMethod} (hm : m ≠ .hash) : Answers m .isNull
  | notNull {m : AccessMethod} (hm : m ≠ .hash) : Answers m .isNotNull

namespace Candidate

variable {x y : Candidate} {conditions filter : List Restriction}

/-- **An index that enforces restrictions**, those handed to it and those left to
the filter: each is in one of the two, and nothing else is. The index answers what
it is handed, on its key columns, and on the first one unless it is a BRIN index.
A partial index has all rows that pass the restrictions. -/
structure Enforces (x : Candidate) (rs conditions filter : List Restriction) : Prop where
  split : (conditions ++ filter).Perm rs
  disjoint : ∀ r ∈ conditions, r ∉ filter
  key : ∀ r ∈ conditions, some r.attnum ∈ x.keys
  answered : ∀ r ∈ conditions, x.method.Answers r.test
  leading : x.method ≠ .brin → ∃ r ∈ conditions, x.keys.head? = some (some r.attnum)
  complete : (∀ r ∈ x.predicate, r.test.isExact = true) →
    ∀ row : AttNum → Datum, (∀ a, (row a).isExact = true) → (∀ r ∈ rs, r.HoldsOf row) →
      ∀ r ∈ x.predicate, r.HoldsOf row

/-- One index, whatever is known of its size. -/
structure SameIndex (x y : Candidate) : Prop where
  oid : x.oid = y.oid
  method : x.method = y.method
  keys : x.keys = y.keys
  predicate : x.predicate = y.predicate

theorem SameIndex.refl (x : Candidate) : x.SameIndex x := ⟨rfl, rfl, rfl, rfl⟩

theorem Enforces.of_sameIndex (h : y.Enforces rs conditions filter) (hxy : x.SameIndex y) :
    x.Enforces rs conditions filter := by
  obtain ⟨-, hmethod, hkeys, hpredicate⟩ := hxy
  refine ⟨h.split, h.disjoint, ?_, ?_, ?_, ?_⟩
  · rw [hkeys]
    exact h.key
  · rw [hmethod]
    exact h.answered
  · rw [hmethod, hkeys]
    exact h.leading
  · rw [hpredicate]
    exact h.complete

/-- **What is handed to an index is on a key column** and is answered. -/
theorem answers_sound (h : x.answers r = true) :
    some r.attnum ∈ x.keys ∧ x.method.Answers r.test := by
  obtain ⟨hkey, htest⟩ := Bool.and_eq_true_iff.1 h
  refine ⟨by simpa using hkey, ?_⟩
  cases hr : r.test with
  | compare op v =>
    rw [hr] at htest
    obtain ⟨hv, hop⟩ := Bool.and_eq_true_iff.1 htest
    have hv : v.isNull = false := by simpa using hv
    have hrange : ∀ op, op ≠ .ne → x.method.supportsRange = true →
        x.method.Answers (.compare op v) := by
      intro op hne hrange
      exact .range (bne_iff_ne.1 hrange) hne hv
    cases op with
    | eq => exact .equality hv
    | ne => cases hop
    | lt => exact hrange _ (by decide) hop
    | le => exact hrange _ (by decide) hop
    | gt => exact hrange _ (by decide) hop
    | ge => exact hrange _ (by decide) hop
  | isIn vs =>
    rw [hr] at htest
    have hmethod : x.method = .btree := beq_iff_eq.1 htest
    rw [hmethod]
    exact .listed
  | isNull =>
    rw [hr] at htest
    exact .null (bne_iff_ne.1 htest)
  | isNotNull =>
    rw [hr] at htest
    exact .notNull (bne_iff_ne.1 htest)

theorem head?_of_leading? {a : AttNum} (h : x.leading? = some a) : x.keys.head? = some (some a) := by
  unfold leading? at h
  split at h
  · rename_i hkeys
    rw [hkeys, Option.some.inj h]
    rfl
  · cases h

/-- Restrictions split by whether the index answers them. -/
theorem split_perm (hexact : ∀ r ∈ rs, r.test.isExact = true) :
    (rs.filter x.answers ++ rs.filter fun r => !(rs.filter x.answers).contains r).Perm rs := by
  have hrest : (rs.filter fun r => !(rs.filter x.answers).contains r) =
      rs.filter fun r => !x.answers r := by
    refine List.filter_congr fun r hr => congrArg not ?_
    rw [Bool.eq_iff_iff, Restriction.contains_iff (hexact r hr), List.mem_filter]
    exact and_iff_right hr
  rw [hrest]
  exact List.filter_append_perm x.answers rs

/-- **An index that may be used for restrictions enforces them.** -/
theorem enforces_of_isUsableWith (hexact : ∀ r ∈ rs, r.test.isExact = true)
    (himplied : x.isPartial = true → Restriction.allImply rs x.predicate = true)
    (husable : x.isUsableWith (rs.filter x.answers) = true) :
    x.Enforces rs (rs.filter x.answers)
      (rs.filter fun r => !(rs.filter x.answers).contains r) where
  split := split_perm hexact
  disjoint r hr hfilter := by
    obtain ⟨hmem, hnot⟩ := List.mem_filter.1 hfilter
    rw [(Restriction.contains_iff (hexact r hmem)).2 hr] at hnot
    cases hnot
  key r hr := (answers_sound (List.mem_filter.1 hr).2).1
  answered r hr := (answers_sound (List.mem_filter.1 hr).2).2
  leading hmethod := by
    have hlead := (Bool.and_eq_true_iff.1 husable).2
    rw [beq_false_of_ne hmethod, Bool.false_or] at hlead
    obtain ⟨r, hr, hleading⟩ := List.any_eq_true.1 hlead
    exact ⟨r, hr, head?_of_leading? (beq_iff_eq.1 hleading).symm⟩
  complete hpredicate row hrow hrs := by
    -- an index that is not partial has an empty predicate
    by_cases hpartial : x.isPartial = true
    · have hbounds : ∀ r ∈ x.predicate, r.test.boundsExactly = true := fun r hr =>
        ColumnTest.boundsExactly_of_isExact (hpredicate r hr)
      exact Restriction.allImply_sound hexact hbounds hrow (himplied hpartial) hrs
    · have hnil : x.predicate = [] := by simpa [isPartial] using hpartial
      rw [hnil]
      exact fun _ h => absurd h List.not_mem_nil

end Candidate

/-! ## Paths -/

/-- **A path whose scans enforce restrictions**, through indexes on offer for the
relations they read. -/
inductive Path.Enforces (offers : Oid → Candidate → Prop) (rs : List Restriction) : Path → Prop
  | seqScan {h : PathHead} (hfilter : h.filter = rs) : Enforces offers rs (.seqScan h)
  | indexScan {h : PathHead} {x : Candidate} {conditions : List Restriction}
    (hoffer : offers h.relid x) (henforces : x.Enforces rs conditions h.filter) :
    Enforces offers rs (.indexScan h x.oid conditions)
  | bitmapScan {h : PathHead} {x : Candidate} {conditions : List Restriction}
    (hoffer : offers h.relid x) (henforces : x.Enforces rs conditions h.filter) :
    Enforces offers rs (.bitmapScan h x.oid conditions)
  | append {h : PathHead} {ps : List Path} (hps : ∀ p ∈ ps, Enforces offers rs p) :
    Enforces offers rs (.append h ps)
  | dummy {h : PathHead} : Enforces offers rs (.dummy h)

namespace RelState

variable {offers : Oid → Candidate → Prop} {rel : RelState} {s : Settings} {p : Path}
variable {oid : Oid} {x : Candidate}

/-- **A relation before its paths are found**: the restrictions are those of the
query, and the candidates are indexes on offer. -/
structure Ready (offers : Oid → Candidate → Prop) (rs : List Restriction) (oid : Oid)
    (rel : RelState) : Prop where
  relid : rel.relid = oid
  restrictions : rel.restrictions = rs
  paths : rel.paths = []
  candidates : ∀ y ∈ rel.candidates, ∃ x, offers oid x ∧ x.SameIndex y

theorem ready_blank (i : RangeIndex) (name : String) :
    Ready offers rs oid (blank i oid name rs) :=
  ⟨rfl, rfl, rfl, fun _ h => absurd h List.not_mem_nil⟩

/-- More candidates that are on offer. -/
theorem Ready.append (h : Ready offers rs oid rel) {xs : List Candidate}
    (hxs : ∀ x ∈ xs, offers oid x) :
    Ready offers rs oid { rel with candidates := rel.candidates ++ xs } :=
  ⟨h.relid, h.restrictions, h.paths, fun y hy => by
    rcases List.mem_append.1 hy with hy | hy
    · exact h.candidates y hy
    · exact ⟨y, hxs y hy, .refl y⟩⟩

/-- Presenting the node a relation stands for changes sizes only. -/
theorem Ready.attachPartitioning (h : Ready offers rs oid rel) {g : Registry} {state : PlanState} :
    Ready offers rs oid (g.attachPartitioning state rel) := by
  unfold Registry.attachPartitioning
  split
  · exact h
  rename_i n _
  have hpartition : Ready offers rs oid (g.partition n rel) := by
    unfold Registry.partition
    split
    · exact ⟨h.relid, h.restrictions, h.paths, h.candidates⟩
    · exact h
  dsimp only
  split
  · exact hpartition
  · refine ⟨hpartition.relid, hpartition.restrictions, hpartition.paths, fun y hy => ?_⟩
    obtain ⟨z, hz, rfl⟩ := List.mem_map.1 hy
    obtain ⟨w, hoffer, hsame⟩ := hpartition.candidates z hz
    exact ⟨w, hoffer, hsame.oid, hsame.method, hsame.keys, hsame.predicate⟩

/-- The paths through an index on offer. -/
theorem enforces_of_mem_indexPaths (hexact : ∀ r ∈ rel.restrictions, r.test.isExact = true)
    (himplied : x.implied = true → x.isPartial = true →
      Restriction.allImply rel.restrictions x.predicate = true)
    {y : Candidate} (hoffer : offers rel.relid y) (hsame : y.SameIndex x)
    (hp : p ∈ rel.indexPaths s x) : p.Enforces offers rel.restrictions := by
  obtain ⟨hpartial, husable, head, conditions, hscan, rfl, cost, rfl⟩ := mem_indexPaths hp
  have henforces := (Candidate.enforces_of_isUsableWith hexact
    (fun h => himplied (hpartial h) h) husable).of_sameIndex hsame
  rw [← hsame.oid] at hscan
  rcases hscan with rfl | rfl
  · exact .indexScan hoffer henforces
  · exact .bitmapScan hoffer henforces

/-- **The paths of a base relation enforce the restrictions.** -/
theorem Ready.addBasePaths (h : Ready offers rs oid rel)
    (hexact : ∀ r ∈ rs, r.test.isExact = true) :
    ∀ p ∈ (rel.addBasePaths s).paths, p.Enforces offers rs := by
  obtain ⟨rfl, rfl, hpaths, hcandidates⟩ := h
  intro p hp
  rw [paths_addBasePaths, hpaths, List.nil_append] at hp
  rcases List.mem_cons.1 hp with rfl | hp
  · exact .seqScan rfl
  obtain ⟨y, hy, hp⟩ := List.mem_flatMap.1 hp
  obtain ⟨z, hoffer, hsame⟩ := hcandidates y hy
  have himplied : (y.judged rel.restrictions).implied = true → y.isPartial = true →
      Restriction.allImply rel.restrictions y.predicate = true := by
    intro himplied hpartial
    simpa [Candidate.judged, hpartial] using himplied
  exact @enforces_of_mem_indexPaths offers rel.estimated s p _ hexact himplied _ hoffer
    ⟨hsame.oid, hsame.method, hsame.keys, hsame.predicate⟩ hp

/-- Excluding a relation leaves its paths, or a dummy one in their place. -/
theorem mem_excludeRefuted (h : p ∈ (rel.excludeRefuted s).paths) :
    p ∈ rel.paths ∨ ∃ head, p = .dummy head := by
  unfold excludeRefuted at h
  split at h
  · exact Or.inr ⟨_, List.mem_singleton.1 h⟩
  · exact Or.inl h

end RelState

/-! ## Planning -/

namespace Extension

variable {σ : Type} [Catalog σ] {x : Extension} {c : σ} {ctx : Context} {settings : Settings}

/-- **The indexes on offer for a relation**: those of the catalog and, while the
window is active, those of the registry. -/
inductive Offers (x : Extension) (c : σ) (ctx : Context) (oid : Oid) : Candidate → Prop
  | physical {is : List PhysicalIndex} {i : PhysicalIndex} (his : Catalog.indexes c oid = .ok is)
    (hi : i ∈ is) : Offers x c ctx oid (PhysicalHost.candidateOf i)
  | hypothetical {i : HypotheticalIndex} (hactive : ctx.window.isActive = true)
    (hi : i ∈ x.registry.indexesOn oid) : Offers x c ctx oid i.candidate

/-- Presenting the objects of the registry keeps a relation ready. -/
theorem inject_ready {oid : Oid} {inherits : Bool} {s : Scope}
    (hactive : ctx.window.isActive = true) (h : s.rel.Ready (x.Offers c ctx) rs oid) :
    (x.inject oid inherits s).rel.Ready (x.Offers c ctx) rs oid := by
  have hattach : ∀ kind, (x.registry.attachIndexes oid kind s.rel).Ready (x.Offers c ctx) rs oid := by
    intro kind
    refine h.append fun y hy => ?_
    unfold Registry.candidatesOn at hy
    split at hy
    · obtain ⟨i, hi, rfl⟩ := List.mem_map.1 hy
      exact .hypothetical hactive hi
    · cases hy
  unfold inject
  dsimp only
  split
  · exact h.attachPartitioning
  · exact (hattach _).attachPartitioning

/-- **A relation is ready once the points were asked about it.** -/
theorem relationInfo_ready {oid : Oid} {inherits : Bool} {s : Scope}
    (h : s.rel.Ready (x.Offers c ctx) rs oid) :
    Edit.Yields ((x.planningOver c).relationInfo ctx oid inherits) s
      (fun _ s' => s'.rel.Ready (x.Offers c ctx) rs oid) fun _ => True := by
  have hhost : Edit.Yields (PhysicalHost.relationInfo c oid inherits) s
      (fun _ s' => s'.rel.Ready (x.Offers c ctx) rs oid) fun _ => True := by
    unfold PhysicalHost.relationInfo
    refine .bind (PhysicalHost.answer_yields (fun r _ => .bind (.change ?_)) fun _ _ => trivial)
    have hsized : RelState.Ready (x.Offers c ctx) rs oid { s.rel with
        pages := r.pages, tuples := r.tuples, width := r.width, columns := r.columns } :=
      ⟨h.relid, h.restrictions, h.paths, h.candidates⟩
    split
    · exact .pure hsized
    · refine .bind (PhysicalHost.answer_yields (fun is his => .change ?_) fun _ _ => trivial)
      refine hsized.append fun y hy => ?_
      obtain ⟨i, hi, rfl⟩ := List.mem_map.1 hy
      exact .physical his hi
  refine .bind (hhost.imp fun _ s' hs' => ?_)
  split
  · rename_i hactive
    exact .change (inject_ready hactive hs')
  · exact .pure hs'

/-- Asking the points about a relation leaves the range table alone, and answers
where the catalog does. -/
theorem relationInfo_found {oid : Oid} {inherits : Bool} {s : Scope} :
    Edit.Yields ((x.planningOver c).relationInfo ctx oid inherits) s
      (fun _ s' => s'.state = s.state ∧ ∃ r, Catalog.relation c oid = .ok r) fun _ => True := by
  refine .bind ((PhysicalHost.relationInfo_yields fun _ _ => trivial).imp fun _ s' hs' => ?_)
  split
  · exact .change ⟨hs'.state, hs'.relation⟩
  · exact .pure ⟨hs'.state, hs'.relation⟩

/-- **Adjusting the paths** of a relation keeps what is so of them and of dummy
paths. -/
theorem relationPaths_keeps {P : Path → Prop} (hdummy : ∀ head, P (.dummy head)) {i : RangeIndex}
    {s : Scope} (h : ∀ p ∈ s.rel.paths, P p) :
    Edit.Yields ((x.planningOver c).relationPaths ctx i) s
      (fun _ s' => s'.state = s.state ∧ ∀ p ∈ s'.rel.paths, P p) fun _ => True := by
  refine .bind (.pure ?_)
  split
  · refine .change ⟨rfl, fun p hp => ?_⟩
    rcases RelState.mem_excludeRefuted hp with hold | ⟨head, rfl⟩
    · exact h p hold
    · exact hdummy head
  · exact .pure ⟨rfl, h⟩

/-- **Every entry is planned by scans that enforce the restrictions.** -/
theorem upholds_enforces (hexact : ∀ r ∈ rs, r.test.isExact = true) :
    Draft.Upholds (x.metadataOver c) (x.planningOver c) ctx rs (fun _ => True) (fun _ => True)
      (Path.Enforces (x.Offers c ctx) rs) where
  dummy _ := .dummy
  append _ _ hpaths := .append hpaths
  relationInfo i _ _ _ _ :=
    (relationInfo_found.and (relationInfo_ready (RelState.ready_blank i _))).imp
      fun _ _ ⟨⟨hstate, _⟩, hready⟩ =>
        ⟨hstate, trivial, hready.paths, fun _ => hready.addBasePaths hexact⟩
  expandChildren _ _ _ _ _ _ := Edit.Yields.any.imp fun _ _ _ => Edit.Yields.any
  relationPaths _ _ := relationPaths_keeps fun _ => .dummy

end Extension

namespace Query

/-- Every restriction of a query is one of its conjuncts, bound to a column. -/
theorem exists_of_mem_resolve {r : Relation} {quals : List Qual} (h : resolve r quals = .ok rs) :
    ∀ s ∈ rs, ∃ q ∈ quals, q.resolve? r = some s := by
  induction quals generalizing rs with
  | nil =>
    obtain rfl := Except.ok.inj h
    simp
  | cons q quals ih =>
    rw [resolve] at h
    split at h
    · cases h
    rename_i s hs
    rcases hrest : resolve r quals with e | rest
    · rw [hrest] at h
      cases h
    rw [hrest] at h
    obtain rfl := Except.ok.inj h
    refine List.forall_mem_cons.2 ⟨⟨q, List.mem_cons_self, hs⟩, fun s' hs' => ?_⟩
    obtain ⟨q', hq', hs'⟩ := ih hrest s' hs'
    exact ⟨q', List.mem_cons_of_mem q hq', hs'⟩

variable {σ : Type} [Catalog σ] {c : σ} {q : Query} {r : Relation}

theorem bind_ok (h : q.bind c = .ok (r, rs)) :
    Catalog.relationNamed c q.relation = .ok r ∧ resolve r q.quals = .ok rs := by
  unfold bind at h
  split at h
  · cases h
  rename_i r' hr'
  rcases hresolve : resolve r' q.quals with e | rs'
  · rw [hresolve] at h
    cases h
  rw [hresolve] at h
  obtain ⟨rfl, rfl⟩ := Prod.mk.inj (Except.ok.inj h)
  exact ⟨hr', hresolve⟩

/-- The restrictions of a query make the tests that its conjuncts make. -/
theorem isExact_of_bind (hquals : ∀ qual ∈ q.quals, qual.test.isExact = true)
    (h : q.bind c = .ok (r, rs)) : ∀ s ∈ rs, s.test.isExact = true := by
  intro s hs
  obtain ⟨qual, hqual, hresolve⟩ := exists_of_mem_resolve (bind_ok h).2 s hs
  obtain ⟨column, -, rfl⟩ := Option.map_eq_some_iff.1 hresolve
  exact hquals qual hqual

end Query

namespace Extension

variable {σ : Type} [Catalog σ] {x : Extension} {c : σ} {ctx : Context} {settings : Settings}

/-- **Every scan of a plan enforces the whole query**, whether or not the window is
active. The restrictions of the query are split, at each scan, into those handed
to the index and those left to the filter, and a partial index that is scanned
has every row the query asks for. -/
theorem plan_enforces {q : Query} (hexact : ∀ qual ∈ q.quals, qual.test.isExact = true)
    {j j' : Journal} {plan : Plan}
    (hplan : q.plan c (x.metadataOver c) (x.planningOver c) ctx settings ((), j) =
      (.ok plan, (), j')) :
    ∃ r rs, q.bind c = .ok (r, rs) ∧ plan.path.Enforces (x.Offers c ctx) rs := by
  have hyields : Edit.Yields (q.plan c (x.metadataOver c) (x.planningOver c) ctx settings) ()
      (fun plan _ => ∃ r rs, q.bind c = .ok (r, rs) ∧ plan.path.Enforces (x.Offers c ctx) rs)
      fun _ => True :=
    Query.plan_yields (P := fun _ rs path => path.Enforces (x.Offers c ctx) rs) fun _ _ hbind =>
      ⟨upholds_enforces (Query.isExact_of_bind hexact hbind), fun _ => trivial⟩
  have houtcome := hyields j
  rw [hplan] at houtcome
  exact houtcome

/-- An extension with a partial BRIN index on `orders`. -/
def ordersRanged : Extension :=
  ((fresh true).registerIndex ordersCatalog orders.oid
    ((IndexSpec.onColumns .brin ["id"]).addQual "id" (.compare .gt (.int 0)))).2.1

/-- The standard settings but for sequential scans, which are not welcome. -/
def unsequenced : Settings := { Settings.standard with enableSeqScan := false }

/-- The rows of `orders` whose `id` is 5. -/
def ordersFive : Query := (Query.select "orders").addQual "id" (.compare .eq (.int 5))

theorem plan_enforces_ordersFive :
    ∃ plan j', ordersFive.plan ordersCatalog (ordersRanged.metadataOver ordersCatalog)
        (ordersRanged.planningOver ordersCatalog) simulating unsequenced ((), []) =
          (.ok plan, (), j') ∧ plan.path.index? = some ⟨16400⟩ ∧
      ∃ r rs, ordersFive.bind ordersCatalog = .ok (r, rs) ∧
        plan.path.Enforces (ordersRanged.Offers ordersCatalog simulating) rs := by
  have hindex : (match (ordersFive.plan ordersCatalog (ordersRanged.metadataOver ordersCatalog)
      (ordersRanged.planningOver ordersCatalog) simulating unsequenced ((), [])).1 with
      | .ok plan => plan.path.index?
      | .error _ => none) = some ⟨16400⟩ := by decide +kernel
  rcases hplan : ordersFive.plan ordersCatalog (ordersRanged.metadataOver ordersCatalog)
    (ordersRanged.planningOver ordersCatalog) simulating unsequenced ((), []) with ⟨e | plan, _, j'⟩
  · rw [hplan] at hindex
    cases hindex
  · rw [hplan] at hindex
    exact ⟨plan, j', rfl, hindex, plan_enforces (by decide) hplan⟩

end Extension

end WhatIf
