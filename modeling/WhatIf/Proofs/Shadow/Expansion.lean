import WhatIf.Proofs.Shadow.Mirror
import WhatIf.Proofs.Shadow.Refinement
/-!
# Shadow — expanding an entry twice

The children of an entry are added by the host, one for each relation below it,
or by the extension, one for each partition of its node. Either way the entries
are finished first, apart from the range table, and each is then added unless
the parent has a child that goes by the same identifier (`addNew`). Which entries
they are depends on the entry of the parent alone (`Adds`), and this stays where
it is. So a second expansion finds every child there already
(`expandChildren_idempotent`).
-/

namespace WhatIf

namespace PlanState

variable {p q : PlanState} {i k : RangeIndex} {e : RangeEntry} {es es' : List RangeEntry}
variable {oid : Oid} {α β : Type}

/-! ## Children without twins -/

/-- **No parent has two children that go by one identifier**, as the links record
it. -/
def NoTwins (p : PlanState) : Prop := (p.links.map fun l => (l.parent, l.childId)).Nodup

/-- That every link records the identifier its child goes by. -/
def Truthful (p : PlanState) : Prop :=
  ∀ l ∈ p.links, (p.entry? l.child).map RangeEntry.logicalId = some l.childId

/-- The identifiers that the children of an entry go by, as their entries have
it. -/
def childIds (p : PlanState) (i : RangeIndex) : List (Option Oid) :=
  (p.childrenOf i).map fun k => (p.entry? k).map RangeEntry.logicalId

/-- Where the links are truthful, the children have no twins if and only if their
entries have none. -/
theorem Truthful.noTwins_iff (h : p.Truthful) : p.NoTwins ↔ ∀ i, (p.childIds i).Nodup := by
  have hids : ∀ i, p.childIds i =
      ((p.links.filter fun l => l.parent == i).map fun l => l.childId).map some := by
    intro i
    rw [childIds, childrenOf, List.map_map, List.map_map]
    exact List.map_congr_left fun l hl => h l (List.mem_filter.1 hl).1
  simp only [hids, List.nodup_map_iff (Option.some_injective _)]
  rw [NoTwins, List.Nodup, List.pairwise_map]
  constructor
  · intro hpairs i
    rw [List.Nodup, List.pairwise_map, List.pairwise_filter]
    refine hpairs.imp fun {l l'} hne hl hl' heq => hne ?_
    rw [beq_iff_eq.1 hl, beq_iff_eq.1 hl', heq]
  · intro hall
    rw [List.pairwise_iff_forall_sublist]
    intro l l' hsub heq
    obtain ⟨hparent, hid⟩ := Prod.mk.inj heq
    have hnodup := hall l'.parent
    rw [List.Nodup, List.pairwise_map, List.pairwise_filter, List.pairwise_iff_forall_sublist]
      at hnodup
    exact hnodup hsub (beq_iff_eq.2 hparent) (beq_self_eq_true _) hid

/-! ## Adding what is new -/

/-- Add a child unless the parent has one that goes by the same identifier. -/
def addNew (p : PlanState) (i : RangeIndex) (e : RangeEntry) : PlanState :=
  if p.hasChild i e.logicalId then p else (p.addChild i e).2

/-- Add several children in turn. -/
def addAllNew (p : PlanState) (i : RangeIndex) (es : List RangeEntry) : PlanState :=
  es.foldl (fun p e => p.addNew i e) p

/-- The link of a child that was added records what its entry goes by. -/
theorem links_addChild (p : PlanState) (i : RangeIndex) (e : RangeEntry) :
    ∃ l, (p.addChild i e).2.links = p.links ++ [l] ∧ l.parent = i ∧
      l.child = (p.addChild i e).1 ∧ l.childId = e.logicalId :=
  ⟨_, rfl, rfl, rfl, rfl⟩

theorem Extends.hasChild (h : p.Extends q) (hchild : p.hasChild i oid = true) :
    q.hasChild i oid = true := by
  obtain ⟨l, hl, hlink⟩ := hasChild_iff.1 hchild
  exact hasChild_iff.2 ⟨l, h.links.subset hl, hlink⟩

theorem extends_addNew (p : PlanState) (i : RangeIndex) (e : RangeEntry) :
    p.Extends (p.addNew i e) := by
  unfold addNew
  split
  · exact .refl p
  · exact p.extends_addChild i e

/-- What was to be added is there. -/
theorem hasChild_addNew (p : PlanState) (i : RangeIndex) (e : RangeEntry) :
    (p.addNew i e).hasChild i e.logicalId = true := by
  unfold addNew
  split
  · assumption
  · obtain ⟨l, hlinks, hparent, -, hid⟩ := p.links_addChild i e
    refine hasChild_iff.2 ⟨l, ?_, hparent, hid⟩
    rw [hlinks]
    exact List.mem_append_right _ (List.mem_singleton_self l)

theorem NoTwins.addNew (h : p.NoTwins) (i : RangeIndex) (e : RangeEntry) :
    (p.addNew i e).NoTwins := by
  unfold PlanState.addNew
  split
  · exact h
  · rename_i hnone
    obtain ⟨l, hlinks, hparent, -, hid⟩ := p.links_addChild i e
    rw [NoTwins, hlinks, List.map_append]
    refine List.nodup_append'.2 ⟨h, List.nodup_singleton _, fun pair hold hnew => hnone ?_⟩
    obtain ⟨l', hl', hpair⟩ := List.mem_map.1 hold
    obtain ⟨hparent', hid'⟩ := Prod.mk.inj (hpair.trans (List.mem_singleton.1 hnew))
    exact hasChild_iff.2 ⟨l', hl', hparent'.trans hparent, hid'.trans hid⟩

theorem Truthful.addNew (h : p.Truthful) (i : RangeIndex) (e : RangeEntry) :
    (p.addNew i e).Truthful := by
  unfold PlanState.addNew
  split
  · exact h
  · obtain ⟨l, hlinks, -, hchild, hid⟩ := p.links_addChild i e
    intro l' hl'
    rw [hlinks] at hl'
    rcases List.mem_append.1 hl' with hl' | hl'
    · obtain ⟨e', he', hid'⟩ := Option.map_eq_some_iff.1 (h l' hl')
      rw [Extends.entry? (p.extends_addChild i e) he', ← hid']
      rfl
    · rw [List.mem_singleton.1 hl', hchild, entry?_addChild, hid]
      rfl

/-! ## Adding several -/

/-- What each addition keeps, all of them keep. -/
theorem addAllNew_keeps {P : PlanState → Prop} (hp : P p)
    (hstep : ∀ p, P p → ∀ e ∈ es, P (p.addNew i e)) : P (p.addAllNew i es) :=
  List.foldlRecOn es _ hp hstep

theorem extends_addAllNew (p : PlanState) (i : RangeIndex) (es : List RangeEntry) :
    p.Extends (p.addAllNew i es) :=
  addAllNew_keeps (.refl p) fun q h e _ => h.trans (q.extends_addNew i e)

theorem addAllNew_append : p.addAllNew i (es ++ es') = (p.addAllNew i es).addAllNew i es' :=
  List.foldl_append

theorem hasChild_addAllNew (he : e ∈ es) : (p.addAllNew i es).hasChild i e.logicalId = true := by
  obtain ⟨before, after, rfl⟩ := List.append_of_mem he
  rw [addAllNew_append]
  exact (extends_addAllNew _ i after).hasChild (hasChild_addNew _ i e)

/-- Where every child is there already, none is added. -/
theorem addAllNew_of_hasChild (h : ∀ e ∈ es, p.hasChild i e.logicalId = true) :
    p.addAllNew i es = p := by
  induction es with
  | nil => rfl
  | cons e es ih =>
    have hone : p.addNew i e = p := if_pos (h e List.mem_cons_self)
    show (p.addNew i e).addAllNew i es = p
    rw [hone]
    exact ih fun e' he' => h e' (List.mem_cons_of_mem e he')

/-- **Added twice is added once.** -/
theorem addAllNew_idempotent (p : PlanState) (i : RangeIndex) (es : List RangeEntry) :
    (p.addAllNew i es).addAllNew i es = p.addAllNew i es :=
  addAllNew_of_hasChild fun _ he => hasChild_addAllNew he

/-! ## Calls that add children -/

/-- **A call that adds certain children** wherever it is made, and notes
nothing. -/
def Adds (x : Edit PlanState α) (i : RangeIndex) (es : List RangeEntry) : Prop :=
  ∀ p j, ∃ a, x (p, j) = (.ok a, (p.addAllNew i es, j))

/-- **A call that does the same wherever it is made**: it adds certain children,
or fails. -/
def Steady (x : Edit PlanState α) (i : RangeIndex) : Prop :=
  (∃ es, Adds x i es) ∨ ∀ p j, ∃ e, (x (p, j)).1 = .error e

variable {x : Edit PlanState α} {f : α → Edit PlanState β}

theorem Adds.pure (a : α) : Adds (Pure.pure a : Edit PlanState α) i [] := fun _ _ => ⟨a, rfl⟩

theorem Adds.bind (h : Adds x i es) (hf : ∀ a, Adds (f a) i es') :
    Adds (x >>= f) i (es ++ es') := by
  intro p j
  obtain ⟨a, ha⟩ := h p j
  obtain ⟨b, hb⟩ := hf a (p.addAllNew i es) j
  refine ⟨b, ?_⟩
  rw [Edit.bind_apply, ha, addAllNew_append]
  exact hb

/-- Adding a child whose entry is finished by a call. -/
theorem addOneChild_adds {finish : Oid → Edit RangeEntry Unit} {e e' : RangeEntry}
    (hfinish : ∀ j, finish oid (.ofRelation e.relid e.kind e.label false, j) = (.ok (), (e', j))) :
    Adds (addOneChild finish i e oid) i [e'] := by
  intro p j
  have hlend : (Edit.lend (finish oid) (.ofRelation e.relid e.kind e.label false) :
      Edit PlanState (Unit × RangeEntry)) (p, j) = (.ok ((), e'), (p, j)) := by
    unfold Edit.lend
    rw [hfinish]
  unfold addOneChild
  rw [Edit.bind_apply, hlend]
  show ∃ a, (if p.hasChild i e'.logicalId then _ else _ : Edit PlanState Nat) (p, j) =
    (.ok a, (p.addNew i e', j))
  unfold addNew
  split
  · exact ⟨0, rfl⟩
  · exact ⟨1, rfl⟩

theorem addEachChild_adds {finish : Oid → Edit RangeEntry Unit} {e : RangeEntry}
    {finished : Oid → RangeEntry} (hfinish : ∀ oid j,
      finish oid (.ofRelation e.relid e.kind e.label false, j) = (.ok (), (finished oid, j)))
    (oids : List Oid) : Adds (addEachChild finish i e oids) i (oids.map finished) := by
  induction oids with
  | nil => exact .pure 0
  | cons oid oids ih =>
    exact (addOneChild_adds (hfinish oid)).bind fun n => by
      have hrest := ih.bind fun m => Adds.pure (i := i) (n + m)
      rwa [List.append_nil] at hrest

/-- What is steady and answers has added certain children, and would add them
anywhere. -/
theorem Steady.adds (h : Steady x i) {j : Journal} {a : α} {st : PlanState × Journal}
    (hok : x (p, j) = (.ok a, st)) : ∃ es, Adds x i es := by
  rcases h with hadds | hfails
  · exact hadds
  · obtain ⟨e, he⟩ := hfails p j
    rw [hok] at he
    cases he

end PlanState

namespace Extension

open PlanState (Adds Steady)

variable {σ : Type} [Catalog σ] (x : Extension) (c : σ) (ctx : Context)
variable {i : RangeIndex} {e : RangeEntry}

/-! ## The points -/

/-- The entry of a child once it is finished. -/
def finished (child : Oid) (e : RangeEntry) : RangeEntry :=
  if ctx.window.isActive then
    match (x.registry.node? child).filter fun n => !n.isRoot with
    | some n => e.standFor n
    | none => e
  else e

/-- An entry is finished in the same way whatever was noted. -/
theorem finishChild_eq (parentId child : Oid) (e : RangeEntry) (j : Journal) :
    (x.metadataOver c).finishChild ctx parentId child (e, j) =
      (.ok (), (x.finished ctx child e, j)) := by
  show x.finishChild ctx child (e, j) = _
  unfold finishChild finished
  split
  · generalize (x.registry.node? child).filter (fun n => !n.isRoot) = part?
    cases part? with
    | none => rfl
    | some n => rfl
  · rfl

/-- The relations below one are listed in the same way whatever was noted. -/
theorem inheritors_answers (oid : Oid) :
    ∃ answer, ∀ j, (x.metadataOver c).inheritors ctx oid ((), j) = (answer, ((), j)) := by
  show ∃ answer, ∀ j, orNext ctx (x.registry.inheritors? oid)
    (PhysicalHost.answer (PhysicalHost.inheritors c oid)) ((), j) = (answer, ((), j))
  unfold orNext
  split
  · rcases x.registry.inheritors? oid with _ | oids
    · exact ⟨_, fun j => rfl⟩
    · exact ⟨.ok oids, fun j => rfl⟩
  · exact ⟨_, fun j => rfl⟩

/-- The host adds an entry for each relation, or fails at one it does not know. -/
theorem addMembers_steady (parentId : Oid) (oids : List Oid) :
    Steady (PhysicalHost.addMembers c (x.metadataOver c) ctx i parentId oids) i := by
  induction oids with
  | nil => exact Or.inl ⟨[], .pure ()⟩
  | cons oid oids ih =>
    rcases hr : Catalog.relation c oid with cause | r
    · refine Or.inr fun p j => ⟨.catalog cause, ?_⟩
      rw [PhysicalHost.addMembers, Edit.bind_apply, PhysicalHost.addMember, Edit.bind_apply, hr]
      rfl
    · have hone : Adds (PhysicalHost.addMember c (x.metadataOver c) ctx i parentId oid) i
          [x.finished ctx oid (.ofRelation oid r.kind r.name false)] := by
        intro p j
        refine ⟨(), ?_⟩
        have hlend : (Edit.lend ((x.metadataOver c).finishChild ctx parentId oid)
            (.ofRelation oid r.kind r.name false) : Edit PlanState (Unit × RangeEntry)) (p, j) =
              (.ok ((), x.finished ctx oid (.ofRelation oid r.kind r.name false)), (p, j)) := by
          unfold Edit.lend
          rw [finishChild_eq]
        rw [PhysicalHost.addMember, Edit.bind_apply, hr]
        show (Edit.lend _ _ >>= _) (p, j) = _
        rw [Edit.bind_apply, hlend]
        rfl
      rcases ih with ⟨es, hadds⟩ | hfails
      · exact Or.inl ⟨_, hone.bind fun _ => hadds⟩
      · refine Or.inr fun p j => ?_
        obtain ⟨u, hu⟩ := hone p j
        obtain ⟨e, he⟩ := hfails (p.addAllNew i
          [x.finished ctx oid (.ofRelation oid r.kind r.name false)]) j
        refine ⟨e, ?_⟩
        rw [PhysicalHost.addMembers, Edit.bind_apply, hu]
        exact he

variable {p : PlanState} {desc : Option PartitionDesc}

/-- The children the host adds below an entry. -/
def hostChildren (i : RangeIndex) (e : RangeEntry) : Option PartitionDesc → Edit PlanState Unit
  | some d => PhysicalHost.addMembers c (x.metadataOver c) ctx i e.relid d.oids
  | none => Edit.ask ((x.metadataOver c).inheritors ctx e.relid) >>=
      PhysicalHost.addMembers c (x.metadataOver c) ctx i e.relid

theorem hostExpandChildren_apply (he : p.entry? i = some e) (j : Journal) :
    PhysicalHost.expandChildren c (x.metadataOver c) ctx i desc (p, j) =
      x.hostChildren c ctx i e desc (p, j) := by
  unfold PhysicalHost.expandChildren
  rw [Edit.bind_apply]
  dsimp only [Edit.value]
  rw [he]
  cases desc with
  | some d => rfl
  | none => rfl

theorem hostChildren_steady (i : RangeIndex) (e : RangeEntry) (desc : Option PartitionDesc) :
    Steady (x.hostChildren c ctx i e desc) i := by
  cases desc with
  | some d => exact x.addMembers_steady c ctx e.relid d.oids
  | none =>
    obtain ⟨answer, hanswer⟩ := x.inheritors_answers c ctx e.relid
    show Steady (Edit.ask ((x.metadataOver c).inheritors ctx e.relid) >>=
      PhysicalHost.addMembers c (x.metadataOver c) ctx i e.relid) i
    rcases answer with error | oids
    · refine Or.inr fun p j => ⟨error, ?_⟩
      rw [Edit.bind_apply, Edit.ask, hanswer]
    · have hmembers : (Edit.ask ((x.metadataOver c).inheritors ctx e.relid) >>=
          PhysicalHost.addMembers c (x.metadataOver c) ctx i e.relid) =
            PhysicalHost.addMembers c (x.metadataOver c) ctx i e.relid oids := by
        funext st
        rw [Edit.bind_apply, Edit.ask, hanswer]
      rw [hmembers]
      exact x.addMembers_steady c ctx e.relid oids

/-- Outside an active window, and for an entry that stands for no partitioned
node, an expansion is left to the host. -/
theorem expandChildren_host (h : ctx.window.isActive = true → ∀ e, p.entry? i = some e →
    x.registry.childNodes? e.logicalId = none) (j : Journal) :
    (x.planningOver c).expandChildren ctx i desc (p, j) =
      PhysicalHost.expandChildren c (x.metadataOver c) ctx i desc (p, j) := by
  show (if ctx.window.isActive then x.expandChildren (x.metadataOver c) ctx i
    (PhysicalHost.expandChildren c (x.metadataOver c) ctx i desc)
      else PhysicalHost.expandChildren c (x.metadataOver c) ctx i desc) (p, j) = _
  split
  · rename_i hactive
    unfold expandChildren
    rw [Edit.bind_apply]
    dsimp only [Edit.value]
    rcases he : p.entry? i with _ | e
    · rfl
    · dsimp only
      rw [h hactive e he]
  · rfl

/-- In an active window the partitions of a node are its children. -/
theorem expandChildren_own (hactive : ctx.window.isActive = true) (he : p.entry? i = some e)
    {children : List Node} (hchildren : x.registry.childNodes? e.logicalId = some children)
    (j : Journal) :
    (x.planningOver c).expandChildren ctx i desc (p, j) =
      (PlanState.addEachChild ((x.metadataOver c).finishChild ctx e.logicalId) i e
        (children.map fun n => n.oid) >>= fun _ => pure ()) (p, j) := by
  have hpoint : (x.planningOver c).expandChildren ctx i desc =
      x.expandChildren (x.metadataOver c) ctx i
        (PhysicalHost.expandChildren c (x.metadataOver c) ctx i desc) := if_pos hactive
  have hinto : PlanState.expandInto ((x.metadataOver c).finishChild ctx e.logicalId) i
      (children.map fun n => n.oid) (p, j) =
        PlanState.addEachChild ((x.metadataOver c).finishChild ctx e.logicalId) i e
          (children.map fun n => n.oid) (p, j) := by
    unfold PlanState.expandInto
    rw [Edit.bind_apply]
    dsimp only [Edit.value]
    rw [he]
  rw [hpoint, expandChildren, Edit.bind_apply]
  dsimp only [Edit.value]
  rw [he]
  dsimp only
  rw [hchildren]
  dsimp only
  rw [Edit.bind_apply, Edit.bind_apply, hinto]

/-- An entry that is not there is not expanded. -/
theorem expandChildren_noEntry (he : p.entry? i = none) (j : Journal) :
    (x.planningOver c).expandChildren ctx i desc (p, j) =
      (.error (.planning (.noEntry i)), (p, j)) := by
  rw [x.expandChildren_host c ctx (fun _ e he' => by rw [he] at he'; cases he'),
    PhysicalHost.expandChildren, Edit.bind_apply]
  dsimp only [Edit.value]
  rw [he]
  rfl

/-- **What an expansion does depends on the entry of the parent alone.** -/
theorem expandChildren_steady (i : RangeIndex) (e : RangeEntry) (desc : Option PartitionDesc) :
    ∃ y, Steady y i ∧ ∀ p j, p.entry? i = some e →
      (x.planningOver c).expandChildren ctx i desc (p, j) = y (p, j) := by
  by_cases hown : ctx.window.isActive = true ∧ (x.registry.childNodes? e.logicalId).isSome
  · obtain ⟨hactive, hsome⟩ := hown
    obtain ⟨children, hchildren⟩ := Option.isSome_iff_exists.1 hsome
    have hadds := PlanState.addEachChild_adds (i := i) (e := e)
      (fun oid j => x.finishChild_eq c ctx e.logicalId oid _ j) (children.map fun n => n.oid)
    exact ⟨_, Or.inl ⟨_, hadds.bind fun _ => .pure ()⟩, fun p j he =>
      x.expandChildren_own c ctx hactive he hchildren j⟩
  · refine ⟨_, x.hostChildren_steady c ctx i e desc, fun p j he => ?_⟩
    rw [x.expandChildren_host c ctx (fun hactive e' he' => ?_), x.hostExpandChildren_apply c ctx he]
    obtain rfl := Option.some.inj (he.symm.trans he')
    exact Option.not_isSome_iff_eq_none.1 fun hsome => hown ⟨hactive, hsome⟩

/-- **Expanding an entry twice is expanding it once**, in any window. Behind the
extension alone, an expansion that succeeds adds children after the entries and
links there were, and no twins. Where the links were truthful they still are, and
no two entries below one go by one identifier. Made again, it changes nothing. -/
theorem expandChildren_idempotent {s s' : PlanState} {j j' : Journal} (hs : s.NoTwins)
    (hok : ((PhysicalHost.host c).planningBehind [x.interceptor]).expandChildren ctx i desc (s, j) =
      (.ok (), (s', j'))) :
    s'.NoTwins ∧ (s.Truthful → s'.Truthful ∧ ∀ k, (s'.childIds k).Nodup) ∧ s.Extends s' ∧
      ((PhysicalHost.host c).planningBehind [x.interceptor]).expandChildren ctx i desc (s', j') =
        (.ok (), (s', j')) := by
  have hpoints : (PhysicalHost.host c).planningBehind [x.interceptor] = x.planningOver c := rfl
  rw [hpoints] at hok ⊢
  rcases he : s.entry? i with _ | e
  · rw [x.expandChildren_noEntry c ctx he] at hok
    cases hok
  obtain ⟨y, hsteady, happly⟩ := x.expandChildren_steady c ctx i e desc
  rw [happly s j he] at hok
  obtain ⟨es, hadds⟩ := hsteady.adds hok
  obtain ⟨u, hu⟩ := hadds s j
  rw [hu] at hok
  obtain ⟨rfl, rfl⟩ := Prod.mk.inj (Prod.mk.inj hok).2
  have hextends := s.extends_addAllNew i es
  have htwins : (s.addAllNew i es).NoTwins :=
    PlanState.addAllNew_keeps hs fun _ hp e _ => hp.addNew i e
  refine ⟨htwins, fun ht => ?_, hextends, ?_⟩
  · have htruthful : (s.addAllNew i es).Truthful :=
      PlanState.addAllNew_keeps ht fun _ hp e _ => hp.addNew i e
    exact ⟨htruthful, htruthful.noTwins_iff.1 htwins⟩
  obtain ⟨u', hu'⟩ := hadds (s.addAllNew i es) j
  rw [happly _ j (hextends.entry? he), hu', PlanState.addAllNew_idempotent]

/-- The range table of a query over `orders`. -/
def ordersRead : PlanState :=
  ((PlanState.ofSettings .standard).addEntry
    (.ofRelation orders.oid orders.kind orders.name true)).2

theorem expandChildren_idempotent_orders :
    ∃ s' j', ((PhysicalHost.host ordersCatalog).planningBehind
        [ordersShadowed.interceptor]).expandChildren simulating ⟨1⟩ none (ordersRead, []) =
          (.ok (), (s', j')) ∧ s'.entries.length = 3 ∧
      s'.NoTwins ∧ (ordersRead.Truthful → s'.Truthful ∧ ∀ k, (s'.childIds k).Nodup) ∧
        ordersRead.Extends s' ∧
        ((PhysicalHost.host ordersCatalog).planningBehind
          [ordersShadowed.interceptor]).expandChildren simulating ⟨1⟩ none (s', j') =
            (.ok (), (s', j')) := by
  have hlength : (match ((PhysicalHost.host ordersCatalog).planningBehind
      [ordersShadowed.interceptor]).expandChildren simulating ⟨1⟩ none (ordersRead, []) with
      | (.ok (), (s', _)) => some s'.entries.length
      | (.error _, _) => none) = some 3 := by decide +kernel
  rcases hok : ((PhysicalHost.host ordersCatalog).planningBehind
      [ordersShadowed.interceptor]).expandChildren simulating ⟨1⟩ none (ordersRead, []) with
    ⟨e | _, s', j'⟩
  · rw [hok] at hlength
    cases hlength
  · rw [hok] at hlength
    exact ⟨s', j', rfl, Option.some.inj hlength,
      ordersShadowed.expandChildren_idempotent ordersCatalog simulating List.nodup_nil hok⟩

end Extension

end WhatIf
