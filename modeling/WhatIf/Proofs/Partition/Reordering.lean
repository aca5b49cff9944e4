import WhatIf.Proofs.Partition.Checked
import WhatIf.Proofs.Partition.Siblings
import Mathlib.Data.List.Perm.Basic
/-!
# Partition — the order in which a layout lists its partitions

Two layouts may differ in the order of siblings, at any depth, and in nothing
else (`Layout.Reorders`). If their bounds hold no doubles, both are valid or
neither is, and planting either of them yields the same nodes from the same
identifiers: the siblings of a valid level can be put in bound order in one way
only.
-/

namespace WhatIf

variable {r : Relation} {l l' : Layout} {p q : Partition} {ps qs rs : List Partition}
variable {strategy : Strategy} {columns : List String}

/-! ## Layouts that differ in order -/

namespace Partition

/-- **A partition that lists in another order what is below it**, at any
depth. -/
inductive Reorders : Partition → Partition → Prop
  | leaf {name : String} {bound : Bound} : Reorders (.leaf name bound) (.leaf name bound)
  | split {name : String} {bound : Bound} {strategy : Strategy} {key : List String}
      {ps rs qs : List Partition} (hbelow : List.Forall₂ Reorders ps rs) (hperm : rs.Perm qs) :
      Reorders (.split name bound strategy key ps) (.split name bound strategy key qs)

mutual

/-- Whether no bound of the partition or below it holds a double. -/
def isExact : Partition → Bool
  | leaf _ bound => bound.isExact
  | split _ bound _ _ ps => bound.isExact && allExact ps

/-- Whether none of several partitions holds one. -/
def allExact : List Partition → Bool
  | [] => true
  | p :: ps => isExact p && allExact ps

end

theorem allExact_iff : allExact ps = true ↔ ∀ p ∈ ps, p.isExact = true := by
  induction ps with
  | nil => simp [allExact]
  | cons p ps ih => rw [allExact, Bool.and_eq_true, ih, List.forall_mem_cons]

theorem bound_isExact (h : p.isExact = true) : p.bound.isExact = true := by
  cases p with
  | leaf name bound => exact h
  | split name bound strategy key ps => exact (Bool.and_eq_true_iff.1 h).1

/-- A partition without what is below it. -/
def bare (p : Partition) : Partition := .leaf p.name p.bound

theorem Reorders.bare_eq (h : Reorders p q) : p.bare = q.bare := by
  cases h with
  | _ => rfl

end Partition

namespace Layout

/-- **A layout that lists its partitions in another order**, at any depth. -/
def Reorders (l l' : Layout) : Prop := l.whole.Reorders l'.whole

/-- Whether no bound of the layout holds a double. -/
def isExact (l : Layout) : Bool := Partition.allExact l.partitions

end Layout

/-- What is known of the items of the first list carries over. -/
theorem forall₂_imp_of_mem {α β : Type} {R S : α → β → Prop} {xs : List α} {ys : List β}
    (h : List.Forall₂ R xs ys) (himp : ∀ x ∈ xs, ∀ y, R x y → S x y) : List.Forall₂ S xs ys := by
  induction h with
  | nil => exact .nil
  | cons hxy _ ih =>
    rw [List.forall_mem_cons] at himp
    exact .cons (himp.1 _ hxy) (ih himp.2)

namespace Partition

theorem map_eq_of_forall₂ {α : Type} {f g : Partition → α}
    (h : List.Forall₂ (fun p q => f p = g q) ps rs) : ps.map f = rs.map g := by
  induction h with
  | nil => rfl
  | cons hpq _ ih => rw [List.map_cons, List.map_cons, hpq, ih]

/-- The other way round it is reordered as well. -/
theorem Reorders.symm (p : Partition) : ∀ {q}, Reorders p q → Reorders q p := by
  induction p using Partition.induct with
  | leaf name bound =>
    intro q h
    cases h
    exact .leaf
  | split name bound strategy key ps ih =>
    intro q h
    cases h with
    | @split _ _ _ _ _ rs qs hbelow hperm =>
      have hback : List.Forall₂ Reorders rs ps :=
        (forall₂_imp_of_mem hbelow fun p hp q hpq => ih p hp hpq).flip
      obtain ⟨ts, hts, hperm'⟩ := List.perm_comp_forall₂ hperm.symm hback
      exact .split hts hperm'

end Partition

/-! ## One level -/

namespace Layout

/-- A level passes if a level with the same names and bounds does. -/
theorem Passes.of_bare (h : Passes r strategy columns ps)
    (hbare : ps.map Partition.bare = qs.map Partition.bare) : Passes r strategy columns qs := by
  have hmem : ∀ q ∈ qs, ∃ p ∈ ps, p.bare = q.bare := by
    intro q hq
    obtain ⟨p, hp, hpq⟩ := List.mem_map.1 (hbare ▸ List.mem_map_of_mem (f := Partition.bare) hq)
    exact ⟨p, hp, hpq⟩
  obtain ⟨⟨key, hkey, hfault⟩, hne, hdefault, hapart⟩ := h
  refine ⟨⟨key, hkey, fun q hq => ?_⟩, ?_, ?_, ?_⟩
  · obtain ⟨p, hp, hpq⟩ := hmem q hq
    obtain ⟨hname, hbound⟩ := Partition.leaf.inj hpq
    have hp := hfault p hp
    unfold partitionFault? at hp ⊢
    rwa [← hbound, ← hname]
  · rintro rfl
    exact hne (List.map_eq_nil_iff.1 hbare)
  · have hcount : ∀ ps : List Partition, ps.countP (fun p => p.bound.isDefault) =
        (ps.map Partition.bare).countP fun p => p.bound.isDefault := fun ps =>
      (List.countP_map (p := fun p : Partition => p.bound.isDefault) (f := Partition.bare)).symm
    rw [hcount qs, ← hbare, ← hcount ps]
    exact hdefault
  · have hoverlap : ∀ ps : List Partition,
        overlap? strategy ps = overlap? strategy (ps.map Partition.bare) := by
      intro ps
      cases strategy with
      | range => rw [overlap?, overlap?, rangeOverlap?, rangeOverlap?, List.filterMap_map]; rfl
      | list => rw [overlap?, overlap?, listOverlap?, listOverlap?, List.flatMap_map]; rfl
      | hash => rw [overlap?, overlap?, hashOverlap?, hashOverlap?, List.filterMap_map]; rfl
    rw [hoverlap qs, ← hbare, ← hoverlap ps]
    exact hapart

/-- What is known of the bounds of a level that passes: over columns without
doubles they are bounds of the level, and no two of them are equal. -/
theorem Passes.bounds (h : Passes r strategy columns ps)
    (hexact : ∀ p ∈ ps, p.bound.isExact = true) :
    ∃ types, (∀ t ∈ types, t ≠ DataType.float8) ∧ (∀ p ∈ ps, p.bound.IsOf strategy types) ∧
      ps.Pairwise fun p q => p.bound.order q.bound ≠ .eq := by
  obtain ⟨⟨key, hkey, hfault⟩, -, hdefault, hapart⟩ := h
  have htypes : ∀ t ∈ key.types.map DataType.exactly, t ≠ DataType.float8 := by
    intro t ht
    obtain ⟨t, -, rfl⟩ := List.mem_map.1 ht
    exact t.exactly_ne
  have hbounds : ∀ p ∈ ps, p.bound.IsOf strategy (key.types.map DataType.exactly) := by
    intro p hp
    refine Bound.IsOf.exactly ?_ (hexact p hp)
    rcases boundFault?_of_partitionFault? (hfault p hp) with hdefault | ⟨hown, hnone⟩
    · rw [hdefault]
      trivial
    · exact resolveKey_strategy hkey ▸ Bound.isOf_of_boundFault? (resolveKey_ok hkey) hown hnone
  exact ⟨_, htypes, hbounds, Partition.pairwise_order_ne htypes hbounds hapart hdefault⟩

/-- **The order of siblings does not matter to a level.** -/
theorem Passes.of_perm (h : Passes r strategy columns ps)
    (hexact : ∀ p ∈ ps, p.bound.isExact = true) (hperm : ps.Perm qs) :
    Passes r strategy columns qs := by
  obtain ⟨types, htypes, hbounds, -⟩ := h.bounds hexact
  obtain ⟨⟨key, hkey, hfault⟩, hne, hdefault, hapart⟩ := h
  refine ⟨⟨key, hkey, fun q hq => hfault q (hperm.mem_iff.2 hq)⟩, ?_, ?_, ?_⟩
  · rintro rfl
    exact hne hperm.eq_nil
  · rwa [← hperm.countP_eq]
  · exact overlap?_of_perm htypes hperm hbounds hapart

end Layout

/-! ## Every level -/

namespace Partition

/-- What is below a reordered partition, up to order. -/
theorem below_of_reorders (hbelow : List.Forall₂ Reorders ps rs) (hperm : rs.Perm qs) :
    (∀ q ∈ qs, ∃ p ∈ ps, Reorders p q) ∧ ps.map bare = rs.map bare := by
  refine ⟨fun q hq => ?_, map_eq_of_forall₂ (hbelow.imp fun _ _ h => h.bare_eq)⟩
  have hq := hperm.mem_iff.2 hq
  clear hperm
  induction hbelow with
  | nil => cases hq
  | @cons p s ps rs hps _ ih =>
    rcases List.mem_cons.1 hq with rfl | hq
    · exact ⟨p, List.mem_cons_self, hps⟩
    · obtain ⟨p, hp, hpq⟩ := ih hq
      exact ⟨p, List.mem_cons_of_mem _ hp, hpq⟩

theorem namesBelowAll_eq (ps : List Partition) :
    namesBelowAll ps = ps.flatMap namesBelow := by
  induction ps with
  | nil => rfl
  | cons p ps ih => rw [namesBelowAll, ih, List.flatMap_cons]

theorem flatMap_perm_of_forall₂ {α : Type} {f : Partition → List α}
    (h : List.Forall₂ (fun p q => (f p).Perm (f q)) ps rs) :
    (ps.flatMap f).Perm (rs.flatMap f) := by
  induction h with
  | nil => exact .nil
  | cons hpq _ ih => exact hpq.append ih

/-- The names below are the same, up to order. -/
theorem namesBelow_of_reorders (p : Partition) :
    ∀ {q}, Reorders p q → p.namesBelow.Perm q.namesBelow := by
  induction p using Partition.induct with
  | leaf name bound =>
    intro q h
    cases h
    exact .refl _
  | split name bound strategy key ps ih =>
    intro q h
    cases h with
    | @split _ _ _ _ _ rs qs hbelow hperm =>
      have hnames : ∀ ps : List Partition, ps.map (fun p => Text.lower p.name) =
          (ps.map bare).map fun p => Text.lower p.name := fun ps => by
        rw [List.map_map]
        rfl
      have hps : (ps.flatMap namesBelow).Perm (rs.flatMap namesBelow) :=
        flatMap_perm_of_forall₂ (forall₂_imp_of_mem hbelow fun p hp q hpq => ih p hp hpq)
      rw [namesBelow, namesBelow, namesBelowAll_eq, namesBelowAll_eq, hnames ps,
        (below_of_reorders hbelow hperm).2, ← hnames rs]
      exact (hperm.map _).append (hps.trans (hperm.flatMap_right _))

/-- **Reordering keeps a partition valid.** -/
theorem Valid.of_reorders (p : Partition) :
    ∀ {q}, Reorders p q → p.isExact = true → p.Valid r → q.Valid r := by
  induction p using Partition.induct with
  | leaf name bound =>
    intro q h _ _
    cases h
    exact .leaf
  | split name bound strategy key ps ih =>
    intro q h hexact hvalid
    cases h with
    | @split _ _ _ _ _ rs qs hbelow hperm =>
      cases hvalid with
      | split hpasses hvalid =>
        obtain ⟨hmem, hbare⟩ := below_of_reorders hbelow hperm
        have hexact := allExact_iff.1 (Bool.and_eq_true_iff.1 hexact).2
        have hexact' : ∀ s ∈ rs, s.bound.isExact = true := by
          intro s hs
          obtain ⟨p, hp, hps⟩ := (below_of_reorders hbelow (.refl rs)).1 s hs
          have hbound := (leaf.inj hps.bare_eq).2
          exact hbound ▸ bound_isExact (hexact p hp)
        -- what is below is reordered first, and then the siblings are
        refine .split ((hpasses.of_bare hbare).of_perm hexact' hperm) fun q hq => ?_
        obtain ⟨p, hp, hpq⟩ := hmem q hq
        exact ih p hp hpq (hexact p hp) (hvalid p hp)

theorem isExact_of_reorders (p : Partition) :
    ∀ {q}, Reorders p q → p.isExact = true → q.isExact = true := by
  induction p using Partition.induct with
  | leaf name bound =>
    intro q h hexact
    cases h
    exact hexact
  | split name bound strategy key ps ih =>
    intro q h hexact
    cases h with
    | @split _ _ _ _ _ rs qs hbelow hperm =>
      obtain ⟨hbound, hall⟩ := Bool.and_eq_true_iff.1 hexact
      refine Bool.and_eq_true_iff.2 ⟨hbound, allExact_iff.2 fun q hq => ?_⟩
      obtain ⟨p, hp, hpq⟩ := (below_of_reorders hbelow hperm).1 q hq
      exact ih p hp hpq (allExact_iff.1 hall p hp)

theorem orderedAll_eq (ps : List Partition) : orderedAll ps = ps.map ordered := by
  induction ps with
  | nil => rfl
  | cons p ps ih => rw [orderedAll, ih, List.map_cons]

/-- **Reordered partitions are the same in bound order.** -/
theorem ordered_eq_of_reorders (p : Partition) :
    ∀ {q}, Reorders p q → p.isExact = true → p.Valid r → p.ordered = q.ordered := by
  induction p using Partition.induct with
  | leaf name bound =>
    intro q h _ _
    cases h
    rfl
  | split name bound strategy key ps ih =>
    intro q h hexact hvalid
    cases h with
    | @split _ _ _ _ _ rs qs hbelow hperm =>
      cases hvalid with
      | split hpasses hvalid =>
        have hexact := allExact_iff.1 (Bool.and_eq_true_iff.1 hexact).2
        have hsame : ps.map ordered = rs.map ordered :=
          map_eq_of_forall₂ (forall₂_imp_of_mem hbelow fun p hp q hpq =>
            ih p hp hpq (hexact p hp) (hvalid p hp))
        obtain ⟨types, htypes, hbounds, hne⟩ :=
          hpasses.bounds fun p hp => bound_isExact (hexact p hp)
        have hbounds' : ∀ p ∈ ps.map ordered, p.bound.IsOf strategy types := by
          intro p hp
          obtain ⟨p, hp', rfl⟩ := List.mem_map.1 hp
          exact p.bound_ordered ▸ hbounds p hp'
        have hne' : (ps.map ordered).Pairwise fun p q => p.bound.order q.bound ≠ .eq :=
          List.pairwise_map.2 (hne.imp fun {p q} hpq => by rwa [p.bound_ordered, q.bound_ordered])
        rw [ordered, ordered, orderedAll_eq, orderedAll_eq]
        rw [inBoundOrder_eq_of_perm htypes hbounds' hne' (hsame ▸ hperm.map ordered)]

end Partition

/-! ## The levels of a tree -/

/-- **A node over a level**: it is partitioned by the key of the level, and its
children are for the partitions of the level in bound order. -/
structure PartitionTree.IsLevel (r : Relation) (m : Layout) (s : PartitionTree) : Prop where
  key : ∃ key, Layout.resolveKey r m.strategy m.key = .ok key ∧ s.node.key = some key
  children : s.node.children = s.parts.map PartitionTree.oid
  parts : ∃ site, Layout.AllGrowInto r site m.ordered.partitions s.parts

namespace Layout

theorem Level.trans {m m' : Layout} (hm : l.Level m) (hm' : m.Level m') : l.Level m' := by
  induction hm' with
  | top => exact hm
  | sub _ hp hsub ih => exact .sub ih hp hsub

/-- Every level of a valid layout passes. -/
theorem Level.passes {m : Layout} (hm : l.Level m) (h : l.validate r = .ok ()) :
    Passes r m.strategy m.key m.partitions := by
  obtain ⟨⟨names, names', hlevel⟩, -⟩ := hm.checked h
  exact passes_of_checkLevel hlevel

/-- The levels of a layout without doubles have none. -/
theorem Level.isExact {m : Layout} (hm : l.Level m) (h : l.isExact = true) :
    ∀ p ∈ m.partitions, p.isExact = true := by
  induction hm with
  | top => exact Partition.allExact_iff.1 h
  | @sub m m' p _ hp hsub ih =>
    cases p with
    | leaf name bound => cases hsub
    | split name bound strategy key ps =>
      obtain rfl := Option.some.inj hsub
      exact Partition.allExact_iff.1 (Bool.and_eq_true_iff.1 (ih _ hp)).2

/-- Below a partition, every node that has children is over a level. -/
theorem level_of_growsInto (p : Partition) : ∀ {site : Site} {t : PartitionTree},
    GrowsInto r site p.ordered t → ∀ s ∈ t.subtrees,
      (s.node.key = none ∧ s.node.children = [] ∧ s.parts = []) ∨
        ∃ l m, p.sublayout? = some l ∧ l.Level m ∧ s.IsLevel r m := by
  induction p using Partition.induct with
  | leaf name bound =>
    intro site t hgrow s hs
    rw [Partition.ordered, GrowsInto] at hgrow
    rw [hgrow] at hs
    rcases PartitionTree.mem_subtrees_iff.1 hs with rfl | ⟨c, hc, -⟩
    · exact .inl ⟨rfl, rfl, rfl⟩
    · cases hc
  | split name bound strategy key ps ih =>
    intro site t hgrow s hs
    rw [Partition.ordered, GrowsInto] at hgrow
    obtain ⟨⟨resolved, hkey, hnode⟩, hparts⟩ := hgrow
    rcases PartitionTree.mem_subtrees_iff.1 hs with rfl | ⟨c, hc, hs⟩
    · exact .inr ⟨⟨strategy, key, ps⟩, _, rfl, .top, ⟨resolved, hkey, by rw [hnode]⟩,
        by rw [hnode], _, hparts⟩
    · obtain ⟨q, hq, hgrows⟩ := hparts.exists c hc
      obtain ⟨p, hp, rfl⟩ := Partition.mem_ordered.1 hq
      refine (ih p hp hgrows s hs).imp_right ?_
      rintro ⟨l, m, hsub, hm, hlevel⟩
      exact ⟨⟨strategy, key, ps⟩, m, rfl, (Level.sub .top hp hsub).trans hm, hlevel⟩

/-- **Every node of the tree of a layout** has no children, or is over a level of
the layout. -/
theorem IsTree.level {t : PartitionTree} (h : l.IsTree r t) : ∀ s ∈ t.subtrees,
    (s.node.key = none ∧ s.node.children = [] ∧ s.parts = []) ∨
      ∃ m, l.Level m ∧ s.IsLevel r m := by
  obtain ⟨⟨resolved, hkey, hnode⟩, hparts⟩ := h
  intro s hs
  rcases PartitionTree.mem_subtrees_iff.1 hs with rfl | ⟨c, hc, hs⟩
  · exact .inr ⟨l, .top, ⟨resolved, hkey, by rw [hnode]⟩, by rw [hnode], _, hparts⟩
  · obtain ⟨q, hq, hgrows⟩ := hparts.exists c hc
    obtain ⟨p, hp, rfl⟩ := Partition.mem_ordered.1 hq
    refine (level_of_growsInto p hgrows s hs).imp_right ?_
    rintro ⟨l', m, hsub, hm, hlevel⟩
    exact ⟨m, (Level.sub .top hp hsub).trans hm, hlevel⟩

end Layout

/-! ## Trees that rise -/

/-- **A node whose children rise**: they are listed strictly in the order of
their bounds, and none before the last one has the default bound. -/
structure PartitionTree.Rises (s : PartitionTree) : Prop where
  children : s.node.children = s.parts.map PartitionTree.oid
  bounds : ∃ bounds : List Bound, s.parts.map (fun c => c.node.bound) = bounds.map some ∧
    bounds.Pairwise (fun a b => a.order b = .lt) ∧ ∀ b ∈ bounds.dropLast, b ≠ .default

namespace Layout

/-- Trees have the bounds of the partitions they are for. -/
theorem AllGrowInto.bounds {site : Site} {ts : List PartitionTree} (h : AllGrowInto r site ps ts) :
    ts.map (fun c => c.node.bound) = (ps.map Partition.bound).map some := by
  induction ps generalizing ts with
  | nil =>
    cases ts with
    | nil => rfl
    | cons t ts => exact h.elim
  | cons p ps ih =>
    cases ts with
    | nil => exact h.elim
    | cons t ts => rw [List.map_cons, List.map_cons, List.map_cons, h.1.node.2.2, ih h.2]

/-- **Below a level that passes, the children rise.** -/
theorem Passes.rises (h : Passes r strategy columns ps) (hexact : ∀ p ∈ ps, p.bound.isExact = true)
    {site : Site} {s : PartitionTree} (hchildren : s.node.children = s.parts.map PartitionTree.oid)
    (hgrow : AllGrowInto r site (Partition.inBoundOrder (Partition.orderedAll ps)) s.parts) :
    s.Rises := by
  obtain ⟨types, htypes, hbounds, hne⟩ := h.bounds hexact
  rw [Partition.orderedAll_eq] at hgrow
  have hbounds' : ∀ p ∈ ps.map Partition.ordered, p.bound.IsOf strategy types := by
    intro p hp
    obtain ⟨p, hp', rfl⟩ := List.mem_map.1 hp
    exact p.bound_ordered ▸ hbounds p hp'
  have hne' : (ps.map Partition.ordered).Pairwise fun p q => p.bound.order q.bound ≠ .eq :=
    List.pairwise_map.2 (hne.imp fun {p q} hpq => by rwa [p.bound_ordered, q.bound_ordered])
  have hrises : ((Partition.inBoundOrder (ps.map Partition.ordered)).map Partition.bound).Pairwise
      fun a b => a.order b = .lt :=
    List.pairwise_map.2 (Partition.inBoundOrder_rises_strictly htypes hbounds' hne')
  refine ⟨hchildren, _, hgrow.bounds, hrises, fun b hb hdefault => ?_⟩
  generalize (Partition.inBoundOrder (ps.map Partition.ordered)).map Partition.bound = bounds
    at hrises hb
  -- whatever comes before the last bound is below it
  rcases List.eq_nil_or_concat bounds with rfl | ⟨front, last, rfl⟩
  · cases hb
  rw [List.concat_eq_append, List.dropLast_concat] at hb
  rw [List.concat_eq_append] at hrises
  have hlt := (List.pairwise_append.1 hrises).2.2 b hb last (List.mem_singleton_self last)
  rw [hdefault] at hlt
  cases last <;> cases hlt

/-- **In the tree of a valid layout without doubles all children rise.** -/
theorem IsTree.rises {t : PartitionTree} (h : l.IsTree r t) (hexact : l.isExact = true)
    (hvalid : l.validate r = .ok ()) : ∀ s ∈ t.subtrees, s.Rises := by
  intro s hs
  rcases h.level s hs with ⟨-, hchildren, hparts⟩ | ⟨m, hm, hlevel⟩
  · exact ⟨by rw [hchildren, hparts]; rfl, [], by rw [hparts]; rfl, .nil, by simp⟩
  · obtain ⟨site, hgrow⟩ := hlevel.parts
    exact (hm.passes hvalid).rises (fun p hp => Partition.bound_isExact (hm.isExact hexact p hp))
      hlevel.children hgrow

/-! ## Planting succeeds -/

section Draws

variable {σ : Type} {draw : σ → Except RegistryError Oid × σ}
variable (hdraw : ∀ s, ∃ oid s', draw s = (.ok oid, s'))

include hdraw

theorem exists_drawMany (n : Nat) (st : List Oid × σ) :
    ∃ oids st', drawMany draw n st = (.ok oids, st') ∧ oids.length = n := by
  induction n generalizing st with
  | zero => exact ⟨[], st, rfl, rfl⟩
  | succ n ih =>
    obtain ⟨oid, s', hs⟩ := hdraw st.2
    obtain ⟨oids, st', hst, hlen⟩ := ih (st.1 ++ [oid], s')
    refine ⟨oid :: oids, st', ?_, congrArg (· + 1) hlen⟩
    rw [drawMany, drawOne, hs]
    dsimp only
    rw [hst]

omit hdraw in
theorem exists_growAll (site : Site) (oids : List Oid)
    (hps : ∀ p ∈ ps, ∀ site oid st, ∃ grown st', grow draw r site oid p st = (.ok grown, st'))
    (st : List Oid × σ) : ∃ grown st', growAll draw r site oids ps st = (.ok grown, st') := by
  induction ps generalizing oids st with
  | nil =>
    cases oids with
    | _ => exact ⟨[], st, rfl⟩
  | cons p ps ih =>
    cases oids with
    | nil => exact ⟨[], st, rfl⟩
    | cons oid oids =>
      rw [List.forall_mem_cons] at hps
      obtain ⟨first, st₁, hfirst⟩ := hps.1 site oid st
      obtain ⟨rest, st', hrest⟩ := ih oids hps.2 st₁
      refine ⟨first :: rest, st', ?_⟩
      rw [growAll, hfirst]
      dsimp only
      rw [hrest]

theorem exists_grow (p : Partition) : p.Sound r → ∀ site oid (st : List Oid × σ),
    ∃ grown st', grow draw r site oid p st = (.ok grown, st') := by
  induction p using Partition.induct with
  | leaf name bound => exact fun _ site oid st => ⟨_, st, rfl⟩
  | split name bound strategy key ps ih =>
    intro hsound site oid st
    cases hsound with
    | @split _ _ _ _ _ resolved hkey _ hbelow =>
      obtain ⟨oids, st₁, hmany, -⟩ := exists_drawMany hdraw ps.length st
      obtain ⟨grown, st', hgrown⟩ := exists_growAll
        ⟨oid, (bareNode r site oid (.leaf name bound)).share, site.level + 1, ps.length⟩ oids
        (fun p hp => ih p hp (hbelow p hp)) st₁
      refine ⟨({ bareNode r site oid (.leaf name bound) with
        key := some resolved, children := oids }, levelOrder grown), st', ?_⟩
      rw [grow, hkey]
      dsimp only
      rw [hmany]
      dsimp only
      rw [hgrown]

/-- **A valid layout is planted**, where identifiers can be drawn. -/
theorem exists_plant (hvalid : l.validate r = .ok ()) (st : List Oid × σ) :
    ∃ nodes st', l.plant draw r st = (.ok nodes, st') := by
  obtain ⟨⟨key, hkey, -⟩, hbelow⟩ := (sound_of_validate hvalid).ordered
  obtain ⟨oid, s', hs⟩ := hdraw st.2
  obtain ⟨oids, st₁, hmany, -⟩ :=
    exists_drawMany hdraw l.ordered.partitions.length (st.1 ++ [oid], s')
  obtain ⟨grown, st', hgrown⟩ := exists_growAll
    ⟨oid, 1.0, 1, l.ordered.partitions.length⟩ oids
    (fun p hp => exists_grow hdraw p (hbelow p hp)) st₁
  have hkey : resolveKey r l.strategy l.key = .ok key := hkey
  rw [plant, drawOne, hs]
  dsimp only
  rw [hkey]
  dsimp only
  rw [hmany]
  dsimp only
  rw [hgrown]
  exact ⟨_, _, rfl⟩

end Draws

/-! ## Reordered layouts -/

/-- Reordered layouts are valid alike. -/
theorem validate_of_reorders (h : l.Reorders l') (hexact : l.isExact = true)
    (hvalid : l.validate r = .ok ()) : l'.validate r = .ok () := by
  obtain ⟨hvalid, hnodup⟩ := validate_iff.1 hvalid
  refine validate_iff.2 ⟨.of_reorders l.whole h hexact hvalid, ?_⟩
  exact ((Partition.namesBelow_of_reorders l.whole h).append_right _).nodup_iff.1 hnodup

/-- Reordered layouts are the same in bound order. -/
theorem ordered_eq_of_reorders (h : l.Reorders l') (hexact : l.isExact = true)
    (hvalid : l.validate r = .ok ()) :
    l.strategy = l'.strategy ∧ l.key = l'.key ∧ l.ordered.partitions = l'.ordered.partitions := by
  have heq := Partition.ordered_eq_of_reorders l.whole h hexact (validate_iff.1 hvalid).1
  obtain ⟨-, -, hstrategy, hkey, hpartitions⟩ := Partition.split.inj heq
  exact ⟨hstrategy, hkey, hpartitions⟩

/-- **The order in which partitions are listed does not matter.** Layouts without
doubles that differ in nothing else are valid alike, and if they are, planting
them yields the same nodes from the same identifiers. It fails only where no
identifier is drawn, and in the tree that it yields all children rise. -/
theorem plant_eq_of_reorders (h : l.Reorders l') (hexact : l.isExact = true) :
    (l.validate r = .ok () ↔ l'.validate r = .ok ()) ∧
      (l.validate r = .ok () → ∀ {σ : Type} (draw : σ → Except RegistryError Oid × σ) (s : σ),
        l.plant draw r ([], s) = l'.plant draw r ([], s) ∧
        ((∀ s, ∃ oid s', draw s = (.ok oid, s')) →
          ∃ nodes st, l.plant draw r ([], s) = (.ok nodes, st)) ∧
        ∀ nodes st, l.plant draw r ([], s) = (.ok nodes, st) →
          ∃ t, l.IsTree r t ∧ nodes.Perm t.nodes ∧ ∀ u ∈ t.subtrees, u.Rises) := by
  have hback : l'.Reorders l := Partition.Reorders.symm l.whole h
  have hexact' : l'.isExact = true := Partition.isExact_of_reorders l.whole h hexact
  refine ⟨⟨validate_of_reorders h hexact, validate_of_reorders hback hexact'⟩, ?_⟩
  intro hvalid σ draw s
  refine ⟨?_, fun hdraw => exists_plant hdraw hvalid _, fun nodes ⟨drawn', s'⟩ hplant => ?_⟩
  · obtain ⟨hstrategy, hkey, hpartitions⟩ := ordered_eq_of_reorders h hexact hvalid
    rw [plant, plant, hstrategy, hkey, hpartitions]
  · obtain ⟨t, htree, -, hperm, -⟩ := plant_ok hplant
    exact ⟨t, htree, hperm, htree.rises hexact hvalid⟩

/-- The layout of readings with the partitions listed in another order, those
by loudness too. -/
def byYearRelisted : Layout :=
  (blank .range ["year", "site"]).add
      (.leaf "middle" (.range [.value (.int 2000), .minValue]
        [.value (.int 2000), .value (.text "m")])) |>.add
    (.make "late" (.range [.value (.int 2000), .value (.text "m")] [.maxValue, .maxValue])
      (some ((blank .list ["loud"]).add (.ofValues "other" [.bool false, .null]) |>.add
        (.ofValues "loud" [.bool true])))) |>.add
    (.leaf "early" (.range [.minValue, .minValue] [.value (.int 2000), .minValue]))

theorem plant_eq_byYear :
    byYear.Reorders byYearRelisted ∧ byYear.isExact = true ∧ byYear.validate readings = .ok () ∧
      byYearRelisted.validate readings = .ok () ∧
      ∃ nodes st, byYear.plant (fun n : Nat => (.ok ⟨n.toUInt32⟩, n + 1)) readings ([], 20000) =
          (.ok nodes, st) ∧
        byYearRelisted.plant (fun n : Nat => (.ok ⟨n.toUInt32⟩, n + 1)) readings ([], 20000) =
          (.ok nodes, st) ∧
        ∃ t, byYear.IsTree readings t ∧ nodes.Perm t.nodes ∧ ∀ u ∈ t.subtrees, u.Rises := by
  have hloud : List.Forall₂ Partition.Reorders byLoudness.partitions byLoudness.partitions :=
    .cons .leaf (.cons .leaf .nil)
  have hreorders : byYear.Reorders byYearRelisted :=
    .split (.cons (.split hloud (.swap _ _ [])) (.cons .leaf (.cons .leaf .nil)))
      (@List.perm_append_comm _ [_, _] [_])
  have hexact : byYear.isExact = true := rfl
  have hvalid : byYear.validate readings = .ok () := by rfl
  obtain ⟨hiff, hplant⟩ := plant_eq_of_reorders (r := readings) hreorders hexact
  obtain ⟨hsame, hexists, htree⟩ :=
    hplant hvalid (fun n : Nat => (.ok ⟨n.toUInt32⟩, n + 1)) 20000
  obtain ⟨nodes, st, hnodes⟩ := hexists fun n => ⟨_, _, rfl⟩
  exact ⟨hreorders, hexact, hvalid, hiff.1 hvalid, nodes, st, hnodes, hsame ▸ hnodes,
    htree nodes st hnodes⟩

end Layout

end WhatIf
