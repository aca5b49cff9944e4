import WhatIf.Proofs.Partition.Tree
import Mathlib.Data.List.Perm.Basic
import Mathlib.Data.List.Forall2
/-!
# Partition — what planting a layout yields

A layout that is planted without an error becomes one tree: `GrowsInto` says
which, up to the identifiers, by recursion over the layout. The nodes answered
are those of the tree, the root first, and their identifiers are the ones
drawn, in order. Whether planting succeeds or fails, what every single draw
keeps of the source of identifiers, planting keeps.
-/

namespace WhatIf

namespace Partition

/-- What holds of every undivided partition, and of a divided one whenever it
holds of its parts, holds of every partition. -/
theorem induct {P : Partition → Prop} (leaf : ∀ n b, P (.leaf n b))
    (split : ∀ n b s k ps, (∀ p ∈ ps, P p) → P (.split n b s k ps)) : ∀ p, P p :=
  @Partition.rec P (fun ps => ∀ p ∈ ps, P p) leaf split (by simp)
    fun p ps hp hps q hq => by
      rcases List.mem_cons.1 hq with rfl | hq
      · exact hp
      · exact hps q hq

end Partition

namespace Layout

variable {σ : Type} {draw : σ → Except RegistryError Oid × σ} {r : Relation}
variable {s s' : σ} {drawn drawn' : List Oid}

/-! ## The tree of a layout -/

mutual

/-- **A tree for a partition at a site**: a node with the partition's name and
bound, its share and level, and if the partition is divided the key that its
columns resolve to and a tree for each part, in order. -/
def GrowsInto (r : Relation) (site : Site) : Partition → PartitionTree → Prop
  | .leaf name bound, t => t = .mk (bareNode r site t.oid (.leaf name bound)) []
  | .split name bound strategy key ps, t =>
    (∃ resolved, resolveKey r strategy key = .ok resolved ∧
      t.node = { bareNode r site t.oid (.leaf name bound) with
        key := some resolved, children := t.parts.map PartitionTree.oid }) ∧
    AllGrowInto r ⟨t.oid, t.node.share, site.level + 1, ps.length⟩ ps t.parts

/-- A tree for each of several partitions at one site. -/
def AllGrowInto (r : Relation) (site : Site) : List Partition → List PartitionTree → Prop
  | [], [] => True
  | p :: ps, t :: ts => GrowsInto r site p t ∧ AllGrowInto r site ps ts
  | _, _ => False

end

/-- **A tree for a layout over a relation**: a root that stands for the
relation, and below it a tree for each partition in bound order. -/
def IsTree (r : Relation) (l : Layout) (t : PartitionTree) : Prop :=
  (∃ resolved, resolveKey r l.strategy l.key = .ok resolved ∧
    t.node = {
      oid := t.oid, relid := r.oid, name := r.name, parent := none, bound := none
      key := some resolved, children := t.parts.map PartitionTree.oid, share := 1.0, level := 0 }) ∧
  AllGrowInto r ⟨t.oid, 1.0, 1, l.ordered.partitions.length⟩ l.ordered.partitions t.parts

/-- Trees for several partitions are each a tree for one of them. -/
theorem AllGrowInto.exists {site : Site} {ps : List Partition} {ts : List PartitionTree}
    (h : AllGrowInto r site ps ts) : ∀ t ∈ ts, ∃ p ∈ ps, GrowsInto r site p t := by
  induction ps generalizing ts with
  | nil =>
    cases ts with
    | nil => simp
    | cons t ts => exact h.elim
  | cons p ps ih =>
    cases ts with
    | nil => exact h.elim
    | cons t ts =>
      intro u hu
      rcases List.mem_cons.1 hu with rfl | hu
      · exact ⟨p, List.mem_cons_self, h.1⟩
      · obtain ⟨q, hq, hgrow⟩ := ih h.2 u hu
        exact ⟨q, List.mem_cons_of_mem _ hq, hgrow⟩

/-- The node on top of a tree for a partition. -/
theorem GrowsInto.node {site : Site} {p : Partition} {t : PartitionTree}
    (h : GrowsInto r site p t) :
    t.node.relid = r.oid ∧ t.node.parent = some site.parent ∧ t.node.bound = some p.bound := by
  cases p with
  | leaf name bound =>
    rw [GrowsInto] at h
    rw [h]
    exact ⟨rfl, rfl, rfl⟩
  | split name bound strategy key ps =>
    rw [GrowsInto] at h
    obtain ⟨⟨resolved, -, hnode⟩, -⟩ := h
    rw [hnode]
    exact ⟨rfl, rfl, rfl⟩

/-- A tree for a partition is linked. -/
theorem GrowsInto.linkedAt {p : Partition} :
    ∀ {site : Site} {t : PartitionTree}, GrowsInto r site p t → ∀ s ∈ t.subtrees, s.LinkedAt r := by
  induction p using Partition.induct with
  | leaf name bound =>
    intro site t h s hs
    rw [GrowsInto] at h
    rcases PartitionTree.mem_subtrees_iff.1 hs with rfl | ⟨c, hc, -⟩
    · rw [h]
      exact ⟨rfl, rfl, by simp, by simp, fun _ => rfl, by simp [bareNode]⟩
    · rw [h] at hc
      simp at hc
  | split name bound strategy key ps ih =>
    intro site t h s hs
    rw [GrowsInto] at h
    obtain ⟨⟨resolved, hkey, hnode⟩, hparts⟩ := h
    rcases PartitionTree.mem_subtrees_iff.1 hs with rfl | ⟨c, hc, hs⟩
    · have hpart : ∀ c ∈ s.parts, c.node.parent = some s.oid ∧ c.node.bound.isSome := by
        intro c hc
        obtain ⟨q, -, hq⟩ := hparts.exists c hc
        exact ⟨hq.node.2.1, by rw [hq.node.2.2]; rfl⟩
      have hresolved : ∀ k, s.node.key = some k → k = resolved := by
        intro k hk
        rw [hnode] at hk
        exact (Option.some.inj hk).symm
      exact ⟨by rw [hnode]; rfl, by rw [hnode], fun c hc => (hpart c hc).1,
        fun c hc => (hpart c hc).2, by simp [hnode],
        fun k hk => ⟨strategy, key, hresolved k hk ▸ hkey⟩⟩
    · obtain ⟨q, hq, hgrow⟩ := hparts.exists c hc
      exact ih q hq hgrow s hs

/-- **A tree for a layout is linked.** -/
theorem IsTree.linked {l : Layout} {t : PartitionTree} (h : IsTree r l t) : t.Linked r := by
  obtain ⟨⟨resolved, hkey, hnode⟩, hparts⟩ := h
  refine ⟨fun s hs => ?_, by rw [hnode], by rw [hnode]; rfl⟩
  rcases PartitionTree.mem_subtrees_iff.1 hs with rfl | ⟨c, hc, hs⟩
  · refine ⟨by rw [hnode], by rw [hnode], fun c hc => ?_, fun c hc => ?_, by simp [hnode],
      fun k hk => ⟨l.strategy, l.key, ?_⟩⟩
    · obtain ⟨q, -, hq⟩ := hparts.exists c hc
      exact hq.node.2.1
    · obtain ⟨q, -, hq⟩ := hparts.exists c hc
      rw [hq.node.2.2]
      rfl
    · rw [hnode] at hk
      rw [hkey]
      exact congrArg _ (Option.some.inj hk)
  · obtain ⟨q, -, hgrow⟩ := hparts.exists c hc
    exact hgrow.linkedAt s hs

/-! ## Drawing identifiers -/

/-- A successful draw notes its identifier. -/
theorem drawOne_ok {oid : Oid} (h : drawOne draw (drawn, s) = (.ok oid, drawn', s')) :
    draw s = (.ok oid, s') ∧ drawn' = drawn ++ [oid] := by
  unfold drawOne at h
  dsimp only at h
  rcases hd : draw s with ⟨_ | oid', s₁⟩
  · rw [hd] at h
    cases h
  · rw [hd] at h
    cases h
    exact ⟨rfl, rfl⟩

/-- So do several. -/
theorem drawMany_ok {n : Nat} {oids : List Oid}
    (h : drawMany draw n (drawn, s) = (.ok oids, drawn', s')) :
    oids.length = n ∧ drawn' = drawn ++ oids := by
  induction n generalizing drawn s oids with
  | zero =>
    cases h
    exact ⟨rfl, (List.append_nil _).symm⟩
  | succ n ih =>
    rw [drawMany] at h
    rcases hone : drawOne draw (drawn, s) with ⟨_ | oid, drawn₁, s₁⟩
    · rw [hone] at h
      cases h
    · rw [hone] at h
      dsimp only at h
      rcases hmany : drawMany draw n (drawn₁, s₁) with ⟨_ | rest, drawn₂, s₂⟩
      · rw [hmany] at h
        cases h
      · rw [hmany] at h
        cases h
        obtain ⟨hlen, hdrawn⟩ := ih hmany
        refine ⟨by rw [List.length_cons, hlen], ?_⟩
        rw [hdrawn, (drawOne_ok hone).2, List.append_assoc]
        rfl

/-! ## Growing -/

/-- What growing a divided partition went through. -/
theorem grow_split_ok {site : Site} {oid : Oid} {name : String} {bound : Bound}
    {strategy : Strategy} {key : List String} {ps : List Partition} {st st' : List Oid × σ}
    {n : Node} {ns : List Node}
    (h : grow draw r site oid (.split name bound strategy key ps) st = (.ok (n, ns), st')) :
    ∃ resolved oids st₁ grown, resolveKey r strategy key = .ok resolved ∧
      drawMany draw ps.length st = (.ok oids, st₁) ∧
      growAll draw r ⟨oid, (bareNode r site oid (.leaf name bound)).share, site.level + 1,
        ps.length⟩ oids ps st₁ = (.ok grown, st') ∧
      n = { bareNode r site oid (.leaf name bound) with key := some resolved, children := oids } ∧
      ns = levelOrder grown := by
  rw [grow] at h
  rcases hkey : resolveKey r strategy key with _ | resolved
  · rw [hkey] at h
    cases h
  · rw [hkey] at h
    dsimp only at h
    rcases hmany : drawMany draw ps.length st with ⟨_ | oids, st₁⟩
    · rw [hmany] at h
      cases h
    · rw [hmany] at h
      dsimp only at h
      rcases hall : growAll draw r ⟨oid, (bareNode r site oid (.leaf name bound)).share,
        site.level + 1, ps.length⟩ oids ps st₁ with ⟨_ | grown, st₂⟩
      · rw [hall] at h
        cases h
      · rw [hall] at h
        cases h
        exact ⟨resolved, oids, st₁, grown, rfl, rfl, hall, rfl, rfl⟩

/-- What growing a level went through. -/
theorem growAll_cons_ok {site : Site} {oid : Oid} {oids : List Oid} {p : Partition}
    {ps : List Partition} {st st' : List Oid × σ} {grown : List (Node × List Node)}
    (h : growAll draw r site (oid :: oids) (p :: ps) st = (.ok grown, st')) :
    ∃ first rest st₁, grow draw r site oid p st = (.ok first, st₁) ∧
      growAll draw r site oids ps st₁ = (.ok rest, st') ∧ grown = first :: rest := by
  rw [growAll] at h
  rcases hfirst : grow draw r site oid p st with ⟨_ | first, st₁⟩
  · rw [hfirst] at h
    cases h
  · rw [hfirst] at h
    dsimp only at h
    rcases hrest : growAll draw r site oids ps st₁ with ⟨_ | rest, st₂⟩
    · rw [hrest] at h
      cases h
    · rw [hrest] at h
      cases h
      exact ⟨first, rest, st₁, rfl, hrest, rfl⟩

/-- A node per partition, followed by those below each, are the nodes of the
trees. -/
theorem levelOrder_perm {grown : List (Node × List Node)} {ts : List PartitionTree}
    (hnode : ts.map PartitionTree.node = grown.map Prod.fst)
    (hbelow : (grown.flatMap Prod.snd).Perm
      (ts.flatMap fun t => t.parts.flatMap PartitionTree.nodes)) :
    (levelOrder grown).Perm (ts.flatMap PartitionTree.nodes) := by
  have heq : ts.flatMap PartitionTree.nodes =
      ts.flatMap fun t => t.node :: t.parts.flatMap PartitionTree.nodes :=
    List.flatMap_congr fun t _ => t.nodes_eq
  rw [levelOrder, ← hnode, heq]
  refine (List.Perm.append_left _ hbelow).trans ?_
  exact List.map_append_flatMap_perm ts PartitionTree.node _

/-- **Growing a partition**, to be shown: the answer is a tree for the
partition, and what it draws are the identifiers below its top. -/
def Grows (draw : σ → Except RegistryError Oid × σ) (r : Relation) (p : Partition) : Prop :=
  ∀ {site : Site} {oid : Oid} {drawn drawn' : List Oid} {s s' : σ} {n : Node} {ns : List Node},
    grow draw r site oid p (drawn, s) = (.ok (n, ns), drawn', s') →
    ∃ t : PartitionTree, GrowsInto r site p t ∧ t.oid = oid ∧ t.node = n ∧
      ns.Perm (t.parts.flatMap PartitionTree.nodes) ∧ drawn' = drawn ++ ns.map fun n => n.oid

/-- A level grows into trees when each of its partitions does. -/
theorem growAll_ok {ps : List Partition} {site : Site} {oids : List Oid}
    {grown : List (Node × List Node)} (hp : ∀ p ∈ ps, Grows draw r p)
    (hlen : oids.length = ps.length)
    (h : growAll draw r site oids ps (drawn, s) = (.ok grown, drawn', s')) :
    ∃ ts : List PartitionTree, AllGrowInto r site ps ts ∧ ts.map PartitionTree.oid = oids ∧
      ts.map PartitionTree.node = grown.map Prod.fst ∧
      (grown.flatMap Prod.snd).Perm (ts.flatMap fun t => t.parts.flatMap PartitionTree.nodes) ∧
      drawn' = drawn ++ (grown.flatMap Prod.snd).map fun n => n.oid := by
  induction ps generalizing oids drawn s grown with
  | nil =>
    cases List.eq_nil_of_length_eq_zero hlen
    cases h
    exact ⟨[], trivial, rfl, rfl, .nil, (List.append_nil _).symm⟩
  | cons p ps ih =>
    obtain ⟨oid, oids, rfl⟩ := List.exists_cons_of_length_eq_add_one hlen
    obtain ⟨⟨n, ns⟩, rest, ⟨drawn₁, s₁⟩, hfirst, hrest, rfl⟩ := growAll_cons_ok h
    obtain ⟨t, ht, htoid, htnode, htperm, rfl⟩ := hp p List.mem_cons_self hfirst
    obtain ⟨ts, hts, htsoid, htsnode, htsperm, rfl⟩ :=
      ih (fun q hq => hp q (List.mem_cons_of_mem _ hq)) (Nat.succ.inj hlen) hrest
    refine ⟨t :: ts, ⟨ht, hts⟩, ?_, ?_, ?_, ?_⟩
    · rw [List.map_cons, htoid, htsoid]
    · rw [List.map_cons, htnode, htsnode]
      rfl
    · rw [List.flatMap_cons, List.flatMap_cons]
      exact htperm.append htsperm
    · rw [List.flatMap_cons, List.map_append, List.append_assoc]

/-- The identifiers on top of trees, from their nodes. -/
theorem map_oid_eq {grown : List (Node × List Node)} {ts : List PartitionTree}
    (hnode : ts.map PartitionTree.node = grown.map Prod.fst) :
    (levelOrder grown).map (fun n => n.oid) =
      ts.map PartitionTree.oid ++ (grown.flatMap Prod.snd).map fun n => n.oid := by
  rw [levelOrder, List.map_append, ← hnode, List.map_map]
  rfl

variable (draw r) in
/-- **What growing a partition yields.** -/
theorem grows (p : Partition) : Grows draw r p := by
  induction p using Partition.induct with
  | leaf name bound =>
    intro site oid drawn drawn' s s' n ns h
    rw [grow] at h
    cases h
    exact ⟨.mk (bareNode r site oid (.leaf name bound)) [], rfl, rfl, rfl, .nil,
      (List.append_nil _).symm⟩
  | split name bound strategy key ps ih =>
    intro site oid drawn drawn' s s' n ns h
    obtain ⟨resolved, oids, ⟨drawn₁, s₁⟩, grown, hkey, hmany, hall, rfl, rfl⟩ := grow_split_ok h
    -- the identifiers of a level are drawn before those below it
    obtain ⟨hlen, rfl⟩ := drawMany_ok hmany
    obtain ⟨ts, hts, htsoid, htsnode, htsperm, rfl⟩ := growAll_ok ih hlen hall
    refine ⟨.mk { bareNode r site oid (.leaf name bound) with
      key := some resolved, children := oids } ts, ⟨⟨resolved, hkey, ?_⟩, hts⟩, rfl, rfl, ?_, ?_⟩
    · rw [PartitionTree.parts_mk, htsoid]
      rfl
    · exact levelOrder_perm htsnode htsperm
    · rw [map_oid_eq htsnode, htsoid, List.append_assoc]

/-- **What planting a layout yields**: the nodes of a tree for the layout, the
root first, under the identifiers drawn. -/
theorem plant_ok {l : Layout} {nodes : List Node}
    (h : l.plant draw r ([], s) = (.ok nodes, drawn', s')) :
    ∃ t : PartitionTree, IsTree r l t ∧ (∃ below, nodes = t.node :: below) ∧
      nodes.Perm t.nodes ∧ drawn' = nodes.map fun n => n.oid := by
  unfold plant at h
  rcases hone : drawOne draw ([], s) with ⟨_ | oid, drawn₁, s₁⟩
  · rw [hone] at h
    cases h
  rw [hone] at h
  dsimp only at h
  rcases hkey : resolveKey r l.strategy l.key with _ | resolved
  · rw [hkey] at h
    cases h
  rw [hkey] at h
  dsimp only at h
  rcases hmany : drawMany draw l.ordered.partitions.length (drawn₁, s₁) with ⟨_ | oids, drawn₂, s₂⟩
  · rw [hmany] at h
    cases h
  rw [hmany] at h
  dsimp only at h
  rcases hall : growAll draw r ⟨oid, 1.0, 1, l.ordered.partitions.length⟩ oids
    l.ordered.partitions (drawn₂, s₂) with ⟨_ | grown, drawn₃, s₃⟩
  · rw [hall] at h
    cases h
  rw [hall] at h
  cases h
  obtain ⟨hlen, rfl⟩ := drawMany_ok hmany
  obtain ⟨ts, hts, htsoid, htsnode, htsperm, rfl⟩ :=
    growAll_ok (fun p _ => grows draw r p) hlen hall
  obtain ⟨-, rfl⟩ := drawOne_ok hone
  refine ⟨.mk _ ts, ⟨⟨resolved, hkey, ?_⟩, ?_⟩, ⟨_, rfl⟩, ?_, ?_⟩
  · rw [PartitionTree.parts_mk, htsoid]
    rfl
  · exact hts
  · rw [PartitionTree.nodes_eq]
    exact (levelOrder_perm htsnode htsperm).cons _
  · rw [List.map_cons, map_oid_eq htsnode, htsoid]
    simp

end Layout

/-! ## How much planting draws -/

namespace Partition

mutual

/-- How many partitions there are below a partition. -/
def numBelow : Partition → Nat
  | leaf _ _ => 0
  | split _ _ _ _ ps => ps.length + numBelowAll ps

/-- How many there are below the partitions of a list. -/
def numBelowAll : List Partition → Nat
  | [] => 0
  | p :: ps => numBelow p + numBelowAll ps

end

theorem numBelowAll_perm {ps qs : List Partition} (h : ps.Perm qs) :
    numBelowAll ps = numBelowAll qs := by
  induction h with
  | nil => rfl
  | cons p _ ih => rw [numBelowAll, numBelowAll, ih]
  | swap p q ps =>
    simp only [numBelowAll]
    omega
  | trans _ _ ih₁ ih₂ => exact ih₁.trans ih₂

theorem numBelowAll_map {ps : List Partition} {f : Partition → Partition}
    (h : ∀ p ∈ ps, (f p).numBelow = p.numBelow) : numBelowAll (ps.map f) = numBelowAll ps := by
  induction ps with
  | nil => rfl
  | cons p ps ih =>
    rw [List.map_cons, numBelowAll, numBelowAll, h p List.mem_cons_self,
      ih fun q hq => h q (List.mem_cons_of_mem _ hq)]

end Partition

namespace Layout

/-- How many nodes the tree of a layout has. -/
def size (l : Layout) : Nat := l.partitions.length + Partition.numBelowAll l.partitions + 1

/-- **At most `n` draws.** `J m` says of what is drawn and of the source of
identifiers that they are good for `m` more draws; after a step of planting,
whether it succeeds or fails, they are good for `n` fewer. -/
def Spends {α : Type} (J : Nat → List Oid × σ → Prop) (n : Nat) (f : Planting σ α) : Prop :=
  ∀ {m st st' x}, J (m + n) st → f st = (x, st') → J m st'

section Spends

variable {J : Nat → List Oid × σ → Prop} (hless : ∀ m st, J (m + 1) st → J m st)
variable (hone : Spends J 1 (drawOne draw))

include hless

/-- What is good for more draws is good for fewer. -/
theorem good_of_le {m k : Nat} (hmk : m ≤ k) {st : List Oid × σ} (h : J k st) : J m st := by
  induction hmk with
  | refl => exact h
  | step _ ih => exact ih (hless _ _ h)

include hone

theorem spends_drawMany (n : Nat) : Spends J n (drawMany draw n) := by
  induction n with
  | zero =>
    intro m st st' x hst h
    cases h
    exact hst
  | succ n ih =>
    intro m st st' x hst h
    rw [← Nat.add_assoc] at hst
    rw [drawMany] at h
    rcases hd : drawOne draw st with ⟨_ | oid, st₁⟩
    · rw [hd] at h
      cases h
      exact good_of_le hless (Nat.le_add_right m n) (hone hst hd)
    rw [hd] at h
    dsimp only at h
    rcases hm : drawMany draw n st₁ with ⟨_ | rest, st₂⟩
    all_goals
      rw [hm] at h
      cases h
      exact ih (hone hst hd) hm

omit hone in
theorem spends_growAll {ps : List Partition}
    (hp : ∀ p ∈ ps, ∀ site oid, Spends J p.numBelow (grow draw r site oid p)) (site : Site)
    (oids : List Oid) : Spends J (Partition.numBelowAll ps) (growAll draw r site oids ps) := by
  induction ps generalizing oids with
  | nil =>
    intro m st st' x hst h
    cases oids <;> cases h <;> exact hst
  | cons p ps ih =>
    intro m st st' x hst h
    cases oids with
    | nil =>
      cases h
      exact good_of_le hless (Nat.le_add_right m _) hst
    | cons oid oids =>
      rw [Partition.numBelowAll, Nat.add_comm p.numBelow, ← Nat.add_assoc] at hst
      rw [growAll] at h
      rcases hd : grow draw r site oid p st with ⟨_ | first, st₁⟩
      · rw [hd] at h
        cases h
        exact good_of_le hless (Nat.le_add_right m _) (hp p List.mem_cons_self site oid hst hd)
      rw [hd] at h
      dsimp only at h
      have h₁ := hp p List.mem_cons_self site oid hst hd
      rcases hm : growAll draw r site oids ps st₁ with ⟨_ | rest, st₂⟩
      all_goals
        rw [hm] at h
        cases h
        exact ih (fun q hq => hp q (List.mem_cons_of_mem _ hq)) oids h₁ hm

theorem spends_grow (p : Partition) :
    ∀ site oid, Spends J p.numBelow (grow draw r site oid p) := by
  induction p using Partition.induct with
  | leaf name bound =>
    intro site oid m st st' x hst h
    rw [grow] at h
    cases h
    exact hst
  | split name bound strategy key ps ih =>
    intro site oid m st st' x hst h
    rw [grow] at h
    rcases hkey : resolveKey r strategy key with _ | resolved
    · rw [hkey] at h
      cases h
      exact good_of_le hless (Nat.le_add_right m _) hst
    rw [hkey] at h
    dsimp only at h
    -- the partitions of the level first, then those below each
    rw [Partition.numBelow, Nat.add_comm ps.length, ← Nat.add_assoc] at hst
    rcases hd : drawMany draw ps.length st with ⟨_ | oids, st₁⟩
    · rw [hd] at h
      cases h
      exact good_of_le hless (Nat.le_add_right m _) (spends_drawMany hless hone ps.length hst hd)
    rw [hd] at h
    dsimp only at h
    have h₁ := spends_drawMany hless hone ps.length hst hd
    rcases hm : growAll draw r ⟨oid, (bareNode r site oid (.leaf name bound)).share,
      site.level + 1, ps.length⟩ oids ps st₁ with ⟨_ | grown, st₂⟩
    all_goals
      rw [hm] at h
      cases h
      exact spends_growAll hless ih _ oids h₁ hm

/-- **Planting draws at most one identifier for each node.** -/
theorem spends_plant (l : Layout) : Spends J l.ordered.size (l.plant draw r) := by
  intro m st st' x hst h
  have hfewer : ∀ {i k : Nat} {st : List Oid × σ}, J (i + k) st → J i st :=
    fun {i k} _ hst => good_of_le hless (Nat.le_add_right i k) hst
  unfold plant at h
  rw [size, ← Nat.add_assoc, Nat.add_comm l.ordered.partitions.length, ← Nat.add_assoc] at hst
  rcases hd : drawOne draw st with ⟨_ | oid, st₁⟩
  · rw [hd] at h
    cases h
    exact hfewer (hfewer (hone hst hd))
  rw [hd] at h
  dsimp only at h
  have h₁ := hone hst hd
  rcases hkey : resolveKey r l.strategy l.key with _ | resolved
  · rw [hkey] at h
    cases h
    exact hfewer (hfewer h₁)
  rw [hkey] at h
  dsimp only at h
  rcases hm : drawMany draw l.ordered.partitions.length st₁ with ⟨_ | oids, st₂⟩
  · rw [hm] at h
    cases h
    exact hfewer (spends_drawMany hless hone _ h₁ hm)
  rw [hm] at h
  dsimp only at h
  have h₂ := spends_drawMany hless hone _ h₁ hm
  rcases hg : growAll draw r ⟨oid, 1.0, 1, l.ordered.partitions.length⟩ oids
    l.ordered.partitions st₂ with ⟨_ | grown, st₃⟩
  all_goals
    rw [hg] at h
    cases h
    exact spends_growAll hless (fun p _ => spends_grow hless hone p) _ oids h₂ hg

end Spends

/-! ## What planting keeps -/

/-- That a step of planting keeps a property of what is drawn and of the
source of identifiers, whether it succeeds or fails. -/
def Keeps {α : Type} (I : List Oid × σ → Prop) (f : Planting σ α) : Prop :=
  ∀ {st st' x}, I st → f st = (x, st') → I st'

/-- **What each draw keeps, planting keeps.** -/
theorem keeps_plant {I : List Oid × σ → Prop} (hone : Keeps I (drawOne draw)) (l : Layout) :
    Keeps I (l.plant draw r) :=
  fun {_ _ _} hst h =>
    spends_plant (J := fun _ => I) (fun _ _ => id) (fun {_ _ _ _} => hone) l (m := 0) hst h

end Layout

end WhatIf
