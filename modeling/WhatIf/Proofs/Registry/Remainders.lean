import WhatIf.Proofs.Partition.Reproduced
import WhatIf.Proofs.Registry.Routing
import WhatIf.Proofs.Registry.Updates
/-!
# Registry — a full set of remainders holds every row

A layout with one hash partition for every remainder of a modulus is valid whenever its key
is and no partition has the name of the relation: the names are numbered, and one hash
leaves one remainder. Its partitions are in bound order as they are listed. So in the
descriptor of its tree every row lies within one partition, which stands in the place of
the remainder that the row leaves and is named after it (`withRemainders_holdsOnlyAt`).
-/

namespace WhatIf

variable {r : Relation} {columns : List String} {stem : String} {m : UInt32} {i j k : Nat}
variable {row : List Datum}

/-! ## Numbered names -/

namespace Text

theorem map_toLower_toDigits (n : Nat) :
    (Nat.toDigits 10 n).map Char.toLower = Nat.toDigits 10 n := by
  refine (List.map_congr_left fun c hc => ?_).trans (List.map_id _)
  have hdigit := Nat.isDigit_of_mem_toDigits (by decide) (by decide) hc
  rw [Char.isDigit, Bool.and_eq_true, decide_eq_true_eq, decide_eq_true_eq] at hdigit
  have hle : c.val.toNat ≤ 57 := UInt32.le_iff_toNat_le.1 hdigit.2
  have hupper : ¬(c.val ≥ 'A'.val ∧ c.val ≤ 'Z'.val) := fun h =>
    absurd (hle.trans' (UInt32.le_iff_toNat_le.1 h.1)) (by decide)
  exact dif_neg hupper

/-- **Numbered names are distinct**, whatever the letter case. -/
theorem lower_numbered_injective (stem : String) :
    Function.Injective fun n : Nat => lower (stem ++ "_" ++ toString n) := by
  intro j k h
  have hlists := String.ofList_injective h
  have hsplit : ∀ n : Nat, (stem ++ "_" ++ toString n).toList.map Char.toLower =
      (stem ++ "_").toList.map Char.toLower ++ (toString n).toList.map Char.toLower := fun n => by
    rw [String.toList_append, List.map_append]
  rw [hsplit, hsplit] at hlists
  have hdigits := List.append_cancel_left hlists
  rw [Nat.toString_eq_repr, Nat.toString_eq_repr, Nat.toList_repr, Nat.toList_repr,
    map_toLower_toDigits, map_toLower_toDigits] at hdigits
  calc j = Nat.ofDigitChars 10 (Nat.toDigits 10 j) 0 := Nat.ofDigitChars_ten_toDigits.symm
    _ = Nat.ofDigitChars 10 (Nat.toDigits 10 k) 0 := by rw [hdigits]
    _ = k := Nat.ofDigitChars_ten_toDigits

end Text

/-! ## A full set of remainders -/

namespace Partition

/-- The partition of one remainder, named after it. -/
def numbered (stem : String) (m : UInt32) (k : Nat) : Partition :=
  .ofRemainder (stem ++ "_" ++ toString k) m k.toUInt32

theorem toNat_toUInt32 (hk : k < m.toNat) : k.toUInt32.toNat = k :=
  UInt32.toNat_ofNat_of_lt (hk.trans m.toNat_lt)

theorem toUInt32_lt (hk : k < m.toNat) : k.toUInt32 < m := by
  rw [UInt32.lt_iff_toNat_lt, toNat_toUInt32 hk]
  exact hk

/-- **One partition for every remainder**, in order. -/
def remainders (stem : String) (m : UInt32) : List Partition :=
  (List.range m.toNat).map (numbered stem m)

theorem mem_remainders {p : Partition} :
    p ∈ remainders stem m ↔ ∃ k < m.toNat, numbered stem m k = p := by
  simp [remainders]

theorem getElem?_remainders {p : Partition} :
    (remainders stem m)[k]? = some p ↔ k < m.toNat ∧ numbered stem m k = p := by
  rw [remainders, List.getElem?_map, Option.map_eq_some_iff]
  constructor
  · rintro ⟨j, hj, rfl⟩
    obtain ⟨hlt, hsame⟩ := List.getElem?_eq_some_iff.1 hj
    rw [List.getElem_range] at hsame
    rw [List.length_range] at hlt
    exact ⟨hlt, by rw [hsame]⟩
  · rintro ⟨hk, rfl⟩
    exact ⟨k, List.getElem?_range hk, rfl⟩

theorem isOf_remainders {types : List DataType} :
    ∀ p ∈ remainders stem m, p.bound.IsOf .hash types := by
  intro p hp
  obtain ⟨k, hk, rfl⟩ := mem_remainders.1 hp
  exact ⟨rfl, toUInt32_lt hk⟩

/-- The remainders are listed in bound order. -/
theorem remainders_rises :
    (remainders stem m).Pairwise fun p q => p.bound.order q.bound = .lt := by
  rw [remainders, List.pairwise_map]
  refine List.pairwise_lt_range.imp_of_mem fun {j k} hj hk hlt => ?_
  have hless : j.toUInt32 < k.toUInt32 := by
    rw [UInt32.lt_iff_toNat_lt, toNat_toUInt32 (List.mem_range.1 hj),
      toNat_toUInt32 (List.mem_range.1 hk)]
    exact hlt
  change (Bound.wordOrder m m).then (Bound.wordOrder j.toUInt32 k.toUInt32) = .lt
  rw [Bound.wordOrder, if_neg (UInt32.lt_irrefl m), if_pos rfl, Bound.wordOrder, if_pos hless]
  rfl

end Partition

namespace Layout

open WhatIf.Partition (numbered remainders)

theorem withRemainders_partitions :
    ((blank .hash columns).withRemainders stem m).partitions = remainders stem m :=
  List.nil_append _

/-- Bounds of one modulus with different remainders do not clash. -/
theorem remainderClash?_numbered {name name' : String} (hj : j < m.toNat) (hk : k < m.toNat)
    (hne : j ≠ k) :
    remainderClash? ⟨name, m, k.toUInt32⟩ ⟨name', m, j.toUInt32⟩ = none := by
  refine remainderClash?_eq_none_iff.2 ?_
  rw [if_pos (UInt32.le_refl m)]
  refine ⟨?_, ?_⟩
  · rw [← UInt32.toNat_inj, UInt32.toNat_mod, Nat.mod_self]
    rfl
  · rw [ne_eq, ← UInt32.toNat_inj, UInt32.toNat_mod, Partition.toNat_toUInt32 hj,
      Partition.toNat_toUInt32 hk, Nat.mod_eq_of_lt hj]
    exact hne

/-- **A full set of remainders passes** as a level. -/
theorem passes_remainders {key : PartitionKey} (hkey : resolveKey r .hash columns = .ok key)
    (hm : m ≠ 0) : Passes r .hash columns (remainders stem m) where
  faultless := by
    refine ⟨key, hkey, fun p hp => ?_⟩
    obtain ⟨k, hk, rfl⟩ := Partition.mem_remainders.1 hp
    have hless := UInt32.not_le.2 (Partition.toUInt32_lt hk)
    change (if some Strategy.hash = some key.strategy then hashFault? _ m k.toUInt32 else _) = none
    rw [resolveKey_strategy hkey, if_pos rfl, hashFault?, if_neg hm, if_neg hless]
  nonempty := by
    intro hnil
    have hzero : m.toNat = 0 := by simpa [remainders] using hnil
    exact hm (UInt32.toNat_inj.1 hzero)
  default := by
    rw [List.countP_eq_zero.2]
    · exact Nat.zero_le 1
    · intro p hp
      obtain ⟨k, -, rfl⟩ := Partition.mem_remainders.1 hp
      exact Bool.false_ne_true
  apart := by
    refine hashOverlap?_eq_none_iff.2 ?_
    rw [remainders, List.filterMap_map, List.pairwise_filterMap]
    refine List.pairwise_lt_range.imp_of_mem fun {j k} hj hk hlt b hb a ha => ?_
    obtain rfl := Option.some.inj hb
    obtain rfl := Option.some.inj ha
    exact remainderClash?_numbered (List.mem_range.1 hj) (List.mem_range.1 hk) hlt.ne

/-- **A full set of remainders is valid**, if none is named as the relation is. -/
theorem validate_withRemainders {key : PartitionKey} (hkey : resolveKey r .hash columns = .ok key)
    (hm : m ≠ 0)
    (hname : ∀ k < m.toNat, Text.sameName (stem ++ "_" ++ toString k) r.name = false) :
    ((blank .hash columns).withRemainders stem m).validate r = .ok () := by
  refine validate_iff.2 ⟨?_, ?_⟩
  · rw [whole, withRemainders_partitions]
    refine .split (passes_remainders hkey hm) fun p hp => ?_
    obtain ⟨k, -, rfl⟩ := Partition.mem_remainders.1 hp
    exact .leaf
  · have hbelow : Partition.namesBelowAll (remainders stem m) = [] := by
      rw [Partition.namesBelowAll_eq, List.flatMap_eq_nil_iff]
      intro p hp
      obtain ⟨k, -, rfl⟩ := Partition.mem_remainders.1 hp
      rfl
    rw [whole, withRemainders_partitions, Partition.namesBelow, hbelow, List.append_nil,
      remainders, List.map_map]
    refine List.nodup_append'.2 ⟨?_, List.nodup_singleton _, ?_⟩
    · exact List.Nodup.map (Text.lower_numbered_injective stem) List.nodup_range
    · rw [List.disjoint_singleton, List.mem_map]
      rintro ⟨k, hk, hsame⟩
      have hdiffers := hname k (List.mem_range.1 hk)
      rw [Text.sameName, beq_eq_false_iff_ne] at hdiffers
      exact hdiffers hsame

/-- The partitions are in bound order as they are listed. -/
theorem ordered_withRemainders :
    ((blank .hash columns).withRemainders stem m).ordered.partitions = remainders stem m := by
  have hall : Partition.orderedAll (remainders stem m) = remainders stem m := by
    rw [Partition.orderedAll_eq]
    refine (List.map_congr_left fun p hp => ?_).trans (List.map_id _)
    obtain ⟨k, -, rfl⟩ := Partition.mem_remainders.1 hp
    rfl
  rw [ordered, withRemainders_partitions, hall]
  exact Partition.inBoundOrder_eq_self (List.forall_mem_nil _) Partition.isOf_remainders
    Partition.remainders_rises

theorem size_withRemainders :
    ((blank .hash columns).withRemainders stem m).size = m.toNat + 1 := by
  have hbelow : Partition.numBelowAll (remainders stem m) = 0 := by
    rw [remainders]
    induction List.range m.toNat with
    | nil => rfl
    | cons k ks ih => rw [List.map_cons, Partition.numBelowAll, ih]; rfl
  rw [size, withRemainders_partitions, hbelow, remainders, List.length_map, List.length_range]

end Layout

/-! ## Rows -/

/-- **A row that one partition of a root holds**: in the descriptor it lies within the bound
in one place alone, where the partition of the given name stands, and it is routed to that
place. -/
structure Registry.HoldsOnlyAt (g : Registry) (root : Node) (row : List Datum) (i : Nat)
    (name : String) : Prop where
  node : ∃ n b, (g.descOf root).oids[i]? = some n.oid ∧ (g.descOf root).bounds[i]? = some b ∧
    g.node? n.oid = some n ∧ n.name = name ∧ n.bound = some b
  contains_iff : ∀ j b, (g.descOf root).bounds[j]? = some b → (b.contains row = true ↔ j = i)
  route : (g.descOf root).route? row = some i

/-- That nodes are found under their identifiers. -/
def Registry.Knows (g : Registry) (nodes : List Node) : Prop :=
  ∀ n ∈ nodes, g.node? n.oid = some n

/-- The remainder that a row leaves. -/
def Datum.remainder (row : List Datum) (m : UInt32) : Nat := (rowHash row % m).toNat

theorem Datum.remainder_lt (row : List Datum) (hm : m ≠ 0) : remainder row m < m.toNat := by
  rw [remainder, UInt32.toNat_mod]
  refine Nat.mod_lt _ (Nat.pos_of_ne_zero fun hzero => hm ?_)
  exact UInt32.toNat_inj.1 hzero

/-- A remainder holds the rows that leave it. -/
theorem Partition.contains_numbered_iff (hm : m ≠ 0) (hk : k < m.toNat) :
    (numbered stem m k).bound.contains row = true ↔ k = Datum.remainder row m := by
  have hpos : 0 < m := UInt32.pos_iff_ne_zero.2 hm
  change (decide (0 < m) && Datum.rowHash row % m == k.toUInt32) = true ↔ _
  rw [decide_eq_true hpos, Bool.true_and, beq_iff_eq, ← UInt32.toNat_inj, toNat_toUInt32 hk]
  exact eq_comm

namespace Layout

open WhatIf.Partition (numbered remainders)

/-- A tree for each of several partitions stands in its place. -/
theorem AllGrowInto.exists_getElem? {site : Site} {ps : List Partition} {ts : List PartitionTree}
    {p : Partition} (h : AllGrowInto r site ps ts) (hp : ps[i]? = some p) :
    ∃ t, ts[i]? = some t ∧ GrowsInto r site p t := by
  obtain ⟨hlength, hget⟩ := List.forall₂_iff_get.1 (allGrowInto_iff.1 h)
  obtain ⟨hi, rfl⟩ := List.getElem?_eq_some_iff.1 hp
  exact ⟨_, List.getElem?_eq_getElem (hlength ▸ hi), hget i hi (hlength ▸ hi)⟩

/-- **Of the partitions of a full set of remainders one holds a row**: the one of the
remainder it leaves. -/
theorem holdsOnlyAt_of_growsInto {site : Site} {g : Registry} {root : Node}
    {parts : List PartitionTree} (hm : m ≠ 0)
    (hgrow : AllGrowInto r site (remainders stem m) parts)
    (hchildren : root.children = parts.map PartitionTree.oid)
    (hparts : ∀ c ∈ parts, g.node? c.oid = some c.node) (row : List Datum) :
    g.HoldsOnlyAt root row (Datum.remainder row m)
      (stem ++ "_" ++ toString (Datum.remainder row m)) := by
  obtain ⟨hoids, hbounds⟩ := Registry.descOf_of_node? hchildren hgrow.bounds hparts
  have hbound : ∀ j b, (g.descOf root).bounds[j]? = some b →
      (b.contains row = true ↔ j = Datum.remainder row m) := by
    intro j b hb
    rw [hbounds, List.getElem?_map, Option.map_eq_some_iff] at hb
    obtain ⟨p, hp, rfl⟩ := hb
    obtain ⟨hj, rfl⟩ := Partition.getElem?_remainders.1 hp
    exact Partition.contains_numbered_iff hm hj
  have hplace : (remainders stem m)[Datum.remainder row m]? =
      some (numbered stem m (Datum.remainder row m)) :=
    Partition.getElem?_remainders.2 ⟨Datum.remainder_lt row hm, rfl⟩
  have hown : (g.descOf root).bounds[Datum.remainder row m]? =
      some (numbered stem m (Datum.remainder row m)).bound := by
    rw [hbounds, List.getElem?_map, hplace]
    rfl
  refine ⟨?_, hbound, ?_⟩
  · obtain ⟨c, hc, hgrows⟩ := hgrow.exists_getElem? hplace
    rw [numbered, Partition.ofRemainder, GrowsInto] at hgrows
    refine ⟨c.node, _, ?_, hown, hparts c (List.mem_of_getElem? hc), ?_, hgrows ▸ rfl⟩
    · rw [hoids, List.getElem?_map, hc]
      rfl
    · rw [hgrows]
      rfl
  · -- no place before it holds the row
    obtain ⟨hi, hget⟩ := List.getElem?_eq_some_iff.1 hown
    rw [PartitionDesc.route?, List.findIdx?_eq_some_iff_getElem.2 ⟨hi, ?_, fun j hj hcontains => ?_⟩]
    · rfl
    · exact (hbound _ _ (List.getElem?_eq_getElem hi)).2 rfl
    · exact hj.ne ((hbound _ _ (List.getElem?_eq_getElem (hj.trans hi))).1 hcontains)

/-- The nodes of a tree are found in the registry that holds this tree alone. -/
theorem exists_knows {t : PartitionTree} {below : List Node} (hlinked : t.Linked r)
    (hperm : (t.node :: below).Perm t.nodes) (hnodup : t.oids.Nodup) (hapart : r.oid ∉ t.oids) :
    ∃ g, Registry.empty.insertTree? (t.node :: below) = some (t.oid, g) ∧
      g.Knows (t.node :: below) := by
  have hadd : (Inventory.empty.addTree t).trees = [t] := rfl
  have hoids : (Inventory.empty.addTree t).nodeOids = t.oids := List.append_nil _
  obtain ⟨g, hinsert, hholds⟩ := Registry.holds_empty.insertTree? hlinked hperm
    (by rw [Inventory.oids, hoids]; exact hnodup) (by rintro ⟨u, hu, -⟩; cases hu)
    (by
      intro u hu
      rw [hadd, List.mem_singleton] at hu
      rw [hu, hoids, (hlinked.linkedAt t t.self_mem_subtrees).relid]
      exact hapart)
  refine ⟨g, hinsert, fun n hn => hholds.node?_oid ?_⟩
  exact Inventory.mem_nodes_iff.2 ⟨t, by rw [hadd]; exact List.mem_singleton_self t, hperm.mem_iff.1 hn⟩

/-- **A full set of remainders routes every row.** Over a key that resolves, with a modulus
that is not zero and no partition named as the relation is, the layout is valid, and where
identifiers are drawn it is planted. In every registry that knows its nodes, as the one that
holds nothing else does, each row of key values lies within one partition alone: the one named
after the remainder of the row's hash, which stands in the place of that remainder and is
where the row is routed. -/
theorem withRemainders_holdsOnlyAt {key : PartitionKey}
    (hkey : resolveKey r .hash columns = .ok key) (hm : m ≠ 0)
    (hname : ∀ k < m.toNat, Text.sameName (stem ++ "_" ++ toString k) r.name = false) :
    ((blank .hash columns).withRemainders stem m).validate r = .ok () ∧
      ∀ {σ : Type} (draw : σ → Except RegistryError Oid × σ) (s s' : σ) (oids : List Oid),
        Draws draw s oids s' → oids.length = m.toNat + 1 →
        ∃ root below, ((blank .hash columns).withRemainders stem m).plant draw r ([], s) =
            (.ok (root :: below), oids, s') ∧
          (∀ g : Registry, g.Knows (root :: below) → ∀ row,
            g.HoldsOnlyAt root row (Datum.rowHash row % m).toNat
              (stem ++ "_" ++ toString (Datum.rowHash row % m).toNat)) ∧
          (oids.Nodup → r.oid ∉ oids →
            ∃ g, Registry.empty.insertTree? (root :: below) = some (root.oid, g) ∧
              g.Knows (root :: below)) := by
  have hvalid := validate_withRemainders hkey hm hname
  refine ⟨hvalid, fun {σ} draw s s' oids hdraws hlength => ?_⟩
  obtain ⟨nodes, hplant, -⟩ := (consumes_plant hvalid).ok [] hdraws
    (hlength.trans size_withRemainders.symm)
  obtain ⟨t, htree, ⟨below, rfl⟩, hperm, hoids⟩ := plant_ok hplant
  rw [List.nil_append] at hoids hplant
  refine ⟨t.node, below, hplant, fun g hknows row => ?_, fun hnodup hapart => ?_⟩
  · obtain ⟨⟨resolved, -, hnode⟩, hparts⟩ := htree
    rw [ordered_withRemainders] at hparts
    refine holdsOnlyAt_of_growsInto hm hparts (by rw [hnode]) (fun c hc => ?_) row
    refine hknows c.node (hperm.mem_iff.2 (PartitionTree.node_mem_nodes ?_))
    exact PartitionTree.mem_subtrees_of_mem_parts hc c.self_mem_subtrees
  · have hsame : oids.Perm t.oids := hoids ▸ hperm.map _
    exact exists_knows htree.linked hperm (hsame.nodup_iff.1 hnodup)
      fun hmem => hapart (hsame.mem_iff.2 hmem)

/-- Readings by the remainder that site and year leave of seven. -/
theorem withRemainders_holdsOnlyAt_readings :
    ((blank .hash ["SITE", "year"]).withRemainders "part" 7).validate readings = .ok () ∧
      ∃ root below st g, ((blank .hash ["SITE", "year"]).withRemainders "part" 7).plant
          (fun n : Nat => (.ok ⟨n.toUInt32⟩, n + 1)) readings ([], 20000) =
            (.ok (root :: below), st) ∧
        Registry.empty.insertTree? (root :: below) = some (root.oid, g) ∧
        g.HoldsOnlyAt root [.null, .int 2001] (Datum.rowHash [.null, .int 2001] % 7).toNat
          ("part_" ++ toString (Datum.rowHash [.null, .int 2001] % 7).toNat) := by
  obtain ⟨key, hkey⟩ : ∃ key, resolveKey readings .hash ["SITE", "year"] = .ok key := ⟨_, rfl⟩
  have hname : ∀ k < (7 : UInt32).toNat,
      Text.sameName ("part" ++ "_" ++ toString k) readings.name = false := by decide +kernel
  obtain ⟨hvalid, hplants⟩ := withRemainders_holdsOnlyAt hkey (by decide) hname
  have hdraws : Draws (fun n : Nat => (.ok ⟨n.toUInt32⟩, n + 1)) 20000 [⟨20000⟩, ⟨20001⟩, ⟨20002⟩,
      ⟨20003⟩, ⟨20004⟩, ⟨20005⟩, ⟨20006⟩, ⟨20007⟩] 20008 :=
    .cons rfl (.cons rfl (.cons rfl (.cons rfl (.cons rfl (.cons rfl (.cons rfl (.cons rfl .nil)))))))
  obtain ⟨root, below, hplant, hholds, hknows⟩ := hplants _ _ _ _ hdraws rfl
  obtain ⟨g, hinsert, hg⟩ := hknows (by decide) (by decide)
  exact ⟨hvalid, root, below, _, g, hplant, hinsert, hholds g hg _⟩

end Layout

end WhatIf
