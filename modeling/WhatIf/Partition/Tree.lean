import WhatIf.Partition.Validity
/-!
# Partition — the tree of a layout

A layout is planted over a relation as a tree of nodes: a root that stands
for the relation, and a node for each partition. Siblings are ordered by
their bounds, the default partition last. Identifiers are drawn in this
order, all of one level before any below it, and a failure to draw ends the
planting; the identifiers drawn until then are reported either way.
-/

namespace WhatIf

/-- A node of a hypothetical partition tree. -/
structure Node where
  /-- Its identifier. -/
  oid : Oid
  /-- The relation whose heap every node of the tree scans. -/
  relid : Oid
  /-- Its name. -/
  name : String
  /-- The node it is a partition of; the root has none. -/
  parent : Option Oid
  /-- Which rows it holds; the root has no bound. -/
  bound : Option Bound
  /-- The key it is partitioned by, if it is. -/
  key : Option PartitionKey
  /-- Its partitions in bound order. -/
  children : List Oid
  /-- The estimated fraction of the relation's rows that it holds. -/
  share : Float
  /-- Its distance from the root. -/
  level : Nat

namespace Node

/-- Whether the node is the root of its tree. -/
def isRoot (n : Node) : Bool := n.parent.isNone

/-- Whether the node is itself partitioned. -/
def isPartitioned (n : Node) : Bool := n.key.isSome

end Node

namespace Bound

/-- The least value of a list that is not `NULL`. -/
def least? (values : List Datum) : Option Datum :=
  match values.filter fun v => !v.isNull with
  | [] => none
  | v :: rest => some (rest.foldl (fun x y => if y.compare? x == some .lt then y else x) v)

/-- The order of two words. -/
def wordOrder (a b : UInt32) : Ordering := if a < b then .lt else if a = b then .eq else .gt

/-- The order of partitions in a descriptor: by bound, the default last.
Bounds that do not compare are equal. -/
def order : Bound → Bound → Ordering
  | default, default => .eq
  | default, _ => .gt
  | _, default => .lt
  | range a _, range b _ => (RangeDatum.compareEnds? a b).getD .eq
  | list a, list b =>
    match least? a, least? b with
    | some x, some y => (x.compare? y).getD .eq
    | some _, none => .lt
    | none, some _ => .gt
    | none, none => .eq
  | hash m r, hash m' r' => (wordOrder m m').then (wordOrder r r')
  | _, _ => .eq

/-- The fraction of its parent's rows a partition is expected to hold. -/
def localShare (b : Bound) (siblings : Nat) : Float :=
  match b with
  | hash modulus _ => 1.0 / Decimal.ofCount (max modulus.toNat 1)
  | _ => 1.0 / Decimal.ofCount (max siblings 1)

end Bound

namespace Partition

/-- Siblings in the order of their bounds. -/
def inBoundOrder (ps : List Partition) : List Partition :=
  Sorting.sort (fun a b => Bound.order a.bound b.bound == .lt) .eight ps

mutual

/-- The partition with the siblings below it in bound order, at every
level. -/
def ordered : Partition → Partition
  | leaf n b => leaf n b
  | split n b s k ps => split n b s k (inBoundOrder (orderedAll ps))

/-- The same of each partition of a list. -/
def orderedAll : List Partition → List Partition
  | [] => []
  | p :: ps => ordered p :: orderedAll ps

end

end Partition

namespace Layout

/-- A layout with the siblings in bound order, at every level. -/
def ordered (l : Layout) : Layout :=
  { l with partitions := Partition.inBoundOrder (Partition.orderedAll l.partitions) }

/-- What planting computes: a result or an error, from a source of
identifiers `σ`, with the identifiers drawn so far. -/
abbrev Planting (σ α : Type) : Type := List Oid × σ → Except RegistryError α × List Oid × σ

variable {σ α β : Type}

/-- Draw one identifier and note it. -/
def drawOne (draw : σ → Except RegistryError Oid × σ) : Planting σ Oid := fun (drawn, s) =>
  match draw s with
  | (.ok oid, s) => (.ok oid, drawn ++ [oid], s)
  | (.error e, s) => (.error e, drawn, s)

/-- Draw so many identifiers, in order. -/
def drawMany (draw : σ → Except RegistryError Oid × σ) : Nat → Planting σ (List Oid)
  | 0, st => (.ok [], st)
  | n + 1, st =>
    match drawOne draw st with
    | (.error e, st) => (.error e, st)
    | (.ok oid, st) =>
      match drawMany draw n st with
      | (.error e, st) => (.error e, st)
      | (.ok rest, st) => (.ok (oid :: rest), st)

/-- Where a partition is planted. -/
structure Site where
  /-- The identifier of the node above. -/
  parent : Oid
  /-- The share of the node above. -/
  share : Float
  /-- The level of the node itself. -/
  level : Nat
  /-- How many partitions the node above has. -/
  siblings : Nat

/-- The node of a partition, still without a key and children. -/
def bareNode (r : Relation) (site : Site) (oid : Oid) (p : Partition) : Node where
  oid := oid
  relid := r.oid
  name := p.name
  parent := some site.parent
  bound := some p.bound
  key := none
  children := []
  share := site.share * p.bound.localShare site.siblings
  level := site.level

/-- The nodes of a level, followed by those below each of them in turn. -/
def levelOrder (grown : List (Node × List Node)) : List Node :=
  grown.map Prod.fst ++ grown.flatMap Prod.snd

mutual

/-- The node of a partition, and the nodes below it. -/
def grow (draw : σ → Except RegistryError Oid × σ) (r : Relation) (site : Site) (oid : Oid)
    (p : Partition) : Planting σ (Node × List Node) := fun st =>
  match p with
  | .leaf name bound => (.ok (bareNode r site oid (.leaf name bound), []), st)
  | .split name bound strategy key ps =>
    let node := bareNode r site oid (.leaf name bound)
    match resolveKey r strategy key with
    | .error e => (.error e, st)
    | .ok resolved =>
      match drawMany draw ps.length st with
      | (.error e, st) => (.error e, st)
      | (.ok oids, st) =>
        match growAll draw r ⟨oid, node.share, site.level + 1, ps.length⟩ oids ps st with
        | (.error e, st) => (.error e, st)
        | (.ok grown, st) =>
          (.ok ({ node with key := some resolved, children := oids }, levelOrder grown), st)

/-- The same for each partition of a level, with the identifiers drawn for
them. -/
def growAll (draw : σ → Except RegistryError Oid × σ) (r : Relation) (site : Site)
    (oids : List Oid) (ps : List Partition) : Planting σ (List (Node × List Node)) := fun st =>
  match oids, ps with
  | oid :: oids, p :: ps =>
    match grow draw r site oid p st with
    | (.error e, st) => (.error e, st)
    | (.ok first, st) =>
      match growAll draw r site oids ps st with
      | (.error e, st) => (.error e, st)
      | (.ok rest, st) => (.ok (first :: rest), st)
  | _, _ => (.ok [], st)

end

/-- The nodes of a layout over a relation, the root first. -/
def plant (draw : σ → Except RegistryError Oid × σ) (r : Relation) (l : Layout) :
    Planting σ (List Node) := fun st =>
  match drawOne draw st with
  | (.error e, st) => (.error e, st)
  | (.ok oid, st) =>
    match resolveKey r l.strategy l.key with
    | .error e => (.error e, st)
    | .ok resolved =>
      let ps := l.ordered.partitions
      match drawMany draw ps.length st with
      | (.error e, st) => (.error e, st)
      | (.ok oids, st) =>
        match growAll draw r ⟨oid, 1.0, 1, ps.length⟩ oids ps st with
        | (.error e, st) => (.error e, st)
        | (.ok grown, st) =>
          let root : Node :=
            { oid, relid := r.oid, name := r.name, parent := none, bound := none
              key := some resolved, children := oids, share := 1.0, level := 0 }
          (.ok (root :: levelOrder grown), st)

end Layout

end WhatIf
