import WhatIf.Slots
import WhatIf.Keyed
import WhatIf.Partition.Tree
import WhatIf.Index.Hypothetical
/-!
# Registry — the hypothetical objects

The registry keeps every hypothetical index and every node of every
hypothetical partition tree. An index is found by its identifier. A node is
found by its identifier too, and the root of a tree also by the identifier of
the relation it shadows, under which the planner knows it. Entries do not
change; they are removed one index or one whole tree at a time, or all at
once.
-/

namespace WhatIf

/-- The hypothetical objects. -/
structure Registry where
  /-- The indexes. -/
  indexes : Arena HypotheticalIndex
  /-- The keys of the indexes in order of registration. -/
  indexOrder : List ArenaKey
  /-- The keys of the indexes by identifier. -/
  indexKeys : List (Oid × ArenaKey)
  /-- The nodes of all trees. -/
  nodes : Arena Node
  /-- The keys of the nodes by identifier. -/
  nodeKeys : List (Oid × ArenaKey)
  /-- The identifiers of the roots by the relation they shadow. -/
  rootOf : List (Oid × Oid)
  /-- The identifiers of the roots in order of registration. -/
  roots : List Oid

namespace Registry

/-- A registry without objects. -/
def empty : Registry := ⟨.empty, [], [], .empty, [], [], []⟩

variable (g : Registry)

/-! ## Indexes -/

/-- The registry with one more index. -/
def insertIndex (x : HypotheticalIndex) : Registry :=
  let (key, indexes) := g.indexes.alloc x
  { g with
    indexes
    indexOrder := g.indexOrder ++ [key]
    indexKeys := Keyed.insert g.indexKeys x.oid key }

/-- The index of an identifier. -/
def index? (oid : Oid) : Option HypotheticalIndex :=
  (Keyed.find? g.indexKeys oid).bind g.indexes.get?

/-- The indexes in order of registration. -/
def indexList : List HypotheticalIndex := g.indexOrder.filterMap g.indexes.get?

/-- The indexes on a relation in order of registration. -/
def indexesOn (relid : Oid) : List HypotheticalIndex :=
  g.indexList.filter fun x => x.relid == relid

/-- The index of an identifier, and the registry without it. -/
def removeIndex? (oid : Oid) : Option (HypotheticalIndex × Registry) :=
  match Keyed.find? g.indexKeys oid with
  | none => none
  | some key =>
    (g.indexes.get? key).map fun x =>
      (x, { g with
        indexes := g.indexes.erase key
        indexOrder := g.indexOrder.filter fun k => k ≠ key
        indexKeys := Keyed.erase g.indexKeys oid })

/-! ## Trees -/

/-- The registry with one more node. -/
def insertNode (n : Node) : Registry :=
  let (key, nodes) := g.nodes.alloc n
  { g with nodes, nodeKeys := Keyed.insert g.nodeKeys n.oid key }

/-- The identifier of the root of a tree, and the registry with the tree.
The first of the nodes is the root. -/
def insertTree? (tree : List Node) : Option (Oid × Registry) :=
  match tree with
  | [] => none
  | root :: _ =>
    let g := tree.foldl insertNode g
    some (root.oid, { g with
      rootOf := Keyed.insert g.rootOf root.relid root.oid
      roots := g.roots ++ [root.oid] })

/-- The node of an identifier, which is not that of a shadowed relation. -/
def exactNode? (oid : Oid) : Option Node :=
  (Keyed.find? g.nodeKeys oid).bind g.nodes.get?

/-- The root that shadows a relation; any other identifier is itself. -/
def canonical (oid : Oid) : Oid := (Keyed.find? g.rootOf oid).getD oid

/-- The node of an identifier, or of the relation it shadows. -/
def node? (oid : Oid) : Option Node := g.exactNode? (g.canonical oid)

/-- Whether an identifier leads to a node. -/
def hasNode (oid : Oid) : Bool := (g.node? oid).isSome

/-- Whether a relation is shadowed by a tree. -/
def isShadowed (relid : Oid) : Bool := (Keyed.find? g.rootOf relid).isSome

/-- The node of an identifier, if it is partitioned. -/
def partitioned? (oid : Oid) : Option Node := (g.node? oid).filter Node.isPartitioned

/-- The roots in order of registration. -/
def rootList : List Node := g.roots.filterMap g.node?

/-- The children of a node; none where there is no node. -/
def childrenOf (oid : Oid) : List Oid :=
  match g.node? oid with
  | some n => n.children
  | none => []

/-- A level of a tree followed by at most so many levels below it. -/
def levelsFrom : Nat → List Oid → List Oid
  | 0, _ => []
  | fuel + 1, level =>
    if level.isEmpty then [] else level ++ levelsFrom fuel (level.flatMap g.childrenOf)

/-- Every partition below a node, level by level. A tree has no more levels
than the registry has nodes. -/
def descendants (oid : Oid) : List Oid := g.levelsFrom g.nodeKeys.length (g.childrenOf oid)

/-- The registry without the node of an identifier. -/
def eraseNode (oid : Oid) : Registry :=
  match Keyed.find? g.nodeKeys oid with
  | none => g
  | some key => { g with nodes := g.nodes.erase key, nodeKeys := Keyed.erase g.nodeKeys oid }

/-- The identifiers of a tree, and the registry without it. A tree goes by
its root or by the relation it shadows. -/
def removeTree? (oid : Oid) : Option (List Oid × Registry) :=
  ((g.node? oid).filter Node.isRoot).map fun root =>
    let members := root.oid :: g.descendants root.oid
    let g := members.foldl eraseNode g
    (members, { g with
      rootOf := Keyed.erase g.rootOf root.relid
      roots := g.roots.filter fun r => r ≠ root.oid })

/-- The constraints of a node's bound, followed by those of its ancestors up
to so many levels. -/
def constraintsUp : Nat → Option Node → List Constraint
  | 0, _ => []
  | _, none => []
  | fuel + 1, some n =>
    let parent := n.parent.bind g.exactNode?
    let own := match n.bound, parent.bind Node.key with
      | some b, some key => b.constraints key
      | _, _ => []
    own ++ constraintsUp fuel parent

/-- The constraints every row of a partition satisfies: those of its own
bound and of every ancestor's. -/
def boundConstraints (oid : Oid) : List Constraint :=
  g.constraintsUp g.nodeKeys.length (g.node? oid)

/-! ## Everything -/

/-- The registry without objects; no key of before resolves in it. -/
def reset : Registry where
  indexes := g.indexes.reset
  indexOrder := []
  indexKeys := []
  nodes := g.nodes.reset
  nodeKeys := []
  rootOf := []
  roots := []

/-- Whether there are no objects. -/
def isEmpty : Bool := g.indexes.isEmpty && g.nodes.isEmpty

end Registry

end WhatIf
