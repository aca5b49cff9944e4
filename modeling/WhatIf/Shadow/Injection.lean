import WhatIf.Registry.Basic
import WhatIf.Hook.Points
import WhatIf.Constraint.Refutation
/-!
# Shadow — hypothetical objects in the planner's hands

How the registry's objects are presented to the planner while a simulation
window is active: indexes as candidates, a partition tree as partitioning,
child entries and constraints. A partition whose constraints contradict the
restrictions on it has no matching rows.
-/

namespace WhatIf

/-! ## Indexes -/

/-- A hypothetical index as one that might be used. -/
def HypotheticalIndex.candidate (x : HypotheticalIndex) : Candidate where
  oid := x.oid
  relid := x.relid
  method := x.method
  pages := x.size.pages
  tuples := x.size.tuples
  height := x.size.height
  keys := x.columns.map fun c => c.attnum
  included := x.included.map Prod.fst
  descending := x.columns.map fun c => c.descending
  nullsFirst := x.columns.map fun c => c.nullsFirst
  unique := x.unique
  predicate := x.predicate
  implied := false
  hypothetical := true

namespace Registry

variable (g : Registry)

/-- The candidates a relation of a given kind gains. -/
def candidatesOn (relid : Oid) (kind : RelKind) : List Candidate :=
  if kind.isIndexable then (g.indexesOn relid).map HypotheticalIndex.candidate else []

/-- Add the hypothetical indexes on a relation to its candidates. -/
def attachIndexes (relid : Oid) (kind : RelKind) (rel : RelState) : RelState :=
  { rel with candidates := rel.candidates ++ g.candidatesOn relid kind }

/-! ## Partitions -/

/-- A partition with its bound. -/
def boundOf? (oid : Oid) : Option (Oid × Bound) :=
  (g.node? oid).bind fun child => child.bound.map fun b => (child.oid, b)

/-- The descriptor of a partitioned node. -/
def descOf (n : Node) : PartitionDesc := .ofParts (n.children.filterMap g.boundOf?)

/-- A number of pages scaled to a share of the heap; at least one. -/
def scalePages (pages : Nat) (share : Float) : Nat :=
  max (Decimal.ceilCount (Decimal.ofCount pages * share)) 1

/-- A number of rows scaled to a share of the heap. -/
def scaleTuples (tuples share : Float) : Float := (tuples * share).round

/-- A candidate scaled to a share of the heap. -/
def scaleCandidate (share : Float) (x : Candidate) : Candidate :=
  { x with pages := scalePages x.pages share, tuples := scaleTuples x.tuples share }

/-- Give a partition its constraints, its share of the heap and its name. -/
def narrow (n : Node) (rel : RelState) : RelState :=
  { rel with
    constraints := g.boundConstraints n.oid
    pages := scalePages rel.pages n.share
    tuples := scaleTuples rel.tuples n.share
    candidates := rel.candidates.map (scaleCandidate n.share)
    name := n.name }

/-- Give a partitioned node its key and descriptor. -/
def partition (n : Node) (rel : RelState) : RelState :=
  match n.key with
  | some key => { rel with partitioning := some ⟨key, g.descOf n⟩ }
  | none => rel

/-- The node the entry of a relation stands for. -/
def nodeOfEntry? (state : PlanState) (entry : RangeIndex) : Option Node :=
  (state.entry? entry).bind fun e => g.node? e.logicalId

/-- Install partitioning on a relation that stands for a node. -/
def attachPartitioning (state : PlanState) (rel : RelState) : RelState :=
  match g.nodeOfEntry? state rel.entry with
  | none => rel
  | some n =>
    let rel := g.partition n rel
    if n.isRoot then rel else g.narrow n rel

end Registry

/-- Whether constraint exclusion applies to a relation and refutes it. -/
def RelState.isExcluded (rel : RelState) (s : Settings) : Bool :=
  !rel.isDummy && !rel.constraints.isEmpty && s.exclusion.applies true &&
    Constraint.refutedBy rel.restrictions rel.constraints

/-- The relation, known to have no matching rows if it is refuted. -/
def RelState.excludeRefuted (rel : RelState) (s : Settings) : RelState :=
  if rel.isExcluded s then rel.setDummy else rel

/-! ## Children -/

namespace Registry

variable (g : Registry)

/-- A node followed by every partition below it. -/
def inheritors? (oid : Oid) : Option (List Oid) :=
  if g.hasNode oid then some (oid :: g.descendants oid) else none

/-- The partitions of a partitioned node. -/
def childNodes? (oid : Oid) : Option (List Node) :=
  (g.partitioned? oid).map fun n => n.children.filterMap g.node?

end Registry

/-- Turn the entry of a child into one that reads the shadowed heap for a
partition. -/
def RangeEntry.standFor (e : RangeEntry) (n : Node) : RangeEntry :=
  { e with
    relid := n.relid
    kind := .relation
    partition := some n.oid
    inherits := n.isPartitioned
    label := n.name }

namespace PlanState

/-- Add the entry of one child, which starts as a copy of its parent's and
is finished by a call. Answer how many entries were added. -/
def addOneChild (finish : Oid → Edit RangeEntry Unit) (parent : RangeIndex) (e : RangeEntry)
    (oid : Oid) : Edit PlanState Nat := do
  let ((), entry) ← Edit.lend (finish oid) (.ofRelation e.relid e.kind e.label false)
  let state ← Edit.value
  if state.hasChild parent entry.logicalId then pure 0
  else do
    Edit.put (state.addChild parent entry).2
    pure 1

/-- Add the entries of several children in turn. -/
def addEachChild (finish : Oid → Edit RangeEntry Unit) (parent : RangeIndex) (e : RangeEntry) :
    List Oid → Edit PlanState Nat
  | [] => pure 0
  | oid :: rest => do
    let n ← addOneChild finish parent e oid
    let m ← addEachChild finish parent e rest
    pure (n + m)

/-- Add an entry for each child that the parent does not have yet. -/
def expandInto (finish : Oid → Edit RangeEntry Unit) (parent : RangeIndex) (children : List Oid) :
    Edit PlanState Nat := do
  let state ← Edit.value
  match state.entry? parent with
  | none => Edit.fail (.planning (.noEntry parent))
  | some e => addEachChild finish parent e children

end PlanState

end WhatIf
