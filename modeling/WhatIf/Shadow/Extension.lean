import WhatIf.Shadow.Injection
import WhatIf.Registry.ShadowIds
/-!
# Shadow — the extension

The extension owns the hypothetical objects and the identifiers issued to
them. Registering an object either succeeds as a whole or leaves everything
as it was. Installed on a session, it opens the simulation window of each
statement that only explains, shows its objects to the planner while the
window is active, and closes the window at the end.
-/

namespace WhatIf

/-- The extension. -/
structure Extension where
  /-- Whether its objects may appear in plans. -/
  enabled : Bool
  /-- Its objects. -/
  registry : Registry
  /-- The identifiers issued to them. -/
  ids : ShadowIds

namespace Extension

/-- The name the extension is installed under. -/
def extensionName : String := "hypodb"

/-- An extension without objects. -/
def fresh (enabled : Bool) : Extension := ⟨enabled, .empty, .empty⟩

variable {σ : Type} [Catalog σ] (x : Extension)

/-! ## Administration -/

/-- What an administrative call answers, and what it leaves. -/
abbrev Outcome (σ : Type) : Type := Except Error Oid × Extension × σ

/-- The relation to be shadowed. -/
def findTarget (c : σ) (relid : Oid) : Except RegistryError Relation :=
  match Catalog.relation c relid with
  | .ok r => .ok r
  | .error cause => .error (.invalidTarget relid (.unreadable cause))

/-- Register a hypothetical index on a relation. -/
def registerIndex (c : σ) (relid : Oid) (spec : IndexSpec) : Outcome σ :=
  match findTarget c relid with
  | .error e => (.error (.registry e), x, c)
  | .ok r =>
    match x.ids.allocate relid c with
    | (.error e, ids, c) => (.error (.registry e), { x with ids }, c)
    | (.ok oid, ids, c) =>
      match HypotheticalIndex.build oid r spec with
      | .error e => (.error (.registry e), { x with ids := ids.release oid }, c)
      | .ok index => (.ok oid, { x with ids, registry := x.registry.insertIndex index }, c)

/-- Whether a relation may be shadowed by a partition tree. -/
def checkTarget (c : σ) (r : Relation) (relid : Oid) : Except Error Unit :=
  match r.kind with
  | .relation =>
    match Catalog.children c relid with
    | .error cause => .error (.catalog cause)
    | .ok children =>
      if !children.isEmpty then .error (.registry (.invalidTarget relid (.hasChildren r.name)))
      else if x.registry.isShadowed relid then .error (.registry (.alreadyShadowed r.name))
      else .ok ()
  | .partitionedTable => .error (.registry (.alreadyPartitioned r.name))
  | _ => .error (.registry (.invalidTarget relid (.notTable r.name)))

/-- Draw an identifier for a node of a tree over a relation. -/
def drawFor (relid : Oid) (s : ShadowIds × σ) : Except RegistryError Oid × ShadowIds × σ :=
  s.1.allocate relid s.2

/-- Plant a valid layout over a relation. -/
def plantTree (c : σ) (relid : Oid) (r : Relation) (l : Layout) : Outcome σ :=
  match l.plant (drawFor relid) r ([], x.ids, c) with
  | (.error e, drawn, ids, c) =>
    (.error (.registry e), { x with ids := drawn.foldl ShadowIds.release ids }, c)
  | (.ok nodes, _, ids, c) =>
    match x.registry.insertTree? nodes with
    | none => (.error (.registry (.emptyTree r.name)), { x with ids }, c)
    | some (root, registry) => (.ok root, { x with ids, registry }, c)

/-- Shadow a relation with a partition tree, and answer with the identifier
of its root. -/
def registerTable (c : σ) (relid : Oid) (l : Layout) : Outcome σ :=
  match findTarget c relid with
  | .error e => (.error (.registry e), x, c)
  | .ok r =>
    match x.checkTarget c r relid with
    | .error e => (.error e, x, c)
    | .ok () =>
      match l.validate r with
      | .error e => (.error (.registry e), x, c)
      | .ok () => x.plantTree c relid r l

/-- Drop every object. -/
def resetAll : Extension := { x with registry := x.registry.reset, ids := .empty }

/-- Drop an index, if there is one, and answer whether there was. -/
def dropIndex (oid : Oid) : Bool × Extension :=
  match x.registry.removeIndex? oid with
  | none => (false, x)
  | some (_, registry) => (true, { x with registry, ids := x.ids.release oid })

/-- Drop a whole tree, named by its root or by the relation it shadows. -/
def dropTable (oid : Oid) : Bool × Extension :=
  match x.registry.removeTree? oid with
  | none => (false, x)
  | some (members, registry) =>
    (true, { x with registry, ids := members.foldl ShadowIds.release x.ids })

/-- The indexes in order of registration. -/
def listIndexes : List HypotheticalIndex := x.registry.indexList

/-- A root followed by every node below it. -/
def listTree (root : Node) : List Node :=
  root :: (x.registry.descendants root.oid).filterMap x.registry.node?

/-- Every node of every tree. -/
def listTables : List Node := x.registry.rootList.flatMap x.listTree

/-- A registered index. -/
def findIndex (oid : Oid) : Except Error HypotheticalIndex :=
  match x.registry.index? oid with
  | some index => .ok index
  | none => .error (.registry (.unknownObject oid))

/-- The statement that would build an index. -/
def definition (oid : Oid) : Except Error String := (x.findIndex oid).map fun i => i.definition

/-- The estimated size of an index in bytes. -/
def sizeOf (oid : Oid) : Except Error Nat := (x.findIndex oid).map fun i => i.size.bytes

/-! ## The interceptor -/

/-- The answer of the registry while the window is active, and else that of
the points under the extension. -/
def orNext {α : Type} (ctx : Context) (own : Option α) (next : Ask α) : Ask α :=
  if ctx.window.isActive then
    match own with
    | some answer => pure answer
    | none => next
  else next

/-- Whether an identifier has partitions in the registry. -/
def hasPartitions (oid : Oid) : Bool :=
  x.registry.isShadowed oid || (x.registry.partitioned? oid).isSome

/-- Finish the entry of a child that is a partition. -/
def finishChild (ctx : Context) (child : Oid) : Edit RangeEntry Unit :=
  if ctx.window.isActive then
    match (x.registry.node? child).filter fun n => !n.isRoot with
    | some n => Edit.change fun e => e.standFor n
    | none => pure ()
  else pure ()

/-- The metadata points over those under the extension. -/
def metadata (next : MetadataPoints) : MetadataPoints where
  partitionDesc ctx oid :=
    orNext ctx ((x.registry.partitioned? oid).map fun n => some (x.registry.descOf n))
      (next.partitionDesc ctx oid)
  partitionKey ctx oid :=
    orNext ctx ((x.registry.partitioned? oid).map Node.key) (next.partitionKey ctx oid)
  hasSubclass ctx oid :=
    orNext ctx (if x.hasPartitions oid then some true else none) (next.hasSubclass ctx oid)
  inheritors ctx oid := orNext ctx (x.registry.inheritors? oid) (next.inheritors ctx oid)
  finishChild ctx parent child := do
    next.finishChild ctx parent child
    x.finishChild ctx child
  indexName ctx oid :=
    match x.registry.index? oid with
    | some index => pure (some index.name)
    | none => next.indexName ctx oid

/-- Present the objects on a relation to the planner. -/
def inject (oid : Oid) (inherits : Bool) (s : Scope) : Scope :=
  let kind := match s.state.entry? s.rel.entry with
    | some e => e.kind
    | none => .relation
  let rel := if inherits then s.rel else x.registry.attachIndexes oid kind s.rel
  { s with rel := x.registry.attachPartitioning s.state rel }

/-- Add the entries of the partitions of an entry that stands for a
partitioned node; any other entry is left to the points under the extension. -/
def expandChildren (whole : MetadataPoints) (ctx : Context) (parent : RangeIndex)
    (next : Edit PlanState Unit) : Edit PlanState Unit := do
  let state ← Edit.value
  match state.entry? parent with
  | none => next
  | some e =>
    match x.registry.childNodes? e.logicalId with
    | none => next
    | some children => do
      let _ ← PlanState.expandInto (whole.finishChild ctx e.logicalId) parent
        (children.map fun n => n.oid)
      pure ()

/-- The planning points over those under the extension. -/
def planning (whole : MetadataPoints) (next : PlanningPoints) : PlanningPoints where
  relationInfo ctx oid inherits := do
    next.relationInfo ctx oid inherits
    if ctx.window.isActive then Edit.change (x.inject oid inherits)
  relationPaths ctx entry := do
    next.relationPaths ctx entry
    if ctx.window.isActive then
      Edit.change fun s => { s with rel := s.rel.excludeRefuted s.state.settings }
  expandChildren ctx parent desc :=
    if ctx.window.isActive then
      x.expandChildren whole ctx parent (next.expandChildren ctx parent desc)
    else next.expandChildren ctx parent desc

/-- Set the window of the statement under way. -/
def setWindow (w : Window) : Edit Running Unit :=
  Edit.change fun r => { r with context := { r.context with window := w } }

/-- The statement points over those under the extension. -/
def statement (next : StatementPoints) : StatementPoints where
  utility s := do
    setWindow ⟨s.isPlanOnly, x.enabled⟩
    next.utility s
  executorEnd := do
    setWindow .closed
    next.executorEnd

/-- The extension as an interceptor. -/
def interceptor : Interceptor := ⟨extensionName, x.metadata, x.planning, statement x⟩

end Extension

end WhatIf
