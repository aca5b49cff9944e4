import WhatIf.Hook.Points
import WhatIf.Catalog.Basic
import WhatIf.Constraint.Implication
import WhatIf.Cost
import WhatIf.Index.Size
/-!
# Plan — finding the cheapest plan

The relation of the query is planned first. If its children are read in its
place they are expanded, planned in turn and read one after the other, except
those that have no matching rows. Any other relation can be read in sequence,
or through each index that answers one of the restrictions: by its leading
key, unless the method needs no leading key.
-/

namespace WhatIf

open Decimal (ofCount greater)

/-! ## Base relations -/

namespace Candidate

/-- Whether an index answers a restriction as an index condition. -/
def answers (x : Candidate) (r : Restriction) : Bool :=
  x.keys.contains (some r.attnum) &&
    match r.test with
    | .compare op value =>
      !value.isNull &&
        match op with
        | .eq => true
        | .ne => false
        | _ => x.method.supportsRange
    | .isIn _ => x.method.canOrder
    | .isNull | .isNotNull => x.method != .hash

/-- Whether the conditions let an index be used: there is one, and one of
them is on the leading key unless the method needs none there. -/
def isUsableWith (x : Candidate) (conditions : List Restriction) : Bool :=
  !conditions.isEmpty &&
    (x.method == .brin || conditions.any fun r => some r.attnum == x.leading?)

end Candidate

namespace RelState

/-- A path of the relation with the given cost. -/
def headWith (rel : RelState) (cost : Cost) (filter : List Restriction) : PathHead :=
  ⟨rel.entry, rel.relid, rel.rows, cost.startup, cost.total, filter⟩

/-- A cost, raised if its kind of scan is not welcome. -/
def welcome (enabled : Bool) (cost : Cost) : Cost := if enabled then cost else cost.disabled

/-- The sequential scan of a relation. -/
def seqPath (s : Settings) (rel : RelState) : Path :=
  let cost := s.seqScanCost rel.pages rel.tuples rel.restrictions.length
  .seqScan (rel.headWith (welcome s.enableSeqScan cost) rel.restrictions)

/-- The scans of a relation through one index. -/
def indexPaths (s : Settings) (rel : RelState) (x : Candidate) : List Path :=
  let conditions := rel.restrictions.filter x.answers
  if (x.isPartial && !x.implied) || !x.isUsableWith conditions then []
  else
    let filter := rel.restrictions.filter fun r => !conditions.contains r
    let selectivity := Selectivity.ofAll conditions rel.columns
    let plain :=
      if x.method.hasGetTuple then
        let cost := s.indexScanCost x.pages x.tuples x.height rel.pages rel.tuples selectivity
          conditions.length filter.length
        [Path.indexScan (rel.headWith (welcome s.enableIndexScan cost) filter) x.oid conditions]
      else []
    let bitmap :=
      if x.method.hasGetBitmap then
        let lossy := if x.method = .brin then IndexSize.pagesPerRange else 1
        let cost := s.bitmapScanCost x.pages rel.pages rel.tuples selectivity lossy
          rel.restrictions.length
        [Path.bitmapScan (rel.headWith (welcome s.enableBitmapScan cost) filter) x.oid conditions]
      else []
    plain ++ bitmap

/-- The number of rows expected: at least one, and one where the estimate is
not finite. -/
def clampRows (rows : Float) : Float := if rows.isFinite then greater rows.round 1.0 else 1.0

/-- The relation with the scans its indexes and restrictions make possible. -/
def addBasePaths (s : Settings) (rel : RelState) : RelState :=
  let candidates := rel.candidates.map fun x =>
    { x with implied := !x.isPartial || Restriction.allImply rel.restrictions x.predicate }
  let rows := clampRows (rel.tuples * Selectivity.ofAll rel.restrictions rel.columns)
  let rel := { rel with candidates, rows }
  { rel with
    paths := rel.paths ++ rel.seqPath s :: rel.candidates.flatMap (rel.indexPaths s) }

/-- The relation read through the plans of its children, or known to have no
matching rows if there are none. -/
def addAppendPath (rel : RelState) (children : List Path) : RelState :=
  match children with
  | [] => rel.setDummy
  | first :: others =>
    let rows := others.foldl (fun n p => n + p.head.rows) first.head.rows
    let total := others.foldl (fun n p => n + p.head.total) first.head.total
    let rel := { rel with rows }
    rel.addPath (.append ⟨rel.entry, rel.relid, rows, first.head.startup, total, []⟩ children)

end RelState

/-! ## Whole queries -/

/-- A plan in the making. -/
structure Draft where
  /-- The range table. -/
  state : PlanState
  /-- The widths of the entries planned. -/
  widths : List (RangeIndex × Nat)
  /-- The child entries found to have no matching rows. -/
  pruned : List RangeIndex

namespace Draft

/-- Run a call on the range table and a relation, and answer with the
relation. -/
def onRel (x : Edit Scope Unit) (rel : RelState) : Edit Draft RelState := do
  let draft ← Edit.value
  let ((), scope) ← Edit.lend x ⟨draft.state, rel⟩
  Edit.change fun draft => { draft with state := scope.state }
  pure scope.rel

/-- The children of an entry, added to the range table first. -/
def expand (m : MetadataPoints) (p : PlanningPoints) (ctx : Context) (entry : RangeEntry)
    (i : RangeIndex) : Edit Draft (List RangeIndex) := do
  let desc ← Edit.ask (m.partitionDesc ctx entry.logicalId)
  Edit.zoom (fun draft : Draft => draft.state) (fun state draft => { draft with state })
    (p.expandChildren ctx i desc)
  let draft ← Edit.value
  pure (draft.state.childrenOf i)

/-- Note that an entry has been planned with rows of a given width. -/
def noteWidth (i : RangeIndex) (width : Nat) : Edit Draft Unit :=
  Edit.change fun draft => { draft with widths := Keyed.insert draft.widths i width }

/-- Note that an entry has no matching rows. -/
def notePruned (i : RangeIndex) : Edit Draft Unit :=
  Edit.change fun draft => { draft with pruned := draft.pruned ++ [i] }

/-- Plan an entry and, where its children are read in its place, the entries
below it, down to so many levels. -/
def planEntry (m : MetadataPoints) (p : PlanningPoints) (ctx : Context)
    (restrictions : List Restriction) : Nat → RangeIndex → Edit Draft Path
  | 0, _ => Edit.fail (.planning .tooDeep)
  | fuel + 1, i => do
    let draft ← Edit.value
    match draft.state.entry? i with
    | none => Edit.fail (.planning (.noEntry i))
    | some entry =>
      let rel ← onRel (p.relationInfo ctx entry.relid entry.inherits)
        (.blank i entry.relid entry.label restrictions)
      noteWidth i rel.width
      let rel ←
        if entry.inherits then do
          let children ← expand m p ctx entry i
          let paths ← children.mapM (planEntry m p ctx restrictions fuel)
          pure (rel.addAppendPath (paths.filter fun path => !path.isDummy))
        else do
          let draft ← Edit.value
          pure (rel.addBasePaths draft.state.settings)
      let rel ← onRel (p.relationPaths ctx i) rel
      if rel.isDummy && entry.parent.isSome then notePruned i
      match rel.cheapest? with
      | some path => pure path
      | none => Edit.fail (.planning (.noPath rel.name))

/-- How many levels of entries may be nested: as many as there are
identifiers. -/
def maxDepth : Nat := Oid.count

end Draft

namespace Query

/-- The conjuncts of a query bound to their columns. -/
def resolve (r : Relation) : List Qual → Except Error (List Restriction)
  | [] => .ok []
  | q :: rest =>
    match q.resolve? r with
    | none => .error (.planning (.unknownColumn r.name q.column))
    | some restriction => (resolve r rest).map fun restrictions => restriction :: restrictions

variable {σ : Type} [Catalog σ]

/-- Whether the children of a relation are read in its place. -/
def readsChildren (m : MetadataPoints) (ctx : Context) (q : Query) (r : Relation) : Ask Bool :=
  if q.only then pure false
  else if r.kind = .partitionedTable then pure true
  else m.hasSubclass ctx r.oid

/-- The relation of a query and its restrictions. -/
def bind (q : Query) (c : σ) : Except Error (Relation × List Restriction) :=
  match Catalog.relationNamed c q.relation with
  | .error e => .error (.catalog e)
  | .ok r => (resolve r q.quals).map fun restrictions => (r, restrictions)

/-- The cheapest plan of a query. -/
def plan (c : σ) (m : MetadataPoints) (p : PlanningPoints) (ctx : Context) (q : Query)
    (s : Settings) : Ask Plan := do
  let (r, restrictions) ← Edit.ofExcept (q.bind c)
  let inherits ← q.readsChildren m ctx r
  let (i, state) := (PlanState.ofSettings s).addEntry (.ofRelation r.oid r.kind r.name inherits)
  let (path, draft) ← Edit.lend (Draft.planEntry m p ctx restrictions Draft.maxDepth i)
    ⟨state, [], []⟩
  pure ⟨draft.state, path, draft.widths, draft.pruned⟩

end Query

end WhatIf
