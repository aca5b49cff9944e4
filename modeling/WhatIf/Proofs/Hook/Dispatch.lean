import WhatIf.Hook.Probe
import WhatIf.Proofs.Hook.Yields
import Mathlib.Logic.Basic
/-!
# Hook — a call on its way through the layers

The eleven points are called alike: `PointCall` names a call, and `dispatch`
makes it. Behind layers of interceptors the points are a fixed point, in which
every layer and the host are given the whole (`Host.behind_eq`). If each layer
passes a call on once, with work of its own around it, then the work before the
call is done from the first layer to the last, the host is called once, and the
work after the call is done from the last layer to the first
(`Host.dispatch_behind`). Layers without work of their own are not noticed
(`Host.behind_of_passes`).
-/

namespace WhatIf

/-- **A call of a point**, by the value it edits and what it answers. -/
inductive PointCall : Type → Type → Type where
  | partitionDesc (ctx : Context) (oid : Oid) : PointCall Unit (Option PartitionDesc)
  | partitionKey (ctx : Context) (oid : Oid) : PointCall Unit (Option PartitionKey)
  | hasSubclass (ctx : Context) (oid : Oid) : PointCall Unit Bool
  | inheritors (ctx : Context) (oid : Oid) : PointCall Unit (List Oid)
  | finishChild (ctx : Context) (parent child : Oid) : PointCall RangeEntry Unit
  | indexName (ctx : Context) (oid : Oid) : PointCall Unit (Option String)
  | relationInfo (ctx : Context) (oid : Oid) (inherits : Bool) : PointCall Scope Unit
  | relationPaths (ctx : Context) (entry : RangeIndex) : PointCall Scope Unit
  | expandChildren (ctx : Context) (parent : RangeIndex) (desc : Option PartitionDesc) :
    PointCall PlanState Unit
  | utility (s : PlannedStatement) : PointCall Running Unit
  | executorEnd : PointCall Running Unit

namespace Points

variable {s α : Type}

/-- Make a call. -/
def dispatch (p : Points) : PointCall s α → Edit s α
  | .partitionDesc ctx oid => p.metadata.partitionDesc ctx oid
  | .partitionKey ctx oid => p.metadata.partitionKey ctx oid
  | .hasSubclass ctx oid => p.metadata.hasSubclass ctx oid
  | .inheritors ctx oid => p.metadata.inheritors ctx oid
  | .finishChild ctx parent child => p.metadata.finishChild ctx parent child
  | .indexName ctx oid => p.metadata.indexName ctx oid
  | .relationInfo ctx oid inherits => p.planning.relationInfo ctx oid inherits
  | .relationPaths ctx entry => p.planning.relationPaths ctx entry
  | .expandChildren ctx parent desc => p.planning.expandChildren ctx parent desc
  | .utility s => p.statement.utility s
  | .executorEnd => p.statement.executorEnd

/-- Points are what they do when called. -/
theorem ext_dispatch {p q : Points}
    (h : ∀ (s α : Type) (c : PointCall s α), p.dispatch c = q.dispatch c) : p = q := by
  obtain ⟨⟨desc, key, sub, inh, fin, name⟩, ⟨info, paths, expand⟩, ⟨util, done⟩⟩ := p
  obtain ⟨⟨desc', key', sub', inh', fin', name'⟩, ⟨info', paths', expand'⟩, ⟨util', done'⟩⟩ := q
  obtain rfl : desc = desc' := funext₂ fun ctx oid => h _ _ (.partitionDesc ctx oid)
  obtain rfl : key = key' := funext₂ fun ctx oid => h _ _ (.partitionKey ctx oid)
  obtain rfl : sub = sub' := funext₂ fun ctx oid => h _ _ (.hasSubclass ctx oid)
  obtain rfl : inh = inh' := funext₂ fun ctx oid => h _ _ (.inheritors ctx oid)
  obtain rfl : fin = fin' := funext₃ fun ctx parent child => h _ _ (.finishChild ctx parent child)
  obtain rfl : name = name' := funext₂ fun ctx oid => h _ _ (.indexName ctx oid)
  obtain rfl : info = info' := funext₃ fun ctx oid b => h _ _ (.relationInfo ctx oid b)
  obtain rfl : paths = paths' := funext₂ fun ctx i => h _ _ (.relationPaths ctx i)
  obtain rfl : expand = expand' := funext₃ fun ctx i d => h _ _ (.expandChildren ctx i d)
  obtain rfl : util = util' := funext fun s => h _ _ (.utility s)
  obtain rfl : done = done' := h _ _ .executorEnd
  rfl

end Points

/-! ## One layer -/

namespace Interceptor

/-- The points over those under an interceptor, given those of the whole
stack. -/
def wrap (i : Interceptor) (whole next : Points) : Points :=
  ⟨i.metadata next.metadata, i.planning whole.metadata next.planning, i.statement next.statement⟩

/-- What is done around a call: something before it, which says what to do with
its answer. -/
abbrev Around : Type 1 := ∀ {s α : Type}, PointCall s α → Edit s (α → Edit s α)

/-- **An interceptor that delegates**: it passes each call on, once, between
what it does before and after. -/
def Delegates (i : Interceptor) (whole : Points) (around : Around) : Prop :=
  ∀ (next : Points) {s α : Type} (c : PointCall s α), (i.wrap whole next).dispatch c = do
    let after ← around c
    let answer ← next.dispatch c
    after answer

/-- **An interceptor that purely delegates** answers each call as the points
under it do. -/
def Passes (i : Interceptor) : Prop :=
  ∀ (whole next : Points) {s α : Type} (c : PointCall s α),
    (i.wrap whole next).dispatch c = next.dispatch c

variable {i : Interceptor}

theorem Passes.wrap_eq (h : i.Passes) (whole next : Points) : i.wrap whole next = next :=
  Points.ext_dispatch fun _ _ c => h whole next c

/-- **A call with the work of several layers around it**: what they do before it,
from the first layer to the last, then the call, once, then what they do after
it, from the last layer to the first. -/
def surround {ι s α : Type} (around : ι → Around) (items : List ι) (c : PointCall s α)
    (call : Edit s α) : Edit s α := do
  let afters ← items.mapM fun i => around i c
  let answer ← call
  afters.foldrM (fun after answer => after answer) answer

theorem surround_cons {ι s α : Type} {around : ι → Around} {item : ι} {items : List ι}
    {c : PointCall s α} {call : Edit s α} :
    surround around (item :: items) c call = (do
      let after ← around item c
      let answer ← surround around items c call
      after answer) := by
  unfold surround
  rw [List.mapM_cons]
  simp only [bind_assoc, pure_bind, List.foldrM_cons]

end Interceptor

/-! ## Probes -/

namespace Probe

variable {p : Probe}

/-- What a probe does around a call that it passes on. -/
def around (p : Probe) : Interceptor.Around
  | _, _, .partitionDesc _ oid => do
    p.enter .partitionDesc (.partitionDesc oid)
    pure pure
  | _, _, .partitionKey _ oid => do
    p.enter .partitionKey (.partitionKey oid)
    pure pure
  | _, _, .hasSubclass _ oid => do
    p.enter .hasSubclass (.hasSubclass oid)
    pure pure
  | _, _, .inheritors _ oid => do
    p.enter .inheritors (.inheritors oid)
    pure pure
  | _, _, .finishChild _ parent child => do
    p.enter .finishChild (.finishChild parent child)
    pure fun _ => Edit.change fun e => { e with label := e.label ++ p.suffix }
  | _, _, .indexName _ oid => do
    p.enter .indexName (.indexName oid)
    pure fun inner => pure (if p.tagsNames then some (p.name ++ ">" ++ inner.getD "") else inner)
  | _, _, .relationInfo _ oid inherits => do
    let scope ← Edit.value
    p.enter .relationInfo (.relationInfo oid inherits scope.rel.entry scope.rel.name)
    pure fun _ => Edit.change fun s => { s with rel := p.resize s.rel }
  | _, _, .relationPaths _ entry => do
    let scope ← Edit.value
    p.enter .relationPaths (.paths entry scope.rel.name scope.rel.paths.length scope.rel.rows)
    pure fun _ => do
      Edit.change fun s => { s with rel := p.strip s.rel }
      let scope ← Edit.value
      p.sight (.relation scope.rel)
  | _, _, .expandChildren _ parent desc => do
    p.enter .expandChildren (.expandChildren parent desc)
    pure pure
  | _, _, .utility _ => do
    let r ← Edit.value
    p.enter .utility (.utility r.context.id r.context.window.isActive r.task.statement)
    if p.opensWindow then
      Edit.change fun r => { r with context := { r.context with window := ⟨true, true⟩ } }
    pure pure
  | _, _, .executorEnd => do
    let r ← Edit.value
    p.enter .executorEnd (.executorEnd r.context.id r.context.window.isActive
      r.task.explain.isSome r.task.plan.isSome r.task.trace.isSome)
    pure pure

/-- **A probe that gives no answer of its own** delegates: it may note calls,
fail, and change what it is answered. -/
theorem delegates (hpartitions : p.partitions = none) (hsubclass : p.subclass = none)
    (hnames : p.hidesNames = false) (whole : Points) : p.interceptor.Delegates whole p.around := by
  intro next s α c
  cases c with
  | partitionDesc ctx oid =>
    show (do p.enter _ _; orNext (p.partitions.map some) _) = _
    rw [hpartitions]
    simp only [around, bind_assoc, pure_bind, bind_pure]
    rfl
  | hasSubclass ctx oid =>
    show (do p.enter _ _; orNext p.subclass _) = _
    rw [hsubclass]
    simp only [around, bind_assoc, pure_bind, bind_pure]
    rfl
  | indexName ctx oid =>
    show (do p.enter _ _; if p.hidesNames then _ else p.nameOf _) = _
    rw [hnames]
    simp only [around, bind_assoc, pure_bind]
    rfl
  | utility s =>
    simp only [around, bind_assoc]
    refine bind_congr fun r => bind_congr fun _ => ?_
    cases p.opensWindow with
    | false =>
      simp only [Bool.false_eq_true, if_false, pure_bind, bind_pure]
      rfl
    | true =>
      simp only [if_true, bind_assoc, pure_bind, bind_pure]
      rfl
  | _ =>
    simp only [around, bind_assoc, pure_bind, bind_pure]
    rfl

end Probe

/-! ## All layers -/

namespace Host

variable {h : Host} {layers : List Interceptor} {s α : Type}

/-- The points of the host, given those of the whole stack. -/
def within (h : Host) (whole : Points) : Points :=
  ⟨h.metadata, h.planning whole.metadata, h.statement whole.metadata whole.planning⟩

/-- Each group of points is wrapped layer by layer. -/
theorem foldr_wrap (whole next : Points) :
    layers.foldr (fun i next => i.wrap whole next) next =
      ⟨layers.foldr (fun i next => i.metadata next) next.metadata,
        layers.foldr (fun i next => i.planning whole.metadata next) next.planning,
        layers.foldr (fun i next => i.statement next) next.statement⟩ := by
  induction layers with
  | nil => rfl
  | cons i layers ih => rw [List.foldr_cons, ih]; rfl

/-- **The points behind layers** are the layers over the host, all of them given
these same points. -/
theorem behind_eq : h.behind layers =
    layers.foldr (fun i next => i.wrap (h.behind layers) next) (h.within (h.behind layers)) := by
  rw [foldr_wrap]
  rfl

/-- A call through layers that delegate, over any points. -/
theorem dispatch_foldr_wrap {ι : Type} {items : List ι} {resolve : ι → Interceptor}
    {around : ι → Interceptor.Around} {whole : Points}
    (hall : ∀ i ∈ items, (resolve i).Delegates whole (around i)) (next : Points)
    (c : PointCall s α) :
    ((items.map resolve).foldr (fun i next => i.wrap whole next) next).dispatch c =
      Interceptor.surround around items c (next.dispatch c) := by
  induction items with
  | nil =>
    unfold Interceptor.surround
    rw [List.mapM_nil, pure_bind]
    exact (bind_pure _).symm
  | cons i items ih =>
    rw [List.map_cons, List.foldr_cons, hall i List.mem_cons_self, Interceptor.surround_cons,
      ih fun j hj => hall j (List.mem_cons_of_mem _ hj)]

/-- **A call through layers that delegate** runs them from the first to the last,
then the host, once, and hands the answer back from the last to the first. -/
theorem dispatch_behind {ι : Type} {items : List ι} {resolve : ι → Interceptor}
    {around : ι → Interceptor.Around}
    (hall : ∀ i ∈ items, (resolve i).Delegates (h.behind (items.map resolve)) (around i))
    (c : PointCall s α) :
    (h.behind (items.map resolve)).dispatch c =
      Interceptor.surround around items c
        ((h.within (h.behind (items.map resolve))).dispatch c) := by
  rw [← dispatch_foldr_wrap hall, ← behind_eq]

/-- Points that are the host's own, given themselves, are those of the host
alone. -/
theorem eq_behind_nil {whole : Points} (hwhole : whole = h.within whole) :
    whole = h.behind [] := by
  obtain ⟨metadata, planning, statement⟩ := whole
  obtain ⟨hmetadata, hplanning, hstatement⟩ : metadata = h.metadata ∧
      planning = h.planning metadata ∧ statement = h.statement metadata planning :=
    Points.mk.inj hwhole
  rw [hstatement, hplanning, hmetadata]
  rfl

/-- **Layers that purely delegate** are not noticed. -/
theorem behind_of_passes (hall : ∀ i ∈ layers, i.Passes) : h.behind layers = h.behind [] := by
  have hover : ∀ whole next : Points,
      layers.foldr (fun i next => i.wrap whole next) next = next := by
    intro whole next
    induction layers with
    | nil => rfl
    | cons i layers ih =>
      rw [List.foldr_cons, ih fun j hj => hall j (List.mem_cons_of_mem _ hj),
        (hall i List.mem_cons_self).wrap_eq]
  exact eq_behind_nil (behind_eq.trans (hover _ _))

end Host

end WhatIf
