import WhatIf.Hook.PhysicalHost
import WhatIf.Hook.Stack
import WhatIf.Catalog.Memory
import WhatIf.Proofs.Hook.Dispatch
/-!
# Hook — the discipline of the stack

A stack is used through calls that install and uninstall. In a run of calls from
the empty stack, the handles handed out rise, so no handle is used twice, and
those on the stack rise from its bottom to its top; on the stack are the layers
installed whose handles have not been uninstalled since. A layer is uninstalled if
and only if it is on top, and what is under it is then as it was when the layer
was installed; a refusal says whether the handle lies deeper or nowhere, and
leaves the stack as it is.
-/

namespace WhatIf

namespace Stack

variable {ι : Type}

/-- A call on a stack. -/
inductive Call (ι : Type) where
  | install (item : ι)
  | uninstall (handle : Handle)

/-- What a call on a stack answers. -/
inductive Answer (ι : Type) where
  | installed (handle : Handle)
  | uninstalled (item : ι)
  | refused (e : StackError)

/-- What a call answers, and the stack it leaves. -/
def perform (s : Stack ι) : Call ι → Answer ι × Stack ι
  | .install item =>
    let (handle, s) := s.install item
    (.installed handle, s)
  | .uninstall handle =>
    match s.uninstall handle with
    | .ok (item, s) => (.uninstalled item, s)
    | .error e => (.refused e, s)

/-- **A run of calls** from the empty stack, each with its answer. -/
inductive Run : List (Call ι × Answer ι) → Stack ι → Prop
  | start : Run [] .empty
  | step {log : List (Call ι × Answer ι)} {s : Stack ι} (call : Call ι) :
    Run log s → Run (log ++ [(call, (s.perform call).1)]) (s.perform call).2

/-- The handle a call hands out, if it installs. -/
def Answer.handle? : Answer ι → Option Handle
  | installed handle => some handle
  | _ => none

/-- The handles handed out in a run, in order. -/
def issued (log : List (Call ι × Answer ι)) : List Handle :=
  log.filterMap fun entry => entry.2.handle?

variable {s : Stack ι} {log : List (Call ι × Answer ι)} {handle : Handle}

/-! ## One call -/

/-- **The three ways to uninstall**: the layer on top has the handle, a deeper
one has, or none has. -/
theorem perform_uninstall_cases (s : Stack ι) (handle : Handle) :
    (∃ item rest, s.layers = ⟨handle, item⟩ :: rest ∧
      s.perform (.uninstall handle) = (.uninstalled item, ⟨rest, s.next⟩)) ∨
    (∃ top rest, s.layers = top :: rest ∧ top.handle ≠ handle ∧ (∃ l ∈ rest, l.handle = handle) ∧
      s.perform (.uninstall handle) = (.refused (.outOfOrder handle top.handle), s)) ∨
    ((∀ l ∈ s.layers, l.handle ≠ handle) ∧
      s.perform (.uninstall handle) = (.refused (.unknownHandle handle), s)) := by
  obtain ⟨layers, next⟩ := s
  rcases layers with _ | ⟨top, rest⟩
  · exact Or.inr (Or.inr ⟨fun l hl => (nomatch hl), rfl⟩)
  by_cases htop : top.handle = handle
  · subst htop
    refine Or.inl ⟨top.item, rest, rfl, ?_⟩
    simp [perform, uninstall]
  by_cases hdeep : ∃ l ∈ rest, l.handle = handle
  · refine Or.inr (Or.inl ⟨top, rest, rfl, htop, hdeep, ?_⟩)
    simp [perform, uninstall, htop, hdeep]
  · refine Or.inr (Or.inr ⟨?_, ?_⟩)
    · rintro l (_ | ⟨_, hl⟩)
      · exact htop
      · exact fun heq => hdeep ⟨l, hl, heq⟩
    · simp [perform, uninstall, htop, hdeep]

/-! ## Runs -/

theorem issued_append (call : Call ι) (answer : Answer ι) :
    issued (log ++ [(call, answer)]) = issued log ++ answer.handle?.toList := by
  rw [issued, issued, List.filterMap_append]
  cases answer <;> rfl

/-- **That a layer was installed over some layers** in a run. -/
def InstalledOver (log : List (Call ι × Answer ι)) (l : Layer ι) (under : List (Layer ι)) : Prop :=
  ∃ before s₀ after, log = before ++ (.install l.item, .installed l.handle) :: after ∧
    Run before s₀ ∧ s₀.layers = under

theorem InstalledOver.append {l : Layer ι} {under : List (Layer ι)}
    (h : InstalledOver log l under) (more : List (Call ι × Answer ι)) :
    InstalledOver (log ++ more) l under := by
  obtain ⟨before, s₀, after, rfl, hbefore⟩ := h
  exact ⟨before, s₀, after ++ more, by rw [List.append_assoc, List.cons_append], hbefore⟩

theorem InstalledOver.mem_issued {l : Layer ι} {under : List (Layer ι)}
    (h : InstalledOver log l under) : l.handle ∈ issued log := by
  obtain ⟨before, s₀, after, rfl, -, -⟩ := h
  exact List.mem_filterMap.2 ⟨_, List.mem_append_right _ List.mem_cons_self, rfl⟩

/-- **That a layer is held** after a run: it was installed, and its handle has not
been uninstalled since. -/
def Held (log : List (Call ι × Answer ι)) (l : Layer ι) : Prop :=
  ∃ before after, log = before ++ (.install l.item, .installed l.handle) :: after ∧
    ∀ item, (.uninstall l.handle, .uninstalled item) ∉ after

/-- One more call installs a layer, or keeps the layers whose handles it does not
uninstall. -/
theorem held_append {l : Layer ι} {entry : Call ι × Answer ι} :
    Held (log ++ [entry]) l ↔ entry = (.install l.item, .installed l.handle) ∨
      Held log l ∧ ∀ item, entry ≠ (.uninstall l.handle, .uninstalled item) := by
  constructor
  · rintro ⟨before, after, heq, hkept⟩
    rcases after.eq_nil_or_concat with rfl | ⟨after, last, rfl⟩
    · obtain ⟨-, hentry⟩ := List.append_inj' heq rfl
      exact Or.inl (List.cons.inj hentry).1
    · rw [List.concat_eq_append] at heq hkept
      rw [← List.cons_append, ← List.append_assoc] at heq
      obtain ⟨hlog, hentry⟩ := List.append_inj' heq rfl
      obtain rfl := (List.cons.inj hentry).1
      refine Or.inr ⟨⟨before, after, hlog, fun item hmem => ?_⟩, fun item heq => ?_⟩
      · exact hkept item (List.mem_append_left _ hmem)
      · exact hkept item (List.mem_append_right _ (List.mem_singleton.2 heq.symm))
  · rintro (rfl | ⟨⟨before, after, rfl, hkept⟩, hentry⟩)
    · exact ⟨log, [], rfl, fun _ => List.not_mem_nil⟩
    · refine ⟨before, after ++ [entry], by rw [List.append_assoc, List.cons_append], ?_⟩
      intro item hmem
      rcases List.mem_append.1 hmem with hmem | hmem
      · exact hkept item hmem
      · exact hentry item (List.mem_singleton.1 hmem).symm

/-- **What every call keeps**: handles rise in the order in which they are handed
out and from the bottom of the stack to its top, what lies under a layer is what
was there when the layer was installed, and on the stack are the layers held. -/
structure Kept (log : List (Call ι × Answer ι)) (s : Stack ι) : Prop where
  issued : (issued log).Pairwise fun a b => a.number < b.number
  behind : ∀ handle ∈ Stack.issued log, handle.number < s.next
  rising : s.layers.Pairwise fun a b => b.handle.number < a.handle.number
  origin : ∀ above l under, s.layers = above ++ l :: under → InstalledOver log l under
  mem_iff : ∀ l, l ∈ s.layers ↔ Held log l

namespace Kept

/-- The handles on the stack were handed out. -/
theorem mem_issued (h : Kept log s) {l : Layer ι} (hl : l ∈ s.layers) :
    l.handle ∈ Stack.issued log := by
  obtain ⟨above, under, heq⟩ := List.append_of_mem hl
  exact (h.origin above l under heq).mem_issued

/-- Nothing on the stack has two handles, or a handle twice. -/
theorem handle_ne (h : Kept log s) {top : Layer ι} {rest : List (Layer ι)}
    (hs : s.layers = top :: rest) {l : Layer ι} (hl : l ∈ rest) : top.handle ≠ l.handle := by
  have hrising := h.rising
  rw [hs] at hrising
  have hlt : l.handle.number < top.handle.number := List.rel_of_pairwise_cons hrising hl
  exact fun heq => absurd (congrArg Handle.number heq) (Nat.ne_of_gt hlt)

/-- A layer on top. -/
theorem install (h : Kept log s) (hrun : Run log s) (item : ι) :
    Kept (log ++ [(.install item, (s.perform (.install item)).1)])
      (s.perform (.install item)).2 where
  issued := by
    rw [issued_append]
    refine List.pairwise_append.2 ⟨h.issued, List.pairwise_singleton _ _, fun a ha b hb => ?_⟩
    rw [List.mem_singleton.1 hb]
    exact h.behind a ha
  behind handle hmem := by
    rw [issued_append] at hmem
    rcases List.mem_append.1 hmem with hmem | hmem
    · exact Nat.lt_succ_of_lt (h.behind handle hmem)
    · rw [List.mem_singleton.1 hmem]
      exact Nat.lt_succ_self _
  rising := List.pairwise_cons.2 ⟨fun l hl => h.behind _ (h.mem_issued hl), h.rising⟩
  origin above l under heq := by
    rcases above with _ | ⟨_, above⟩
    · obtain ⟨rfl, rfl⟩ := List.cons.inj heq
      exact ⟨log, s, [], rfl, hrun, rfl⟩
    · exact (h.origin above l under (List.cons.inj heq).2).append _
  mem_iff l := by
    have hentry : ((.install item, .installed ⟨s.next⟩) : Call ι × Answer ι) =
        (.install l.item, .installed l.handle) ↔ l = ⟨⟨s.next⟩, item⟩ := by
      refine ⟨fun heq => ?_, fun heq => heq ▸ rfl⟩
      obtain ⟨hcall, hanswer⟩ := Prod.mk.inj heq
      cases l
      rw [Call.install.inj hcall, Answer.installed.inj hanswer]
    rw [held_append, ← h.mem_iff]
    exact List.mem_cons.trans (or_congr hentry.symm
      (and_iff_left fun _ heq => nomatch (Prod.mk.inj heq).1).symm)

/-- Fewer layers, or all of them. -/
theorem shrink (h : Kept log s) (s' : Stack ι) (above : List (Layer ι))
    (hlayers : s.layers = above ++ s'.layers) (hnext : s'.next = s.next) (call : Call ι)
    {answer : Answer ι} (hanswer : answer.handle? = none)
    (hheld : ∀ l ∈ s.layers,
      l ∈ s'.layers ↔ ∀ item, (call, answer) ≠ (.uninstall l.handle, .uninstalled item)) :
    Kept (log ++ [(call, answer)]) s' where
  issued := by
    rw [issued_append, hanswer]
    exact (List.append_nil _).symm ▸ h.issued
  behind handle hmem := by
    rw [issued_append, hanswer] at hmem
    rw [hnext]
    exact h.behind handle (by simpa using hmem)
  rising := (List.pairwise_append.1 (hlayers ▸ h.rising)).2.1
  origin above' l under heq :=
    (h.origin (above ++ above') l under (by rw [hlayers, heq, List.append_assoc])).append _
  mem_iff l := by
    have hinstalls : (call, answer) ≠ (.install l.item, .installed l.handle) := by
      intro heq
      rw [(Prod.mk.inj heq).2] at hanswer
      cases hanswer
    rw [held_append, or_iff_right hinstalls, ← h.mem_iff]
    have hsub : l ∈ s'.layers → l ∈ s.layers := fun hl =>
      hlayers ▸ List.mem_append_right above hl
    exact ⟨fun hl => ⟨hsub hl, (hheld l (hsub hl)).1 hl⟩, fun hl => (hheld l hl.1).2 hl.2⟩

/-- A refusal. -/
theorem refuse (h : Kept log s) (handle : Handle) (e : StackError) :
    Kept (log ++ [(.uninstall handle, .refused e)]) s :=
  h.shrink s [] rfl rfl _ rfl fun _ hl => iff_of_true hl fun _ heq => nomatch (Prod.mk.inj heq).2

/-- A layer less. -/
theorem uninstall (h : Kept log s) {item : ι} {rest : List (Layer ι)}
    (hlayers : s.layers = ⟨handle, item⟩ :: rest) :
    Kept (log ++ [(.uninstall handle, .uninstalled item)]) ⟨rest, s.next⟩ := by
  refine h.shrink ⟨rest, s.next⟩ [⟨handle, item⟩] hlayers rfl _ rfl fun l hl => ?_
  rcases List.mem_cons.1 (hlayers ▸ hl) with rfl | hrest
  · exact iff_of_false (fun hmem => h.handle_ne hlayers hmem rfl) fun hall => hall item rfl
  · refine iff_of_true hrest fun _ heq => h.handle_ne hlayers hrest ?_
    cases heq
    rfl

end Kept

/-- **A run keeps** what its calls keep. -/
theorem Run.kept (h : Run log s) : Kept log s := by
  induction h with
  | start =>
    refine ⟨.nil, fun _ hmem => (nomatch hmem), .nil, fun above l rest heq => ?_, fun l => ?_⟩
    · cases above <;> cases heq
    · exact iff_of_false List.not_mem_nil fun ⟨before, _, heq, _⟩ => by cases before <;> cases heq
  | @step log s call hrun ih =>
    cases call with
    | install item => exact ih.install hrun item
    | uninstall handle =>
      rcases s.perform_uninstall_cases handle with ⟨item, rest, hlayers, hperform⟩ |
        ⟨top, rest, -, -, -, hperform⟩ | ⟨-, hperform⟩
      · rw [hperform]
        exact ih.uninstall hlayers
      · rw [hperform]
        exact ih.refuse _ _
      · rw [hperform]
        exact ih.refuse _ _

/-! ## Uninstalling -/

/-- **What uninstalling a handle comes to** after a run. It succeeds if and only
if the handle is on top, and then leaves what was there when the layer was
installed; it is out of order if and only if the handle lies deeper, and unknown
if and only if the handle is not there. -/
structure Uninstalls (log : List (Call ι × Answer ι)) (s : Stack ι) (handle : Handle) : Prop where
  succeeds_iff : (∃ item, (s.perform (.uninstall handle)).1 = .uninstalled item) ↔
    s.layers.head?.map Layer.handle = some handle
  restores : ∀ item s', s.perform (.uninstall handle) = (.uninstalled item, s') →
    s.layers = ⟨handle, item⟩ :: s'.layers ∧ InstalledOver log ⟨handle, item⟩ s'.layers
  outOfOrder_iff : ∀ top, s.perform (.uninstall handle) = (.refused (.outOfOrder handle top), s) ↔
    s.layers.head?.map Layer.handle = some top ∧ handle ∈ s.layers.tail.map Layer.handle
  unknown_iff : s.perform (.uninstall handle) = (.refused (.unknownHandle handle), s) ↔
    handle ∉ s.layers.map Layer.handle

theorem Kept.uninstalls (h : Kept log s) (handle : Handle) : s.Uninstalls log handle := by
  rcases s.perform_uninstall_cases handle with ⟨item, rest, hlayers, hperform⟩ |
    ⟨top, rest, hlayers, hne, ⟨l, hl, rfl⟩, hperform⟩ | ⟨hnone, hperform⟩
  · -- on top: not deeper too, since handles differ
    have hdeep : handle ∉ rest.map Layer.handle := by
      intro hmem
      obtain ⟨l, hl, heq⟩ := List.mem_map.1 hmem
      exact h.handle_ne hlayers hl heq.symm
    refine ⟨?_, ?_, ?_, ?_⟩
    · simp [hperform, hlayers]
    · rw [hperform]
      rintro item' s' ⟨⟩
      exact ⟨hlayers, h.origin [] ⟨handle, item⟩ rest hlayers⟩
    · simp [hperform, hlayers, hdeep]
    · simp [hperform, hlayers]
  · have hmem : l.handle ∈ rest.map Layer.handle := List.mem_map_of_mem hl
    refine ⟨?_, ?_, ?_, ?_⟩
    · simp [hperform, hlayers, hne]
    · simp [hperform]
    · simp [hperform, hlayers, hmem]
    · simp [hperform, hlayers, hmem]
  · have hnot : handle ∉ s.layers.map Layer.handle := by
      intro hmem
      obtain ⟨l, hl, heq⟩ := List.mem_map.1 hmem
      exact hnone l hl heq
    have hhead : s.layers.head?.map Layer.handle ≠ some handle := by
      intro hhead
      obtain ⟨l, hl, heq⟩ := Option.map_eq_some_iff.1 hhead
      exact hnone l (List.mem_of_head? hl) heq
    have htail : handle ∉ s.layers.tail.map Layer.handle := by
      intro hmem
      obtain ⟨l, hl, heq⟩ := List.mem_map.1 hmem
      exact hnone l (List.mem_of_mem_tail hl) heq
    refine ⟨?_, ?_, ?_, ?_⟩
    · simp [hperform, hhead]
    · simp [hperform]
    · exact fun top => ⟨fun heq => by simp [hperform] at heq, fun h => absurd h.2 htail⟩
    · simp only [hperform, hnot, not_false_eq_true]

/-! ## The discipline -/

/-- **The discipline of the stack.** After any calls that install and uninstall,
the handles handed out have risen, so none was used twice, and those on the stack
rise from its bottom to its top and are those of the layers installed and not
uninstalled since; uninstalling a handle succeeds, is out of order or does not know
the handle as `Uninstalls` says. A call of any point, made over any host, runs the
interceptors on the stack from the most recent to the oldest and then the host,
once, if all of them delegate; and if they do nothing else, it is answered as by
the host alone. -/
theorem Run.discipline (h : Run log s) :
    (issued log).Pairwise (fun a b => a.number < b.number) ∧
      s.layers.Pairwise (fun above below => below.handle.number < above.handle.number) ∧
      (∀ l, l ∈ s.layers ↔ Held log l) ∧
      (∀ handle, s.Uninstalls log handle) ∧
      ∀ (host : Host) (resolve : ι → Interceptor),
        (∀ around : ι → Interceptor.Around,
          (∀ item ∈ s.items,
            (resolve item).Delegates (host.behind (s.items.map resolve)) (around item)) →
          ∀ {t α : Type} (c : PointCall t α), (host.behind (s.items.map resolve)).dispatch c =
            Interceptor.surround around s.items c
              ((host.within (host.behind (s.items.map resolve))).dispatch c)) ∧
        ((∀ item ∈ s.items, (resolve item).Passes) →
          host.behind (s.items.map resolve) = host.behind []) := by
  have hkept := h.kept
  refine ⟨hkept.issued, hkept.rising, hkept.mem_iff, hkept.uninstalls,
    fun host resolve => ⟨?_, ?_⟩⟩
  · exact fun around hall t α c => Host.dispatch_behind hall c
  · intro hall
    refine Host.behind_of_passes fun i hi => ?_
    obtain ⟨item, hitem, rfl⟩ := List.mem_map.1 hi
    exact hall item hitem

/-- The run of some calls, and the stack it leaves. -/
def replay (calls : List (Call ι)) : List (Call ι × Answer ι) × Stack ι :=
  calls.foldl (fun (log, s) call => (log ++ [(call, (s.perform call).1)], (s.perform call).2))
    ([], .empty)

/-- Any calls make a run. -/
theorem run_replay (calls : List (Call ι)) : Run (replay calls).1 (replay calls).2 := by
  have hfold : ∀ (log : List (Call ι × Answer ι)) (s : Stack ι), Run log s →
      let (log, s) := calls.foldl
        (fun (log, s) call => (log ++ [(call, (s.perform call).1)], (s.perform call).2)) (log, s)
      Run log s := by
    induction calls with
    | nil => exact fun _ _ h => h
    | cons call calls ih => exact fun _ _ h => ih _ _ (h.step call)
  exact hfold [] .empty .start

/-- A probe that puts its name before the names of indexes, and notes what it
sees. -/
def tagger (name : String) : Probe :=
  ⟨name, true, [], false, none, none, false, true, none, none, none, none, ""⟩

/-- Two probes that stay, one that goes, and a handle asked back too early. -/
def taggerCalls : List (Call Probe) :=
  [.install (tagger "a"), .install (tagger "b"), .uninstall ⟨1⟩, .install (tagger "c"),
    .uninstall ⟨3⟩]

/-- The stack they leave. -/
def taggers : Stack Probe := (replay taggerCalls).2

theorem discipline_taggers :
    taggers.layers.map (fun l => (l.handle.number, l.item.name)) = [(2, "b"), (1, "a")] ∧
      (∀ l, l ∈ taggers.layers ↔ Held (replay taggerCalls).1 l) ∧
      (∀ handle, taggers.Uninstalls (replay taggerCalls).1 handle) ∧
      ((PhysicalHost.host MemoryCatalog.empty).behind
        (taggers.items.map Probe.interceptor)).dispatch (.indexName (.start 1) ⟨7⟩) ((), []) =
          (.ok (some "b>a>"), (),
            [⟨"b", .indexName ⟨7⟩⟩, ⟨"a", .indexName ⟨7⟩⟩]) := by
  obtain ⟨-, -, hheld, huninstalls, hdispatch⟩ := (run_replay taggerCalls).discipline
  obtain ⟨hthrough, -⟩ := hdispatch (PhysicalHost.host MemoryCatalog.empty) Probe.interceptor
  refine ⟨rfl, hheld, huninstalls, ?_⟩
  rw [taggers, hthrough Probe.around]
  · rfl
  · have hall : ∀ p ∈ [tagger "b", tagger "a"], p.interceptor.Delegates
        ((PhysicalHost.host MemoryCatalog.empty).behind (taggers.items.map Probe.interceptor))
        p.around :=
      List.forall_mem_cons.2 ⟨Probe.delegates rfl rfl rfl _,
        List.forall_mem_singleton.2 (Probe.delegates rfl rfl rfl _)⟩
    exact hall

end Stack

end WhatIf
