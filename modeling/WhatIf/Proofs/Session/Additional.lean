import WhatIf.Proofs.Plan.Enforced
import WhatIf.Proofs.Session.Outcome
import WhatIf.Proofs.Shadow.Additional
/-!
# Session — one hypothetical index more

An `EXPLAIN` that only plans is run before an index is registered, after it, and
after it was dropped again. The three answers are compared as a whole: they fail
alike; the index changes nothing in the plan but scans that go through it, and
what these cost; and without it the plan is what it was.
-/

namespace WhatIf

variable {ι σ : Type} [Catalog σ]

namespace Session

/-- **Two statements answer alike**: both fail with one error, or both have a plan,
such that `R`. -/
inductive AnswerAlike (R : Plan → Plan → Prop) :
    Except Error StatementResult → Except Error StatementResult → Prop
  | error {e : Error} : AnswerAlike R (.error e) (.error e)
  | ok {r r' : StatementResult} {p p' : Plan} (hp : r.plan = some p) (hp' : r'.plan = some p')
    (h : R p p') : AnswerAlike R (.ok r) (.ok r')

namespace AnswerAlike

variable {R R' : Plan → Plan → Prop} {a a' : Except Error StatementResult}

theorem imp (h : AnswerAlike R a a') (hR : ∀ p p', R p p' → R' p p') : AnswerAlike R' a a' := by
  cases h with
  | error => exact .error
  | ok hp hp' h => exact .ok hp hp' (hR _ _ h)

/-- Two answers are alike if one error kept both from having a plan, -/
theorem of_error {error : Error} (ha : a.map (fun r => r.plan) = .error error)
    (ha' : a'.map (fun r => r.plan) = .error error) : AnswerAlike R a a' := by
  rcases a with e | r
  · rcases a' with e' | r'
    · obtain rfl := Except.error.inj ha
      obtain rfl := Except.error.inj ha'
      exact .error
    · cases ha'
  · cases ha

/-- and if planning ended alike. -/
theorem of_endAlike {planned planned' : Except Error Plan × Unit × Journal}
    (h : Edit.EndAlike (fun p _ p' _ => R p p') planned planned')
    (ha : a.map (fun r => r.plan) = planned.1.map some)
    (ha' : a'.map (fun r => r.plan) = planned'.1.map some) : AnswerAlike R a a' := by
  cases h with
  | ok h =>
    rcases a with _ | r
    · cases ha
    rcases a' with _ | r'
    · cases ha'
    exact .ok (Except.ok.inj ha) (Except.ok.inj ha') h
  | error => exact of_error ha ha'

end AnswerAlike

variable {x y : Extension} {c c' : σ} {s s' : Session ι} {resolve resolve' : ι → Interceptor}
variable {new : Oid → Prop} {e : Explain}

/-- **An `EXPLAIN` over some indexes more** fails as without them, or its plan
differs by them alone. -/
theorem explain_gains (hgains : x.registry.Gains new y.registry) (henabled : y.enabled = x.enabled)
    (hlookups : Catalog.SameLookups c c') (hs : s.RunsOver resolve x) (hs' : s'.RunsOver resolve' y)
    (hsettings : s'.settings = s.settings) (honly : e.option? "analyze" = none) (j : Journal) :
    AnswerAlike (Plan.DiffersBy new) (s.execute c resolve (.utility (.explain e)) j).1
      (s'.execute c' resolve' (.utility (.explain e)) j).1 := by
  have hbefore := @execute_planOnly ι σ _ x c s resolve e hs honly j
  have hafter := @execute_planOnly ι σ _ y c' s' resolve' e hs' honly j
  have hwindow : (y.opening (.start (s'.statements + 1))
      (.ofStatement (.utility (.explain e)))).window =
        (x.opening (.start (s.statements + 1)) (.ofStatement (.utility (.explain e)))).window :=
    congrArg (Window.mk _) henabled
  have hplanned := Extension.plan_gains hgains hwindow hlookups e.query s.settings j
  -- the options are read before anything is planned, and are the same
  unfold planned at hbefore hafter
  rw [hsettings] at hafter
  rcases hchoice : e.choice with error | choice
  · rw [hchoice] at hbefore hafter
    exact .of_error hbefore hafter
  · rw [hchoice] at hbefore hafter
    exact .of_endAlike hplanned hbefore hafter

/-- **One more hypothetical index perturbs nothing but the scans that use it.**
After whatever calls, let an index be registered, and take an `EXPLAIN` that only
plans. Before and after the registration it fails with the same error, or both
times it has a plan. The plans have the same range table, widths and pruned
entries, and paths of one shape whose scans are the same or go through the new
index; without such a scan they are one plan. Dropped again, the index leaves
the answer there was before. -/
theorem explain_registered (hlend : Catalog.LendsOnly σ) (hreached : x.Reached σ)
    {relid oid : Oid} {spec : IndexSpec}
    (hregistered : x.registerIndex c relid spec = (.ok oid, y, c')) {s s' s'' : Session ι}
    {resolve resolve' resolve'' : ι → Interceptor} (hs : s.RunsOver resolve x)
    (hs' : s'.RunsOver resolve' y) (hs'' : s''.RunsOver resolve'' (y.dropIndex oid).2)
    (hsettings : s'.settings = s.settings) (hsettings' : s''.settings = s.settings)
    (honly : e.option? "analyze" = none) (j : Journal) :
    AnswerAlike (fun p p' => p.DiffersBy (· = oid) p' ∧ (oid ∉ p'.path.indexes → p' = p))
      (s.execute c resolve (.utility (.explain e)) j).1
      (s'.execute c' resolve' (.utility (.explain e)) j).1 ∧
    (y.dropIndex oid).1 = true ∧
      AnswerAlike (fun p p'' => p'' = p) (s.execute c resolve (.utility (.explain e)) j).1
        (s''.execute c' resolve'' (.utility (.explain e)) j).1 := by
  obtain ⟨hgains, henabled, hfound, hback, henabled'⟩ := hreached.registered hregistered
  have hlookups : Catalog.SameLookups c c' := by
    have hkept := hlend.registerIndex x c relid spec
    rw [hregistered] at hkept
    exact hkept
  have hafter := explain_gains hgains henabled hlookups hs hs' hsettings honly j
  have hdropped := explain_gains hback henabled' hlookups hs hs'' hsettings' honly j
  refine ⟨hafter.imp fun p p' h => ⟨h, fun hunused => ?_⟩, hfound, hdropped.imp fun p p'' h => ?_⟩
  · exact h.eq_of_unused fun o ho heq => hunused (heq ▸ ho)
  · exact h.eq_of_unused fun _ _ => id

/-- The catalog of `orders` once it has lent an identifier. -/
def ordersLent : MemoryCatalog := { Extension.ordersCatalog with next := ⟨16401⟩ }

/-- A session over an extension, in which sequential scans are not welcome. -/
def unsequencedSession : Session Unit := ((withSettings Extension.unsequenced).install ()).2

/-- What it answers to an `EXPLAIN` of the rows of `orders` whose `id` is 5. -/
def explainFive (c : MemoryCatalog) (x : Extension) : Except Error StatementResult :=
  (unsequencedSession.execute c (fun _ => x.interceptor) (.explain Extension.ordersFive []) []).1

/-- The index used by the plan of an answer, if it has one. -/
def usedIndex (answer : Except Error StatementResult) : Option (Option Oid) :=
  match answer with
  | .ok r => r.plan.map fun p => p.path.index?
  | .error _ => none

theorem explain_registered_ordersFive :
    usedIndex (explainFive Extension.ordersCatalog (.fresh true)) = some none ∧
    usedIndex (explainFive ordersLent Extension.ordersRanged) = some (some ⟨16400⟩) ∧
    AnswerAlike (fun p p' => p.DiffersBy (· = ⟨16400⟩) p' ∧ (⟨16400⟩ ∉ p'.path.indexes → p' = p))
      (explainFive Extension.ordersCatalog (.fresh true))
      (explainFive ordersLent Extension.ordersRanged) ∧
    AnswerAlike (fun p p'' => p'' = p) (explainFive Extension.ordersCatalog (.fresh true))
      (explainFive ordersLent (Extension.ordersRanged.dropIndex ⟨16400⟩).2) := by
  have hregistered : (Extension.fresh true).registerIndex Extension.ordersCatalog
      Extension.orders.oid ((IndexSpec.onColumns .brin ["id"]).addQual "id" (.compare .gt (.int 0))) =
        (.ok ⟨16400⟩, Extension.ordersRanged, ordersLent) := by rfl
  have hs : ∀ x : Extension, unsequencedSession.RunsOver (fun _ => x.interceptor) x :=
    fun x => ⟨(), rfl, rfl⟩
  have honly : (Explain.mk Extension.ordersFive []).option? "analyze" = none := rfl
  obtain ⟨hafter, -, hdropped⟩ := explain_registered MemoryCatalog.lendsOnly (.fresh true)
    hregistered (hs _) (hs _) (hs _) rfl rfl honly []
  exact ⟨by decide +kernel, by decide +kernel, hafter, hdropped⟩

end Session

end WhatIf
