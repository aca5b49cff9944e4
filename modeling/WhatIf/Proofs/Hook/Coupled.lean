import WhatIf.Proofs.Hook.Yields
import Mathlib.Data.List.Forall2
/-!
# Hook — two calls side by side

`Coupled` is `Yields` for two calls at once: from given values and one journal,
either both calls answer, and what they answer and leave is in a given relation,
or both fail with the same error; the journals they leave are the same. One rule
for each primitive and for each way to put calls together. A call is coupled
with itself, so that only the steps in which two runs differ need an argument.
-/

namespace WhatIf

namespace Edit

variable {s s' t t' α β γ δ : Type}

/-- **Two calls end alike**: both answer, such that `Q`, or both fail with one
error. -/
inductive EndAlike (Q : α → s → β → t → Prop) :
    Except Error α × s × Journal → Except Error β × t × Journal → Prop
  | ok {a : α} {v : s} {b : β} {w : t} {j : Journal} (h : Q a v b w) :
    EndAlike Q (.ok a, (v, j)) (.ok b, (w, j))
  | error {e : Error} {v : s} {w : t} {j : Journal} :
    EndAlike Q (.error e, (v, j)) (.error e, (w, j))

/-- **What two calls do side by side**: whatever the journal, they end alike. -/
def Coupled (x : Edit s α) (v : s) (y : Edit t β) (w : t) (Q : α → s → β → t → Prop) : Prop :=
  ∀ j, EndAlike Q (x (v, j)) (y (w, j))

variable {x : Edit s α} {y : Edit t β} {v : s} {w : t}

namespace Coupled

/-- What follows from the answers and the values left. -/
theorem imp {Q Q' : α → s → β → t → Prop} (h : Coupled x v y w Q)
    (hQ : ∀ a v b w, Q a v b w → Q' a v b w) : Coupled x v y w Q' := by
  intro j
  have hxy := h j
  generalize x (v, j) = r at hxy ⊢
  generalize y (w, j) = r' at hxy ⊢
  cases hxy with
  | ok h => exact .ok (hQ _ _ _ _ h)
  | error => exact .error

/-- **A call beside itself**, with what it is known to do. -/
theorem of_yields {P : α → s → Prop} {E : Error → Prop} {Q : α → s → α → s → Prop}
    (h : Yields x v P E) (hQ : ∀ a u, P a u → Q a u a u) : Coupled x v x v Q := by
  intro j
  have hx := h j
  generalize x (v, j) = r at hx ⊢
  rcases r with ⟨e | a, v', j'⟩
  · exact .error
  · exact .ok (hQ a v' hx)

/-- The same with nothing known. -/
theorem refl {Q : α → s → α → s → Prop} (hQ : ∀ a u, Q a u a u) : Coupled x v x v Q :=
  of_yields .any fun a u _ => hQ a u

/-! ## Primitives -/

theorem pure {a : α} {b : β} {Q : α → s → β → t → Prop} (h : Q a v b w) :
    Coupled (Pure.pure a : Edit s α) v (Pure.pure b : Edit t β) w Q := fun _ => .ok h

theorem value {Q : s → s → t → t → Prop} (h : Q v v w w) :
    Coupled Edit.value v Edit.value w Q := fun _ => .ok h

theorem change {f : s → s} {g : t → t} {Q : Unit → s → Unit → t → Prop} (h : Q () (f v) () (g w)) :
    Coupled (Edit.change f) v (Edit.change g) w Q := fun _ => .ok h

theorem fail {e : Error} {Q : α → s → β → t → Prop} :
    Coupled (Edit.fail e) v (Edit.fail e) w Q := fun _ => .error

/-! ## Calls put together -/

/-- **One call after another**, on both sides. -/
theorem bind {f : α → Edit s γ} {g : β → Edit t δ} {Q : γ → s → δ → t → Prop}
    (h : Coupled x v y w fun a v b w => Coupled (f a) v (g b) w Q) :
    Coupled (x >>= f) v (y >>= g) w Q := by
  intro j
  have hxy := h j
  rw [bind_apply, bind_apply]
  generalize x (v, j) = r at hxy ⊢
  generalize y (w, j) = r' at hxy ⊢
  cases hxy with
  | ok h => exact h _
  | error => exact .error

/-- Calls on other values. -/
theorem lend {x : Edit s' α} {y : Edit t' β} {u : s'} {u' : t'}
    {Q : α × s' → s → β × t' → t → Prop}
    (h : Coupled x u y u' fun a u b u' => Q (a, u) v (b, u') w) :
    Coupled (Edit.lend x u) v (Edit.lend y u') w Q := by
  intro j
  have hxy := h j
  unfold Edit.lend
  dsimp only
  generalize x (u, j) = r at hxy ⊢
  generalize y (u', j) = r' at hxy ⊢
  cases hxy with
  | ok h => exact .ok h
  | error => exact .error

/-- **A call for each element of a list**, on both sides, that leaves the same
value on either. -/
theorem mapM {R : α → β → Prop} {f : γ → Edit s α} {g : γ → Edit s β} (cs : List γ)
    (h : ∀ c v, Coupled (f c) v (g c) v fun a v b w => w = v ∧ R a b) (v : s) :
    Coupled (cs.mapM f) v (cs.mapM g) v fun as v bs w => w = v ∧ List.Forall₂ R as bs := by
  induction cs generalizing v with
  | nil =>
    rw [List.mapM_nil, List.mapM_nil]
    exact pure ⟨rfl, .nil⟩
  | cons c cs ih =>
    rw [List.mapM_cons, List.mapM_cons]
    refine bind ((h c v).imp ?_)
    rintro a _ b v ⟨rfl, hab⟩
    refine bind ((ih v).imp ?_)
    rintro as _ bs v ⟨rfl, hrest⟩
    exact pure ⟨rfl, .cons hab hrest⟩

end Coupled

end Edit

end WhatIf
