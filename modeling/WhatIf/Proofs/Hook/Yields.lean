import WhatIf.Hook.Points
import Mathlib.Tactic.Basic
/-!
# Hook — what a call yields

`Yields` is the logic of calls that edit a value on loan: from a given value,
whatever the journal, a call that answers leaves its answer and the value in a
given relation, and one that fails fails with an error of a given kind. One
rule for each primitive and for each way to put calls together; a call is then
followed from its first step to its last. With no error allowed the call is
shown to succeed.
-/

namespace WhatIf

namespace Edit

variable {s t α β : Type}

/-- The answer and the value left are in a relation, or the error is of a
kind. -/
def Outcome (Q : α → s → Prop) (E : Error → Prop) : Except Error α × s × Journal → Prop
  | (.ok a, (v, _)) => Q a v
  | (.error e, _) => E e

/-- **What a call does from a value**: it answers and leaves a value such that
`Q`, or fails with an error such that `E`. -/
def Yields (x : Edit s α) (v : s) (Q : α → s → Prop) (E : Error → Prop) : Prop :=
  ∀ j, Outcome Q E (x (v, j))

variable {x : Edit s α} {f g : α → Edit s β} {v w : s} {E E' : Error → Prop}

/-- One call after another, step by step. -/
theorem bind_apply (x : Edit s α) (f : α → Edit s β) (st : s × Journal) :
    (x >>= f) st = match x st with
      | (.ok a, st') => f a st'
      | (.error e, st') => (.error e, st') := by
  show (match x st with | (r, st') => ExceptT.bindCont f r st') = _
  rcases x st with ⟨e | a, st'⟩
  · rfl
  · rfl

namespace Yields

/-- What follows from the answer and the value left, and from the error. -/
theorem mono {Q Q' : α → s → Prop} (h : Yields x v Q E) (hQ : ∀ a w, Q a w → Q' a w)
    (hE : ∀ e, E e → E' e) : Yields x v Q' E' := by
  intro j
  have hx := h j
  generalize x (v, j) = r at hx ⊢
  rcases r with ⟨e | a, w, j'⟩
  · exact hE e hx
  · exact hQ a w hx

/-- The same with the errors as they are. -/
theorem imp {Q Q' : α → s → Prop} (h : Yields x v Q E) (hQ : ∀ a w, Q a w → Q' a w) :
    Yields x v Q' E :=
  h.mono hQ fun _ => id

/-- What is known of a call in two ways. -/
theorem and {Q Q' : α → s → Prop} (h : Yields x v Q E) (h' : Yields x v Q' E') :
    Yields x v (fun a w => Q a w ∧ Q' a w) E := by
  intro j
  have hx := h j
  have hx' := h' j
  generalize x (v, j) = r at hx hx' ⊢
  rcases r with ⟨e | a, w, j'⟩
  · exact hx
  · exact ⟨hx, hx'⟩

/-- Any call does something. -/
theorem any : Yields x v (fun _ _ => True) fun _ => True := by
  intro j
  rcases x (v, j) with ⟨e | a, w, j'⟩
  · trivial
  · trivial

/-- **A call that may not fail** answers. -/
theorem exists_ok {Q : α → s → Prop} (h : Yields x v Q fun _ => False) (j : Journal) :
    ∃ a w j', x (v, j) = (.ok a, (w, j')) ∧ Q a w := by
  have hx := h j
  generalize x (v, j) = r at hx ⊢
  rcases r with ⟨e | a, w, j'⟩
  · exact hx.elim
  · exact ⟨a, w, j', rfl, hx⟩

/-! ## Primitives -/

theorem pure {a : α} {Q : α → s → Prop} (h : Q a v) :
    Yields (Pure.pure a : Edit s α) v Q E := fun _ => h

theorem value {Q : s → s → Prop} (h : Q v v) : Yields Edit.value v Q E := fun _ => h

theorem put {Q : Unit → s → Prop} (h : Q () w) : Yields (Edit.put w) v Q E := fun _ => h

theorem change {F : s → s} {Q : Unit → s → Prop} (h : Q () (F v)) :
    Yields (Edit.change F) v Q E := fun _ => h

theorem fail {e : Error} {Q : α → s → Prop} (h : E e) : Yields (Edit.fail e) v Q E := fun _ => h

theorem ofExcept {y : Except Error α} {Q : α → s → Prop} (hok : ∀ a, y = .ok a → Q a v)
    (herror : ∀ e, y = .error e → E e) : Yields (Edit.ofExcept y) v Q E := by
  intro j
  cases y with
  | ok a => exact hok a rfl
  | error e => exact herror e rfl

/-! ## Calls put together -/

/-- **One call after another.** -/
theorem bind {Q : β → s → Prop} (h : Yields x v (fun a w => Yields (f a) w Q E) E) :
    Yields (x >>= f) v Q E := by
  intro j
  have hx := h j
  rw [bind_apply]
  generalize x (v, j) = r at hx ⊢
  rcases r with ⟨e | a, w, j'⟩
  · exact hx
  · exact hx j'

/-- A call on another value. -/
theorem lend {y : Edit t α} {u : t} {Q : α × t → s → Prop}
    (h : Yields y u (fun a u' => Q (a, u') v) E) : Yields (Edit.lend y u) v Q E := by
  intro j
  have hy := h j
  unfold Edit.lend
  dsimp only
  generalize y (u, j) = r at hy ⊢
  rcases r with ⟨e | a, w, j'⟩
  · exact hy
  · exact hy

/-- A call on a part of the value. -/
theorem zoom {get : s → t} {set : t → s → s} {y : Edit t α} {Q : α → s → Prop}
    (h : Yields y (get v) (fun a u => Q a (set u v)) E) : Yields (Edit.zoom get set y) v Q E := by
  intro j
  have hy := h j
  unfold Edit.zoom
  dsimp only
  generalize y (get v, j) = r at hy ⊢
  rcases r with ⟨e | a, w, j'⟩
  · exact hy
  · exact hy

/-- A call that edits nothing. -/
theorem ask {y : Ask α} {Q : α → s → Prop} (h : Yields y () (fun a _ => Q a v) E) :
    Yields (Edit.ask y) v Q E := by
  intro j
  have hy := h j
  unfold Edit.ask
  dsimp only
  generalize y ((), j) = r at hy ⊢
  rcases r with ⟨e | a, w, j'⟩
  · exact hy
  · exact hy

/-- **A call for each element of a list**, with an invariant of the elements
done and the answers so far. -/
theorem mapM {γ : Type} {h : γ → Edit s β} {I : List γ → List β → s → Prop} (cs : List γ)
    (hnil : I [] [] v)
    (hstep : ∀ done c rest bs w, done ++ c :: rest = cs → I done bs w →
      Yields (h c) w (fun b w' => I (done ++ [c]) (bs ++ [b]) w') E) :
    Yields (cs.mapM h) v (I cs) E := by
  -- the elements still to do, after some that are done
  have hrest : ∀ (rest done : List γ) (bs : List β) (w : s), done ++ rest = cs → I done bs w →
      Yields (rest.mapM h) w (fun bs' w' => I cs (bs ++ bs') w') E := by
    intro rest
    induction rest with
    | nil =>
      intro done bs w hcs hI
      rw [List.append_nil] at hcs
      rw [List.mapM_nil]
      refine pure ?_
      rw [List.append_nil]
      exact hcs ▸ hI
    | cons c rest ih =>
      intro done bs w hcs hI
      rw [List.mapM_cons]
      refine bind ((hstep done c rest bs w hcs hI).imp fun b w' hb => bind ?_)
      have hcs' : (done ++ [c]) ++ rest = cs := by rw [List.append_assoc]; exact hcs
      refine (ih (done ++ [c]) (bs ++ [b]) w' hcs' hb).imp fun bs' w'' hbs => pure ?_
      rw [List.append_assoc] at hbs
      exact hbs
  exact hrest cs [] [] v rfl hnil

end Yields

/-- Two ways to go on that agree on whatever a call yields. -/
theorem bind_congr_of_yields {Q : α → Prop}
    (h : ∀ v, Yields x v (fun a _ => Q a) fun _ => True) (hfg : ∀ a, Q a → f a = g a) :
    x >>= f = x >>= g := by
  funext ⟨v, j⟩
  have hx := h v j
  rw [bind_apply, bind_apply]
  generalize x (v, j) = r at hx ⊢
  rcases r with ⟨e | a, st⟩
  · rfl
  · dsimp only
    rw [hfg a hx]

end Edit

end WhatIf
