import WhatIf.Proofs.Hook.Yields
/-!
# Hook — two calls that agree

Two calls agree if from any value both answer alike, or fail alike, and leave
the same value, whatever was noted before either of them. What a call notes is
not compared. One rule for each primitive and for each way to put calls
together; a call that agrees with itself is one that does not look at the
journal. A call that only watches notes something at most, and always ends in
the same way.
-/

namespace WhatIf

namespace Edit

variable {s t α β γ : Type}

/-- **Two calls agree**: from any value they answer alike and leave the same value,
whatever the journals. -/
def Agree (x y : Edit s α) : Prop :=
  ∀ v j j', ∃ answer v' k k', x (v, j) = (answer, v', k) ∧ y (v, j') = (answer, v', k')

namespace Agree

variable {x y : Edit s α} {f g : α → Edit s β}

/-! ## Primitives -/

theorem pure (a : α) : Agree (Pure.pure a : Edit s α) (Pure.pure a) :=
  fun _ _ _ => ⟨_, _, _, _, rfl, rfl⟩

theorem value : Agree (Edit.value : Edit s s) Edit.value :=
  fun _ _ _ => ⟨_, _, _, _, rfl, rfl⟩

theorem put (v : s) : Agree (Edit.put v) (Edit.put v) :=
  fun _ _ _ => ⟨_, _, _, _, rfl, rfl⟩

theorem change (f : s → s) : Agree (Edit.change f) (Edit.change f) :=
  fun _ _ _ => ⟨_, _, _, _, rfl, rfl⟩

theorem fail (e : Error) : Agree (Edit.fail e : Edit s α) (Edit.fail e) :=
  fun _ _ _ => ⟨_, _, _, _, rfl, rfl⟩

/-- What is noted does not matter. -/
theorem note (n n' : Note) : Agree (Edit.note n : Edit s Unit) (Edit.note n') :=
  fun _ _ _ => ⟨_, _, _, _, rfl, rfl⟩

theorem ofExcept (r : Except Error α) : Agree (Edit.ofExcept r : Edit s α) (Edit.ofExcept r) :=
  fun _ _ _ => ⟨_, _, _, _, rfl, rfl⟩

/-! ## Calls put together -/

/-- **One call after another.** -/
theorem bind (h : Agree x y) (hf : ∀ a, Agree (f a) (g a)) : Agree (x >>= f) (y >>= g) := by
  intro v j j'
  obtain ⟨answer, v', k, k', hx, hy⟩ := h v j j'
  rw [bind_apply, bind_apply, hx, hy]
  rcases answer with e | a
  · exact ⟨_, _, _, _, rfl, rfl⟩
  · exact hf a v' k k'

/-- One call or another, by what both know. -/
theorem ite {c : Prop} [Decidable c] {x' y' : Edit s α} (h : Agree x y) (h' : Agree x' y') :
    Agree (if c then x else x') (if c then y else y') := by
  split
  · exact h
  · exact h'

theorem lend (h : Agree x y) (v : s) :
    Agree (Edit.lend x v : Edit t (α × s)) (Edit.lend y v) := by
  intro u j j'
  obtain ⟨answer, v', k, k', hx, hy⟩ := h v j j'
  unfold Edit.lend
  dsimp only
  rw [hx, hy]
  rcases answer with e | a
  · exact ⟨_, _, _, _, rfl, rfl⟩
  · exact ⟨_, _, _, _, rfl, rfl⟩

theorem zoom {get : t → s} {set : s → t → t} (h : Agree x y) :
    Agree (Edit.zoom get set x) (Edit.zoom get set y) := by
  intro u j j'
  obtain ⟨answer, v', k, k', hx, hy⟩ := h (get u) j j'
  unfold Edit.zoom
  dsimp only
  rw [hx, hy]
  exact ⟨_, _, _, _, rfl, rfl⟩

theorem ask {x y : Ask α} (h : Agree x y) : Agree (Edit.ask x : Edit t α) (Edit.ask y) := by
  intro u j j'
  obtain ⟨answer, v', k, k', hx, hy⟩ := h () j j'
  unfold Edit.ask
  dsimp only
  rw [hx, hy]
  exact ⟨_, _, _, _, rfl, rfl⟩

/-- A call for each element of a list. -/
theorem mapM {f g : γ → Edit s α} (h : ∀ c, Agree (f c) (g c)) (cs : List γ) :
    Agree (cs.mapM f) (cs.mapM g) := by
  induction cs with
  | nil =>
    rw [List.mapM_nil, List.mapM_nil]
    exact pure []
  | cons c cs ih =>
    rw [List.mapM_cons, List.mapM_cons]
    exact (h c).bind fun a => ih.bind fun as => pure (a :: as)

end Agree

/-! ## Calls that only watch -/

/-- **A call that only watches**: it always answers, or always fails with one
error, and leaves the value as it is. -/
def Watches (x : Edit s Unit) (answer : Except Error Unit) : Prop :=
  ∀ v j, ∃ j', x (v, j) = (answer, v, j')

namespace Watches

variable {x y : Edit s Unit} {a b : Except Error Unit}

theorem pure : Watches (Pure.pure () : Edit s Unit) (.ok ()) := fun _ j => ⟨j, rfl⟩

theorem note (n : Note) : Watches (Edit.note n : Edit s Unit) (.ok ()) := fun _ _ => ⟨_, rfl⟩

theorem fail (e : Error) : Watches (Edit.fail e : Edit s Unit) (.error e) := fun _ j => ⟨j, rfl⟩

/-- A call that watches and looks at the value first. -/
theorem value {f : s → Edit s Unit} (h : ∀ v, Watches (f v) a) :
    Watches (Edit.value >>= f) a := by
  intro v j
  rw [bind_apply]
  exact h v v j

/-- One call after another; the second is made if the first has not failed. -/
theorem bind (hx : Watches x a) (hy : Watches y b) :
    Watches (x >>= fun _ => y) (a.bind fun _ => b) := by
  intro v j
  obtain ⟨j', hx⟩ := hx v j
  rw [bind_apply, hx]
  rcases a with e | ⟨⟩
  · exact ⟨j', rfl⟩
  · exact hy v j'

end Watches

end Edit

end WhatIf
