import WhatIf.Proofs.Partition.Validated
/-!
# Partition — identifiers are drawn one after the other

Planting a valid layout draws one identifier for each node and nothing more
(`consumes_plant`). If all are drawn it succeeds, and the identifiers noted are just
these; if one is not, it ends with the error of that draw, and the identifiers noted are
those drawn before it. Every step of planting is of this kind, and so is one after another
(`Consumes.andThen`).
-/

namespace WhatIf

namespace Layout

variable {σ α β : Type} {draw : σ → Except RegistryError Oid × σ} {r : Relation} {l : Layout}
variable {s s' : σ} {oids : List Oid} {n k : Nat} {ps : List Partition}

/-- **Identifiers drawn one after the other**, none of them with an error. -/
inductive Draws (draw : σ → Except RegistryError Oid × σ) : σ → List Oid → σ → Prop
  | nil {s : σ} : Draws draw s [] s
  | cons {s s₁ s' : σ} {oid : Oid} {oids : List Oid} (h : draw s = (.ok oid, s₁))
      (hrest : Draws draw s₁ oids s') : Draws draw s (oid :: oids) s'

/-- The first identifiers are drawn before the others. -/
theorem Draws.split (h : Draws draw s oids s') (k : Nat) :
    ∃ s₁, Draws draw s (oids.take k) s₁ ∧ Draws draw s₁ (oids.drop k) s' := by
  induction h generalizing k with
  | nil => exact ⟨_, by rw [List.take_nil]; exact .nil, by rw [List.drop_nil]; exact .nil⟩
  | cons hone hrest ih =>
    cases k with
    | zero => exact ⟨_, .nil, .cons hone hrest⟩
    | succ k =>
      obtain ⟨s₁, hbefore, hafter⟩ := ih k
      exact ⟨s₁, .cons hone hbefore, hafter⟩

/-- **A step of planting that draws `n` identifiers.** If they are drawn, it answers what
`Q` tells of; if one is not, it ends with the error of that draw. Either way it notes the
identifiers that were drawn. -/
structure Consumes (draw : σ → Except RegistryError Oid × σ) (n : Nat) (Q : α → Prop)
    (f : Planting σ α) : Prop where
  ok : ∀ (drawn : List Oid) {oids : List Oid} {s s' : σ}, Draws draw s oids s' → oids.length = n →
    ∃ a, f (drawn, s) = (.ok a, drawn ++ oids, s') ∧ Q a
  error : ∀ (drawn : List Oid) {oids : List Oid} {s s₁ s' : σ} {e : RegistryError},
    Draws draw s oids s₁ → oids.length < n → draw s₁ = (.error e, s') → f (drawn, s) = (.error e, drawn ++ oids, s')

/-- One step of planting after another. -/
def andThen (f : Planting σ α) (g : α → Planting σ β) : Planting σ β := fun st =>
  match f st with
  | (.error e, st) => (.error e, st)
  | (.ok a, st) => g a st

section Steps

variable {Q : α → Prop} {R : β → Prop} {f : Planting σ α} {g : α → Planting σ β}

/-- What draws nothing answers at once. -/
theorem consumes_pure {a : α} (ha : Q a) : Consumes draw 0 Q fun st => (.ok a, st) where
  ok _ {_ _ _} hdraws hlength := by
    obtain rfl := List.eq_nil_of_length_eq_zero hlength
    cases hdraws
    exact ⟨a, by rw [List.append_nil], ha⟩
  error _ {_ _ _ _ _} _ hlength := absurd hlength (Nat.not_lt_zero _)

/-- **One step after another** draws what both draw. -/
theorem Consumes.andThen (hf : Consumes draw n Q f) (hg : ∀ a, Q a → Consumes draw k R (g a)) :
    Consumes draw (n + k) R (andThen f g) where
  ok drawn {oids s s'} hdraws hlength := by
    obtain ⟨s₁, hbefore, hafter⟩ := hdraws.split n
    obtain ⟨a, ha, hQ⟩ := hf.ok drawn hbefore (by rw [List.length_take]; omega)
    obtain ⟨b, hb, hR⟩ :=
      (hg a hQ).ok (drawn ++ oids.take n) hafter (by rw [List.length_drop]; omega)
    refine ⟨b, ?_, hR⟩
    rw [Layout.andThen, ha]
    dsimp only
    rw [hb, List.append_assoc, List.take_append_drop]
  error drawn {oids s s₁ s' e} hdraws hlength hfails := by
    rw [Layout.andThen]
    by_cases hshort : oids.length < n
    · rw [hf.error drawn hdraws hshort hfails]
    · -- the first step has drawn what it needs
      obtain ⟨s₂, hbefore, hafter⟩ := hdraws.split n
      obtain ⟨a, ha, hQ⟩ := hf.ok drawn hbefore (by rw [List.length_take]; omega)
      rw [ha]
      dsimp only
      rw [(hg a hQ).error _ hafter (by rw [List.length_drop]; omega) hfails, List.append_assoc,
        List.take_append_drop]

end Steps

/-! ## The steps of planting -/

theorem consumes_drawOne : Consumes draw 1 (fun _ => True) (drawOne draw) where
  ok drawn {oids s s'} hdraws hlength := by
    obtain ⟨oid, rfl⟩ := List.length_eq_one_iff.1 hlength
    cases hdraws with
    | cons hone hrest =>
      cases hrest
      exact ⟨oid, by rw [drawOne, hone], trivial⟩
  error drawn {oids s s₁ s' e} hdraws hlength hfails := by
    obtain rfl := List.eq_nil_of_length_eq_zero (Nat.lt_one_iff.1 hlength)
    cases hdraws
    rw [drawOne, hfails, List.append_nil]

theorem consumes_drawMany (n : Nat) :
    Consumes draw n (fun oids => oids.length = n) (drawMany draw n) := by
  induction n with
  | zero => exact consumes_pure rfl
  | succ n ih =>
    have hsteps : drawMany draw (n + 1) = andThen (drawOne draw) fun oid =>
        andThen (drawMany draw n) fun rest st => (.ok (oid :: rest), st) := by
      funext st
      rw [drawMany]
      unfold andThen
      rcases drawOne draw st with ⟨_ | oid, st⟩
      · rfl
      · dsimp only
        rcases drawMany draw n st with ⟨_ | rest, st⟩ <;> rfl
    rw [hsteps, Nat.add_comm]
    exact consumes_drawOne.andThen fun oid _ => ih.andThen (k := 0) fun rest hrest =>
      consumes_pure (by rw [List.length_cons, hrest, Nat.add_comm])

/-- A level draws what its partitions draw. -/
theorem consumes_growAll (site : Site) (hps : ∀ p ∈ ps, ∀ site oid,
      Consumes draw p.numBelow (fun _ => True) (grow draw r site oid p))
    (hlength : oids.length = ps.length) :
    Consumes draw (Partition.numBelowAll ps) (fun _ => True) (growAll draw r site oids ps) := by
  induction ps generalizing oids with
  | nil =>
    obtain rfl := List.eq_nil_of_length_eq_zero hlength
    exact consumes_pure trivial
  | cons p ps ih =>
    obtain ⟨oid, oids, rfl⟩ := List.exists_cons_of_length_eq_add_one hlength
    rw [List.forall_mem_cons] at hps
    have hsteps : growAll draw r site (oid :: oids) (p :: ps) =
        andThen (grow draw r site oid p) fun first =>
          andThen (growAll draw r site oids ps) fun rest st => (.ok (first :: rest), st) := by
      funext st
      rw [growAll]
      unfold andThen
      rcases grow draw r site oid p st with ⟨_ | first, st⟩
      · rfl
      · dsimp only
        rcases growAll draw r site oids ps st with ⟨_ | rest, st⟩ <;> rfl
    rw [hsteps, Partition.numBelowAll]
    exact (hps.1 site oid).andThen fun first _ =>
      (ih hps.2 (Nat.succ.inj hlength)).andThen (k := 0) fun rest _ => consumes_pure trivial

theorem consumes_grow (p : Partition) : p.Sound r → ∀ site oid,
    Consumes draw p.numBelow (fun _ => True) (grow draw r site oid p) := by
  induction p using Partition.induct with
  | leaf name bound =>
    intro _ site oid
    have hsteps : grow draw r site oid (.leaf name bound) =
        fun st => (.ok (bareNode r site oid (.leaf name bound), []), st) := by
      funext st
      rw [grow]
    rw [hsteps]
    exact consumes_pure trivial
  | split name bound strategy key ps ih =>
    intro hsound site oid
    cases hsound with
    | @split _ _ _ _ _ resolved hkey _ hbelow =>
      have hsteps : grow draw r site oid (.split name bound strategy key ps) =
          andThen (drawMany draw ps.length) fun oids =>
            andThen (growAll draw r ⟨oid, (bareNode r site oid (.leaf name bound)).share,
              site.level + 1, ps.length⟩ oids ps) fun grown st =>
                (.ok ({ bareNode r site oid (.leaf name bound) with
                  key := some resolved, children := oids }, levelOrder grown), st) := by
        funext st
        rw [grow, hkey]
        unfold andThen
        dsimp only
        rcases drawMany draw ps.length st with ⟨_ | oids, st⟩
        · rfl
        · dsimp only
          generalize growAll draw r _ oids ps st = grown
          rcases grown with ⟨_ | grown, st⟩ <;> rfl
      rw [hsteps, Partition.numBelow]
      refine (consumes_drawMany ps.length).andThen fun oids hlength => ?_
      exact (consumes_growAll _ (fun p hp => ih p hp (hbelow p hp)) hlength).andThen (k := 0)
        fun grown _ => consumes_pure trivial

/-- **Planting a valid layout draws one identifier for each node.** -/
theorem consumes_plant (hvalid : l.validate r = .ok ()) :
    Consumes draw l.size (fun _ => True) (l.plant draw r) := by
  obtain ⟨⟨key, hkey, -⟩, hbelow⟩ := (sound_of_validate hvalid).ordered
  have hkey : resolveKey r l.strategy l.key = .ok key := hkey
  have hsteps : l.plant draw r = andThen (drawOne draw) fun oid =>
      andThen (drawMany draw l.ordered.partitions.length) fun oids =>
        andThen (growAll draw r ⟨oid, 1.0, 1, l.ordered.partitions.length⟩ oids
          l.ordered.partitions) fun grown st =>
            (.ok ({ oid, relid := r.oid, name := r.name, parent := none, bound := none
                    key := some key, children := oids, share := 1.0, level := 0 } ::
              levelOrder grown), st) := by
    funext st
    rw [plant, hkey]
    unfold andThen
    rcases drawOne draw st with ⟨_ | oid, st⟩
    · rfl
    dsimp only
    rcases drawMany draw l.ordered.partitions.length st with ⟨_ | oids, st⟩
    · rfl
    dsimp only
    generalize growAll draw r _ oids l.ordered.partitions st = grown
    rcases grown with ⟨_ | grown, st⟩ <;> rfl
  rw [hsteps, ← l.size_ordered, size, Nat.add_comm]
  refine consumes_drawOne.andThen fun oid _ => ?_
  refine (consumes_drawMany _).andThen fun oids hlength => ?_
  exact (consumes_growAll _ (fun p hp => consumes_grow p (hbelow p hp)) hlength).andThen (k := 0)
    fun grown _ => consumes_pure trivial

end Layout

end WhatIf
