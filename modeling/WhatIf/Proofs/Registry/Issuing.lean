import WhatIf.Registry.ShadowIds
import WhatIf.Catalog.Scripted
import Mathlib.Data.Nat.Find
/-!
# Registry — how an identifier is issued

The catalog is asked for an identifier again and again, each time in the state in
which the last request left it. An answer is passed over if the identifier is
invalid, issued or in use (`PassesOver`); the first that is not settles the matter,
be it an identifier or a refusal, and if there is none among sixteen the search is
given up. These are all the ways to end (`Outcome`), and what issuing an identifier
answers is the one that applies (`allocate_eq_iff`).
-/

namespace WhatIf

namespace ShadowIds

variable {σ : Type} [Catalog σ]

/-! ## Answers -/

/-- The catalog after so many requests for an identifier. -/
def afterRequests (relid : Oid) (c : σ) : Nat → σ
  | 0 => c
  | n + 1 => afterRequests relid (Catalog.lend c relid).2 n

/-- Its answer to the request that comes after so many. -/
def answer (relid : Oid) (c : σ) (n : Nat) : Except CatalogError Oid :=
  (Catalog.lend (afterRequests relid c n) relid).1

variable (ids : ShadowIds) (relid : Oid) (c : σ)

/-- **An identifier that may be issued**: a valid one that is neither issued nor in
use by the catalog. -/
def Usable (oid : Oid) : Prop :=
  oid ≠ Oid.invalid ∧ oid ∉ ids.issued ∧ Catalog.inUse c oid = false

/-- That an answer is an identifier that may not be issued, as the catalog stands
after the answer. -/
def PassesOver (n : Nat) : Prop :=
  ∃ oid, answer relid c n = .ok oid ∧ ¬ids.Usable (afterRequests relid c (n + 1)) oid

/-- **How issuing an identifier may end**: with the answer, the identifiers issued
then, and the catalog. -/
inductive Outcome : Except RegistryError Oid × ShadowIds × σ → Prop
  /-- The first answer that is not passed over is an identifier. -/
  | issued {n : Nat} {oid : Oid} (hn : n < attempts) (hbefore : ∀ m < n, ids.PassesOver relid c m)
      (hanswer : answer relid c n = .ok oid)
      (husable : ids.Usable (afterRequests relid c (n + 1)) oid) :
      Outcome (.ok oid, ⟨oid :: ids.issued⟩, afterRequests relid c (n + 1))
  /-- The first answer that is not passed over is a refusal. -/
  | refused {n : Nat} {e : CatalogError} (hn : n < attempts)
      (hbefore : ∀ m < n, ids.PassesOver relid c m) (hanswer : answer relid c n = .error e) :
      Outcome (.error (.allocationFailed e), ids, afterRequests relid c (n + 1))
  /-- Every answer is passed over. -/
  | exhausted (hall : ∀ m < attempts, ids.PassesOver relid c m) :
      Outcome (.error (.identifiersExhausted attempts), ids, afterRequests relid c attempts)

variable {ids relid c} {oid : Oid} {e : CatalogError} {n : Nat}

theorem isUsable_iff : ids.isUsable c oid = true ↔ ids.Usable c oid := by
  simp [isUsable, Usable, Oid.isValid, and_assoc]

theorem afterRequests_succ (n : Nat) :
    afterRequests relid c (n + 1) = (Catalog.lend (afterRequests relid c n) relid).2 := by
  induction n generalizing c with
  | zero => rfl
  | succ n ih => exact ih

/-! ## The search -/

/-- An answer that is passed over costs one attempt. -/
theorem draw_of_passesOver (h : ids.PassesOver relid c 0) (k : Nat) :
    ids.draw relid (k + 1) c = ids.draw relid k (Catalog.lend c relid).2 := by
  obtain ⟨oid, hanswer, hunusable⟩ := h
  have hlend : Catalog.lend c relid = (.ok oid, (Catalog.lend c relid).2) :=
    Prod.ext hanswer rfl
  rw [draw, hlend]
  dsimp only
  exact if_neg fun husable => hunusable (isUsable_iff.1 husable)

/-- **Passing over answers** leads to a search with fewer attempts, from the catalog
as it stands then. -/
theorem draw_add (h : ∀ m < n, ids.PassesOver relid c m) (k : Nat) :
    ids.draw relid (n + k) c = ids.draw relid k (afterRequests relid c n) := by
  induction n generalizing c with
  | zero => rw [Nat.zero_add, afterRequests]
  | succ n ih =>
    rw [Nat.add_right_comm, draw_of_passesOver (h 0 (Nat.succ_pos n)), afterRequests]
    exact ih fun m hm => h (m + 1) (Nat.succ_lt_succ hm)

/-- A usable answer ends the search. -/
theorem draw_of_usable (hanswer : (Catalog.lend c relid).1 = .ok oid)
    (husable : ids.Usable (Catalog.lend c relid).2 oid) (k : Nat) :
    ids.draw relid (k + 1) c = (.ok oid, (Catalog.lend c relid).2) := by
  have hlend : Catalog.lend c relid = (.ok oid, (Catalog.lend c relid).2) :=
    Prod.ext hanswer rfl
  rw [draw, hlend]
  exact if_pos (isUsable_iff.2 husable)

/-- So does a refusal. -/
theorem draw_of_error (hanswer : (Catalog.lend c relid).1 = .error e) (k : Nat) :
    ids.draw relid (k + 1) c = (.error (.allocationFailed e), (Catalog.lend c relid).2) := by
  have hlend : Catalog.lend c relid = (.error e, (Catalog.lend c relid).2) :=
    Prod.ext hanswer rfl
  rw [draw, hlend]

/-! ## Outcomes -/

/-- Issuing ends as an outcome says. -/
theorem Outcome.allocate_eq {out : Except RegistryError Oid × ShadowIds × σ}
    (h : ids.Outcome relid c out) : ids.allocate relid c = out := by
  rw [allocate]
  cases h with
  | @issued n oid hn hbefore hanswer husable =>
    obtain ⟨k, hk⟩ := Nat.exists_eq_add_of_lt hn
    rw [afterRequests_succ] at husable ⊢
    rw [hk, Nat.add_assoc, draw_add hbefore, draw_of_usable hanswer husable]
  | @refused n e hn hbefore hanswer =>
    obtain ⟨k, hk⟩ := Nat.exists_eq_add_of_lt hn
    rw [hk, Nat.add_assoc, draw_add hbefore, draw_of_error hanswer, afterRequests_succ]
  | exhausted hall =>
    have hdraw := draw_add hall 0
    rw [Nat.add_zero] at hdraw
    rw [hdraw, draw]

/-- **Issuing ends in one of these ways.** The answers are passed over up to the
first that is not, if there is one in time. -/
theorem outcome_allocate (ids : ShadowIds) (relid : Oid) (c : σ) :
    ids.Outcome relid c (ids.allocate relid c) := by
  have hout : ∃ out, ids.Outcome relid c out := by
    classical
    by_cases hsettled : ∃ n, n < attempts ∧ ¬ids.PassesOver relid c n
    · obtain ⟨hn, hsettles⟩ := Nat.find_spec hsettled
      have hbefore : ∀ m < Nat.find hsettled, ids.PassesOver relid c m := by
        intro m hm
        by_contra hpass
        exact Nat.find_min hsettled hm ⟨Nat.lt_trans hm hn, hpass⟩
      cases hanswer : answer relid c (Nat.find hsettled) with
      | error e => exact ⟨_, .refused hn hbefore hanswer⟩
      | ok oid =>
        refine ⟨_, .issued hn hbefore hanswer ?_⟩
        by_contra hunusable
        exact hsettles ⟨oid, hanswer, hunusable⟩
    · refine ⟨_, .exhausted fun m hm => ?_⟩
      by_contra hpass
      exact hsettled ⟨m, hm, hpass⟩
  obtain ⟨out, hout⟩ := hout
  rwa [hout.allocate_eq]

/-- **The first usable answer and nothing else.** What issuing an identifier answers
and leaves is the outcome that the answers of the catalog determine, of which at most
sixteen are asked for. -/
theorem allocate_eq_iff (ids : ShadowIds) (relid : Oid) (c : σ) :
    attempts = 16 ∧ ∀ out, ids.allocate relid c = out ↔ ids.Outcome relid c out := by
  refine ⟨rfl, fun out => ⟨?_, Outcome.allocate_eq⟩⟩
  rintro rfl
  exact outcome_allocate ids relid c

/-- An invalid, an issued and a reserved identifier come before a usable one. -/
example : ((⟨[⟨5⟩]⟩ : ShadowIds).allocate ⟨1⟩
    { ScriptedCatalog.ofMemory .empty with
      queue := [.ok ⟨0⟩, .ok ⟨5⟩, .ok ⟨7⟩, .ok ⟨9⟩, .ok ⟨8⟩], reserved := [⟨7⟩] }).1 = .ok ⟨9⟩ := by
  rfl

end ShadowIds

end WhatIf
