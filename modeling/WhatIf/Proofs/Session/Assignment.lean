import WhatIf.Settings
/-!
# Settings — what an assignment does

A `SET` names one setting, in any letter case, and gives a text for its value. Where
it succeeds this setting has the value that the text spells, and every other setting
is as before; it succeeds wherever there is such a setting and such a value
(`set_eq_ok_iff`). Assignments in order are a chain of these (`Assigned`).
-/

namespace WhatIf

namespace Settings

/-- A setting. -/
inductive Field where
  | enableSeqScan
  | enableIndexScan
  | enableBitmapScan
  | exclusion
  | seqPageCost
  | randomPageCost
  | cpuTupleCost
  | cpuIndexTupleCost
  | cpuOperatorCost
  deriving DecidableEq

/-- The name of a setting. -/
def Field.name : Field → String
  | enableSeqScan => "enable_seqscan"
  | enableIndexScan => "enable_indexscan"
  | enableBitmapScan => "enable_bitmapscan"
  | exclusion => "constraint_exclusion"
  | seqPageCost => "seq_page_cost"
  | randomPageCost => "random_page_cost"
  | cpuTupleCost => "cpu_tuple_cost"
  | cpuIndexTupleCost => "cpu_index_tuple_cost"
  | cpuOperatorCost => "cpu_operator_cost"

/-- The value of a setting. -/
inductive Value where
  | flag (b : Bool)
  | exclusion (e : Exclusion)
  | cost (x : Float)

variable {s s' s'' : Settings} {name text : String} {f g : Field}

/-- The value that a setting has. -/
def get (s : Settings) : Field → Value
  | .enableSeqScan => .flag s.enableSeqScan
  | .enableIndexScan => .flag s.enableIndexScan
  | .enableBitmapScan => .flag s.enableBitmapScan
  | .exclusion => .exclusion s.exclusion
  | .seqPageCost => .cost s.seqPageCost
  | .randomPageCost => .cost s.randomPageCost
  | .cpuTupleCost => .cost s.cpuTupleCost
  | .cpuIndexTupleCost => .cost s.cpuIndexTupleCost
  | .cpuOperatorCost => .cost s.cpuOperatorCost

/-- Settings are known by their values. -/
theorem ext_get (h : ∀ f, s.get f = s'.get f) : s = s' := by
  have h₁ := h .enableSeqScan
  have h₂ := h .enableIndexScan
  have h₃ := h .enableBitmapScan
  have h₄ := h .exclusion
  have h₅ := h .seqPageCost
  have h₆ := h .randomPageCost
  have h₇ := h .cpuTupleCost
  have h₈ := h .cpuIndexTupleCost
  have h₉ := h .cpuOperatorCost
  cases s
  cases s'
  simp only [get, Value.flag.injEq, Value.exclusion.injEq, Value.cost.injEq] at *
  simp only [*]

/-! ## What a text spells -/

/-- The spellings of a truth value. -/
def spellings : Bool → List String
  | true => ["on", "true", "yes", "1", "t"]
  | false => ["off", "false", "no", "0", "f"]

/-- **That a text spells a value**: a truth value in one of its spellings, or what is
checked for exclusion, in any letter case, or a cost as a finite number that is not
below zero. Blanks around it do not count. -/
def Value.Spelled (text : String) : Value → Prop
  | flag b => Text.lower (Text.trim text) ∈ spellings b
  | exclusion .partition => Text.lower (Text.trim text) = "partition"
  | exclusion .on => Text.lower (Text.trim text) ∈ spellings true
  | exclusion .off => Text.lower (Text.trim text) ∈ spellings false
  | cost x => Decimal.read? (Text.trim text) = some x ∧ x.isFinite = true ∧ 0 ≤ x

theorem readBool?_eq_some_iff {b : Bool} :
    readBool? text = some b ↔ Text.lower (Text.trim text) ∈ spellings b := by
  unfold readBool?
  generalize Text.lower (Text.trim text) = word
  split
  all_goals cases b <;> simp_all [spellings]

theorem readFlag_eq_ok_iff {b : Bool} :
    readFlag text = .ok b ↔ (Value.flag b).Spelled text := by
  rw [Value.Spelled, ← readBool?_eq_some_iff]
  unfold readFlag
  split
  · rename_i heq
    simp [heq]
  · rename_i heq
    simp [heq]

theorem read_eq_ok_iff {e : Exclusion} :
    Exclusion.read text = .ok e ↔ (Value.exclusion e).Spelled text := by
  have hpartition : Text.lower "partition" = "partition" := by decide +kernel
  have hsame : Text.sameName (Text.trim text) "partition" = true ↔
      Text.lower (Text.trim text) = "partition" := by
    rw [Text.sameName, hpartition, beq_iff_eq]
  unfold Exclusion.read
  by_cases hword : Text.lower (Text.trim text) = "partition"
  · rw [if_pos (hsame.2 hword)]
    cases e <;> simp [Value.Spelled, hword, spellings]
  · rw [if_neg (mt hsame.1 hword)]
    -- what is no truth value and not this word either is refused
    rcases hread : readBool? text with _ | _ | _
    all_goals cases e <;> simp [Value.Spelled, hword, ← readBool?_eq_some_iff, hread]

theorem readCost_eq_ok_iff {x : Float} :
    readCost text = .ok x ↔ (Value.cost x).Spelled text := by
  unfold readCost Value.Spelled
  rcases hread : Decimal.read? (Text.trim text) with _ | y
  · simp
  · by_cases hy : y.isFinite = true ∧ 0 ≤ y
    · have hcond : (y.isFinite && decide (0 ≤ y)) = true := by simp [hy.1, hy.2]
      simp only [hcond, if_true, Except.ok.injEq, Option.some.injEq]
      exact ⟨fun heq => ⟨heq, heq ▸ hy⟩, fun heq => heq.1⟩
    · have hcond : ¬(y.isFinite && decide (0 ≤ y)) = true := by simpa using hy
      simp only [hcond, Option.some.injEq]
      refine ⟨nofun, ?_⟩
      rintro ⟨rfl, hx⟩
      exact absurd hx hy

/-! ## One assignment -/

/-- **That some settings come from others by an assignment**: there is a setting of
this name, in any letter case; it has the value that the text spells, and every other
setting is as before. -/
def Assignment (before : Settings) (name text : String) (after : Settings) : Prop :=
  ∃ f : Field, Text.lower name = f.name ∧ (after.get f).Spelled text ∧
    ∀ g, g ≠ f → after.get g = before.get g

/-- A value that is read and put in its place. -/
theorem map_eq_ok_iff {α : Type} {read : Except SettingFault α} {wrap : α → Value}
    {put : α → Settings} (hread : ∀ a, read = .ok a ↔ (wrap a).Spelled text)
    (hput : ∀ a, (put a).get f = wrap a) (hother : ∀ a g, g ≠ f → (put a).get g = s.get g)
    (hkind : ∃ a, s'.get f = wrap a) :
    read.map put = .ok s' ↔ (s'.get f).Spelled text ∧ ∀ g, g ≠ f → s'.get g = s.get g := by
  constructor
  · intro hok
    rcases hvalue : read with e | a
    · rw [hvalue] at hok
      cases hok
    · rw [hvalue] at hok
      obtain rfl := Except.ok.inj hok
      exact ⟨hput a ▸ (hread a).1 hvalue, hother a⟩
  · rintro ⟨hspelled, hrest⟩
    obtain ⟨a, ha⟩ := hkind
    rw [(hread a).2 (ha ▸ hspelled)]
    refine congrArg Except.ok (ext_get fun g => ?_)
    by_cases hg : g = f
    · rw [hg, hput, ha]
    · rw [hother a g hg, hrest g hg]

/-- What is assigned under the name of a setting. -/
theorem assign_name_eq_ok_iff : s.assign f.name text = .ok s' ↔
    (s'.get f).Spelled text ∧ ∀ g, g ≠ f → s'.get g = s.get g := by
  cases f with
  | enableSeqScan | enableIndexScan | enableBitmapScan =>
    rw [Field.name, assign]
    refine map_eq_ok_iff (fun _ => readFlag_eq_ok_iff) (fun _ => rfl) (fun _ g hg => ?_) ⟨_, rfl⟩
    cases g <;> first | rfl | exact absurd rfl hg
  | exclusion =>
    rw [Field.name, assign]
    refine map_eq_ok_iff (fun _ => read_eq_ok_iff) (fun _ => rfl) (fun _ g hg => ?_) ⟨_, rfl⟩
    cases g <;> first | rfl | exact absurd rfl hg
  | seqPageCost | randomPageCost | cpuTupleCost | cpuIndexTupleCost | cpuOperatorCost =>
    rw [Field.name, assign]
    refine map_eq_ok_iff (fun _ => readCost_eq_ok_iff) (fun _ => rfl) (fun _ g hg => ?_) ⟨_, rfl⟩
    cases g <;> first | rfl | exact absurd rfl hg

/-- Nothing is assigned under any other name. -/
theorem exists_field_of_assign (h : s.assign name text = .ok s') : ∃ f : Field, name = f.name := by
  unfold assign at h
  split at h
  · exact ⟨.enableSeqScan, rfl⟩
  · exact ⟨.enableIndexScan, rfl⟩
  · exact ⟨.enableBitmapScan, rfl⟩
  · exact ⟨.exclusion, rfl⟩
  · exact ⟨.seqPageCost, rfl⟩
  · exact ⟨.randomPageCost, rfl⟩
  · exact ⟨.cpuTupleCost, rfl⟩
  · exact ⟨.cpuIndexTupleCost, rfl⟩
  · exact ⟨.cpuOperatorCost, rfl⟩
  · cases h

/-- **A `SET` succeeds as an assignment, and only so.** -/
theorem set_eq_ok_iff : s.set name text = .ok s' ↔ Assignment s name text s' := by
  have hassign : s.set name text = .ok s' ↔ s.assign (Text.lower name) text = .ok s' := by
    unfold set
    split
    · rename_i heq
      rw [heq, Except.ok.injEq, Except.ok.injEq]
    · rename_i heq
      rw [heq]
      exact ⟨nofun, nofun⟩
  rw [hassign]
  constructor
  · intro hok
    obtain ⟨f, hf⟩ := exists_field_of_assign hok
    exact ⟨f, hf, assign_name_eq_ok_iff.1 (hf ▸ hok)⟩
  · rintro ⟨f, hf, hvalue⟩
    rw [hf]
    exact assign_name_eq_ok_iff.2 hvalue

/-! ## Assignments in order -/

/-- **That some settings come from others by assignments, one after the other.** -/
inductive Assigned : Settings → List (String × String) → Settings → Prop
  | nil (s : Settings) : Assigned s [] s
  | snoc {before s after : Settings} {changes : List (String × String)} {name text : String}
    (h : Assigned before changes s) (hlast : Assignment s name text after) :
    Assigned before (changes ++ [(name, text)]) after

end Settings

end WhatIf
