import WhatIf.Settings
import WhatIf.Statement
/-!
# Explain — the options of `EXPLAIN`

Which options matter and what their values mean. An option without a value is
switched on.
-/

namespace WhatIf

/-- The written forms of a plan. -/
inductive ExplainFormat where
  | text
  | json
  deriving DecidableEq

/-- Read the name of a form. -/
def ExplainFormat.read (value : String) : Except Error ExplainFormat :=
  match Text.lower (Text.trim value) with
  | "text" => .ok .text
  | "json" => .ok .json
  | other => .error (.unsupported (.format other))

namespace Explain

variable (e : Explain)

/-- The value of a truth option, if it is given. -/
def flag (name : String) : Except Error (Option Bool) :=
  match e.option? name with
  | none => .ok none
  | some o =>
    match o.value with
    | none => .ok (some true)
    | some value =>
      match readBool? value with
      | some b => .ok (some b)
      | none => .error (.setting o.name (.notBoolean value))

/-- The form asked for. -/
def format : Except Error ExplainFormat :=
  match e.option? "format" with
  | none => .ok .text
  | some o =>
    match o.value with
    | none => .error (.unsupported .formatWithoutValue)
    | some value => ExplainFormat.read value

/-- What the options of an `EXPLAIN` come to. -/
structure Choice where
  /-- Whether the query is executed. -/
  analyze : Bool
  /-- The form of the plan. -/
  format : ExplainFormat
  /-- Whether costs are shown. -/
  costs : Bool

/-- Read the options. -/
def choice : Except Error Choice := do
  let analyze ← e.flag "analyze"
  let format ← e.format
  let costs ← e.flag "costs"
  pure ⟨analyze.getD false, format, costs.getD true⟩

end Explain

end WhatIf
