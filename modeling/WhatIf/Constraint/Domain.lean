import WhatIf.Constraint.Basic
/-!
# Constraint — the values a column may still take

A domain collects tests on one column: the tightest bounds, the values
listed, the values excluded and what is known about `NULL`. It is shown to be
empty only when no value can pass every test; two values that do not compare
end the search for a proof.
-/

namespace WhatIf

/-- What is known about whether a column is `NULL`. -/
inductive Nullness where
  | unknown
  | null
  | notNull
  deriving DecidableEq

/-- One end of a range of values. -/
structure Endpoint where
  /-- The value at the end. -/
  value : Datum
  /-- Whether the value itself belongs to the range. -/
  inclusive : Bool

/-- The values a column may still take. -/
structure Domain where
  /-- The greatest lower end so far. -/
  lower : Option Endpoint
  /-- The least upper end so far. -/
  upper : Option Endpoint
  /-- The values that remain, once some have been listed. -/
  values : Option (List Datum)
  /-- The values excluded. -/
  excluded : List Datum
  /-- What is known about `NULL`. -/
  nullness : Nullness
  /-- Whether a test has failed of every value. -/
  empty : Bool
  /-- Whether two values did not compare, which rules out a proof. -/
  undecidable : Bool

namespace Domain

/-- The domain of a column about which nothing is known. -/
def full : Domain where
  lower := none
  upper := none
  values := none
  excluded := []
  nullness := .unknown
  empty := false
  undecidable := false

/-- Rule out `NULL`. -/
def requireNotNull (d : Domain) : Domain :=
  match d.nullness with
  | .null => { d with empty := true }
  | _ => { d with nullness := .notNull }

/-- Rule out everything but `NULL`. -/
def requireNull (d : Domain) : Domain :=
  match d.nullness with
  | .notNull => { d with empty := true }
  | _ => { d with nullness := .null }

/-- Keep only values equal to one of the candidates. -/
def restrictTo (d : Domain) (candidates : List Datum) : Domain :=
  match d.values with
  | none => { d with values := some candidates }
  | some current =>
    { d with
      values := some (current.filter fun v => candidates.any v.equals)
      undecidable := d.undecidable ||
        current.any fun v => candidates.any fun c => (v.compare? c).isNone }

/-- Whether an end given as `value` lies inside one at `current`, where
`inward` is how an inner value compares with an outer one: `none` if the two
do not compare. -/
def tightens? (inward : Ordering) (value : Datum) (inclusive : Bool) (current : Endpoint) :
    Option Bool :=
  (value.compare? current.value).map fun o =>
    o == inward || (o == .eq && current.inclusive && !inclusive)

/-- The tighter of an end and the one before it, if they compare. -/
def tighten (inward : Ordering) (before : Option Endpoint) (value : Datum) (inclusive : Bool) :
    Option Endpoint × Bool :=
  match before with
  | none => (some ⟨value, inclusive⟩, false)
  | some current =>
    match tightens? inward value inclusive current with
    | some true => (some ⟨value, inclusive⟩, false)
    | some false => (some current, false)
    | none => (some current, true)

/-- Raise the lower end. -/
def tightenLower (d : Domain) (value : Datum) (inclusive : Bool) : Domain :=
  let (lower, clash) := tighten .gt d.lower value inclusive
  { d with lower := lower, undecidable := d.undecidable || clash }

/-- Bring down the upper end. -/
def tightenUpper (d : Domain) (value : Datum) (inclusive : Bool) : Domain :=
  let (upper, clash) := tighten .lt d.upper value inclusive
  { d with upper := upper, undecidable := d.undecidable || clash }

/-- Keep only the values that stand in a relation to a constant. -/
def compareWith (d : Domain) (op : CompareOp) (value : Datum) : Domain :=
  match op with
  | .eq => d.restrictTo [value]
  | .ne => { d with excluded := d.excluded ++ [value] }
  | .gt => d.tightenLower value false
  | .ge => d.tightenLower value true
  | .lt => d.tightenUpper value false
  | .le => d.tightenUpper value true

/-- Keep only the values that pass a test. -/
def apply (d : Domain) : ColumnTest → Domain
  | .isNull => d.requireNull
  | .isNotNull => d.requireNotNull
  | .compare op value =>
    let d := d.requireNotNull
    if value.isNull then { d with empty := true } else d.compareWith op value
  | .isIn values => d.requireNotNull.restrictTo (values.filter fun v => !v.isNull)

/-- Whether a value lies on the inner side of an end: `none` if they do not
compare. -/
def within? (inward : Ordering) (value : Datum) : Option Endpoint → Option Bool
  | none => some true
  | some e => (value.compare? e.value).map fun o => o == inward || (o == .eq && e.inclusive)

/-- Whether a value differs from every excluded one: `none` if one that it
does not compare with comes before any equal one. -/
def avoids? (value : Datum) : List Datum → Option Bool
  | [] => some true
  | x :: rest =>
    match value.compare? x with
    | none => none
    | some .eq => some false
    | some _ => avoids? value rest

/-- Whether a value passes the bounds and exclusions, checked in this order
up to the first failure: `none` if a check could not be decided. -/
def allows? (d : Domain) (value : Datum) : Option Bool :=
  match within? .gt value d.lower with
  | some true =>
    match within? .lt value d.upper with
    | some true => avoids? value d.excluded
    | other => other
  | other => other

/-- Whether a bound, a list or an exclusion has been recorded. -/
def mentionsValue (d : Domain) : Bool :=
  d.lower.isSome || d.upper.isSome || d.values.isSome || !d.excluded.isEmpty

/-- Whether two ends leave no value between them. -/
def crossed (low high : Endpoint) : Bool :=
  match low.value.compare? high.value with
  | some .gt => true
  | some .eq => !(low.inclusive && high.inclusive)
  | _ => false

/-- Whether no value can remain. -/
def isProvablyEmpty (d : Domain) : Bool :=
  if d.empty then true
  else if d.undecidable then false
  else if d.nullness = .null then d.mentionsValue
  else
    match d.values with
    | some values => values.all fun v => d.allows? v == some false
    | none =>
      match d.lower, d.upper with
      | some low, some high => crossed low high
      | _, _ => false

end Domain

end WhatIf
