import WhatIf.Condition
/-!
# Constraint — what every row of a relation is known to satisfy

A constraint is a test on one column, a choice between tests on one column,
or a fact about the combined hash of several columns.
-/

namespace WhatIf

/-- A constraint. -/
inductive Constraint where
  /-- A column passes a test. -/
  | column (restriction : Restriction)
  /-- A column passes at least one of several tests. -/
  | either (attnum : AttNum) (column : String) (alternatives : List ColumnTest)
  /-- The combined hash of the key columns leaves a given remainder. -/
  | hash (attnums : List AttNum) (types : List DataType) (modulus remainder : UInt32)

namespace Constraint

/-- The constraint as SQL writes it. -/
def sql : Constraint → String
  | column r => r.sql
  | either _ name alternatives =>
    "(" ++ Text.join " OR " (alternatives.map fun t => t.sql name) ++ ")"
  | hash _ _ modulus remainder =>
    "satisfies_hash_partition(" ++ toString modulus.toNat ++ ", " ++ toString remainder.toNat ++ ")"

end Constraint

end WhatIf
