import WhatIf.Condition
/-!
# Constraint — implication

Whether every row that satisfies the restrictions of a query satisfies the
predicate of a partial index. Each clause of the predicate must follow from
one restriction on its column.
-/

namespace WhatIf

namespace ColumnTest

/-- Whether `x op a` implies `x op' b` for two operators of the same
direction, given the order of `a` and `b`. -/
def boundImplies (op op' : CompareOp) (o : Ordering) : Bool :=
  match op, op' with
  | .lt, .lt | .lt, .le | .le, .le => o != .gt
  | .le, .lt => o == .lt
  | .gt, .gt | .gt, .ge | .ge, .ge => o != .lt
  | .ge, .gt => o == .gt
  | _, _ => false

/-- Whether a test that is known to hold implies another one. -/
def implies (given wanted : ColumnTest) : Bool :=
  given == wanted ||
    match given, wanted with
    | .isNull, .isNotNull => false
    | _, .isNotNull => true
    | .compare .eq v, _ => wanted.evaluate v == some true
    | .isIn vs, _ => !vs.isEmpty && vs.all fun v => v.isNull || wanted.evaluate v == some true
    | .compare op a, .compare op' b =>
      match a.compare? b with
      | some o => boundImplies op op' o
      | none => false
    | _, _ => false

end ColumnTest

namespace Restriction

/-- Whether the restrictions imply every clause of a predicate. -/
def allImply (restrictions predicate : List Restriction) : Bool :=
  predicate.all fun clause =>
    (restrictions.filter fun r => r.attnum == clause.attnum).any fun r =>
      r.test.implies clause.test

end Restriction

end WhatIf
