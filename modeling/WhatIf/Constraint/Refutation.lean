import WhatIf.Constraint.Domain
/-!
# Constraint — refutation

Whether no row can satisfy both the restrictions of a query and the
constraints of a relation. Column tests and choices are refuted one column at
a time, trying every combination of alternatives; a hash constraint is
refuted when the restrictions pin all its columns.
-/

namespace WhatIf

namespace Constraint

/-- Whether each combination of one alternative per choice empties the
domain. -/
def emptied (d : Domain) : List (List ColumnTest) → Bool
  | [] => d.isProvablyEmpty
  | alternatives :: rest => alternatives.all fun t => emptied (d.apply t) rest

/-- The column a constraint speaks of, if it is one column. -/
def attnum? : Constraint → Option AttNum
  | column r => some r.attnum
  | either a _ _ => some a
  | hash .. => none

/-- The test a constraint makes of a column. -/
def testOn? (a : AttNum) : Constraint → Option ColumnTest
  | column r => if r.attnum = a then some r.test else none
  | _ => none

/-- The choice a constraint leaves to a column. -/
def choiceOn? (a : AttNum) : Constraint → Option (List ColumnTest)
  | either b _ alternatives => if b = a then some alternatives else none
  | _ => none

/-- The tests of a list of restrictions on one column. -/
def testsOn (a : AttNum) (restrictions : List Restriction) : List ColumnTest :=
  (restrictions.filter fun r => r.attnum == a).map fun r => r.test

/-- Whether the tests and choices on one column leave it no value. -/
def columnRefuted (restrictions : List Restriction) (constraints : List Constraint)
    (a : AttNum) : Bool :=
  let tests := testsOn a restrictions ++ constraints.filterMap (testOn? a)
  emptied (tests.foldl Domain.apply .full) (constraints.filterMap (choiceOn? a))

/-- The value the restrictions pin a column to, as its type stores it. -/
def pinned? (restrictions : List Restriction) (a : AttNum) (type : DataType) : Option Datum :=
  ((restrictions.filter fun r => r.attnum == a).findSome? Restriction.equalityValue?).bind
    fun v => v.coerce? type

/-- Whether the restrictions pin every column of a hash constraint to
values of another remainder. -/
def hashRefuted (restrictions : List Restriction) : Constraint → Bool
  | hash attnums types modulus remainder =>
    if modulus = 0 ∨ types.length ≠ attnums.length then false
    else
      match (attnums.zip types).mapM fun (a, t) => pinned? restrictions a t with
      | some row => Datum.rowHash row % modulus != remainder
      | none => false
  | _ => false

/-- Whether no row can satisfy both the restrictions and the constraints. -/
def refutedBy (restrictions : List Restriction) (constraints : List Constraint) : Bool :=
  let columns := restrictions.map (fun r => r.attnum) ++ constraints.filterMap attnum?
  columns.any (columnRefuted restrictions constraints) ||
    constraints.any (hashRefuted restrictions)

end Constraint

end WhatIf
