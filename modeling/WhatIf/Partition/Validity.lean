import WhatIf.Error
import WhatIf.Partition.Layout
import WhatIf.Sorting
/-!
# Partition — which layouts are valid

A layout is checked level by level: its key names distinct columns, partition
names are new in the whole layout, each bound is well formed for the key, and
no two bounds overlap. Only then are the levels below checked, each partition
in turn.
-/

namespace WhatIf

namespace Layout

/-- The key columns of a layout in a relation. -/
def resolveColumns (r : Relation) : List String → List Column → Except RegistryError (List Column)
  | [], found => .ok found
  | name :: rest, found =>
    match r.columnNamed? name with
    | none => .error (.columnNotFound r.name name)
    | some c =>
      if found.any fun d => d.attnum == c.attnum then
        .error (.invalidLayout (.repeatedKeyColumn c.name))
      else resolveColumns r rest (found ++ [c])

/-- The key of a layout in a relation. -/
def resolveKey (r : Relation) (strategy : Strategy) (key : List String) :
    Except RegistryError PartitionKey :=
  if key.isEmpty then .error (.invalidLayout .emptyKey)
  else if strategy = .list ∧ key.length ≠ 1 then .error (.invalidLayout .wideListKey)
  else
    (resolveColumns r key []).map fun columns =>
      { strategy
        attnums := columns.map fun c => c.attnum
        types := columns.map fun c => c.type
        names := columns.map fun c => c.name }

/-! ## One bound -/

/-- The first bound value that is `NULL` or does not fit its column. -/
def badBoundValue? (name : String) : List (RangeDatum × DataType) → Option LayoutFault
  | [] => none
  | (.value v, t) :: rest =>
    if v.isNull || !v.fits t then some (.boundValue name v t) else badBoundValue? name rest
  | _ :: rest => badBoundValue? name rest

/-- Whether something other than the first unlimited column follows it. -/
def badAfterLimit? (lower : Bool) (name : String) : List RangeDatum → Option LayoutFault
  | [] => none
  | .value _ :: rest => badAfterLimit? lower name rest
  | limit :: rest =>
    if rest.all (· == limit) then none else some (.boundAfterLimit lower name limit)

/-- What is wrong with a range bound. -/
def rangeFault? (name : String) (lower upper : List RangeDatum) (key : PartitionKey) :
    Option LayoutFault :=
  if lower.length ≠ key.arity ∨ upper.length ≠ key.arity then
    some (.boundArity name key.arity)
  else
    badBoundValue? name (lower.zip key.types ++ upper.zip key.types)
      <|> badAfterLimit? true name lower
      <|> badAfterLimit? false name upper
      <|> if RangeDatum.compareEnds? lower upper == some .lt then none
          else some (.emptyRange name)

/-- What is wrong with a list bound, for a column of the given type. -/
def listFault? (name : String) (values : List Datum) (type : DataType) : Option LayoutFault :=
  if values.isEmpty then some (.emptyList name)
  else (values.find? fun v => !v.fits type).map fun v => .listValue name v type

/-- What is wrong with a hash bound. -/
def hashFault? (name : String) (modulus remainder : UInt32) : Option LayoutFault :=
  if modulus = 0 then some (.zeroModulus name)
  else if modulus ≤ remainder then some (.remainderTooLarge name)
  else none

/-- What is wrong with a bound of a level's own strategy. -/
def boundFault? (name : String) (b : Bound) (key : PartitionKey) : Option LayoutFault :=
  match b with
  | .range lower upper => rangeFault? name lower upper key
  | .list values =>
    match key.types with
    | t :: _ => listFault? name values t
    | [] => none
  | .hash modulus remainder => hashFault? name modulus remainder
  | .default => none

/-- What is wrong with a partition on its own, given whether its level
already has a default partition. -/
def partitionFault? (key : PartitionKey) (hasDefault : Bool) (p : Partition) :
    Option LayoutFault :=
  match p.bound with
  | .default =>
    if key.strategy = .hash then some .hashDefault
    else if hasDefault then some (.secondDefault p.name)
    else none
  | b =>
    if b.strategy? = some key.strategy then boundFault? p.name b key
    else some (.foreignBound p.name key.strategy)

/-- Check the partitions of a level one by one, with the lowered names in
use, and answer the names in use afterwards. -/
def checkPartitions (key : PartitionKey) :
    List Partition → List String → Bool → Except LayoutFault (List String)
  | [], names, _ => .ok names
  | p :: rest, names, hasDefault =>
    let name := Text.lower p.name
    if names.contains name then .error (.repeatedName p.name)
    else
      match partitionFault? key hasDefault p with
      | some fault => .error fault
      | none => checkPartitions key rest (name :: names) (hasDefault || p.bound.isDefault)

/-! ## Overlaps between the bounds of a level -/

/-- A partition's name with the ends of its range. -/
structure NamedRange where
  /-- The name. -/
  name : String
  /-- The lower end. -/
  lower : List RangeDatum
  /-- The upper end. -/
  upper : List RangeDatum

/-- The range of a partition, if it has one. -/
def namedRange? (p : Partition) : Option NamedRange :=
  match p.bound with
  | .range lower upper => some ⟨p.name, lower, upper⟩
  | _ => none

/-- The first range in the list that reaches beyond the start of the next. -/
def overlapOfNeighbours? : List NamedRange → Option LayoutFault
  | a :: b :: rest =>
    if RangeDatum.compareEnds? a.upper b.lower == some .gt then some (.overlap b.name a.name)
    else overlapOfNeighbours? (b :: rest)
  | _ => none

/-- An overlap between two ranges: with the ranges sorted by their lower
ends, two overlap iff two neighbours do. -/
def rangeOverlap? (ps : List Partition) : Option LayoutFault :=
  overlapOfNeighbours?
    (Sorting.sort (fun a b => RangeDatum.compareEnds? a.lower b.lower == some .lt) .four
      (ps.filterMap namedRange?))

/-- The values of a list partition, each with the partition's name. -/
def namedValues (p : Partition) : List (String × Datum) :=
  match p.bound with
  | .list values => values.map fun v => (p.name, v)
  | _ => []

/-- The first value that is listed again, given the values seen so far. -/
def repeatedValue? : List (String × Datum) → List (String × Datum) → Option LayoutFault
  | _, [] => none
  | seen, (name, v) :: rest =>
    match seen.find? fun s => (v.isNull && s.2.isNull) || v.equals s.2 with
    | some (owner, _) => some (.overlapOnValue name owner v)
    | none => repeatedValue? (seen ++ [(name, v)]) rest

/-- A value listed twice. -/
def listOverlap? (ps : List Partition) : Option LayoutFault :=
  repeatedValue? [] (ps.flatMap namedValues)

/-- A partition's name with its modulus and remainder. -/
structure NamedRemainder where
  /-- The name. -/
  name : String
  /-- The modulus. -/
  modulus : UInt32
  /-- The remainder. -/
  remainder : UInt32

/-- The remainder of a partition, if it has one. -/
def namedRemainder? (p : Partition) : Option NamedRemainder :=
  match p.bound with
  | .hash modulus remainder => some ⟨p.name, modulus, remainder⟩
  | _ => none

/-- What is wrong between two hash bounds: the smaller modulus must divide
the larger, and the larger bound must not lie within the smaller. -/
def remainderClash? (a b : NamedRemainder) : Option LayoutFault :=
  let (small, large) := if a.modulus ≤ b.modulus then (a, b) else (b, a)
  if large.modulus % small.modulus ≠ 0 then some (.modulusNotFactor a.name b.name)
  else if large.remainder % small.modulus = small.remainder then some (.overlap a.name b.name)
  else none

/-- The first clash of a hash bound with one before it. -/
def firstClash? : List NamedRemainder → List NamedRemainder → Option LayoutFault
  | _, [] => none
  | before, a :: rest =>
    match before.findSome? (remainderClash? a) with
    | some fault => some fault
    | none => firstClash? (before ++ [a]) rest

/-- A clash between two hash bounds. -/
def hashOverlap? (ps : List Partition) : Option LayoutFault :=
  firstClash? [] (ps.filterMap namedRemainder?)

/-- An overlap between two bounds of a level. -/
def overlap? (strategy : Strategy) (ps : List Partition) : Option LayoutFault :=
  match strategy with
  | .range => rangeOverlap? ps
  | .list => listOverlap? ps
  | .hash => hashOverlap? ps

/-! ## All levels -/

/-- Check one level, with the lowered names in use, and answer the names in
use afterwards. -/
def checkLevel (r : Relation) (strategy : Strategy) (key : List String) (ps : List Partition)
    (names : List String) : Except RegistryError (List String) :=
  match resolveKey r strategy key with
  | .error e => .error e
  | .ok resolved =>
    if ps.isEmpty then .error (.invalidLayout (.noPartitions strategy))
    else
      match checkPartitions resolved ps names false with
      | .error fault => .error (.invalidLayout fault)
      | .ok names =>
        match overlap? strategy ps with
        | some fault => .error (.invalidLayout fault)
        | none => .ok names

mutual

/-- Check the levels below a partition. -/
def checkBelow (r : Relation) : Partition → List String → Except RegistryError (List String)
  | .leaf _ _, names => .ok names
  | .split _ _ strategy key ps, names =>
    match checkLevel r strategy key ps names with
    | .error e => .error e
    | .ok names => checkAllBelow r ps names

/-- Check the levels below each partition in turn. -/
def checkAllBelow (r : Relation) : List Partition → List String → Except RegistryError (List String)
  | [], names => .ok names
  | p :: rest, names =>
    match checkBelow r p names with
    | .error e => .error e
    | .ok names => checkAllBelow r rest names

end

/-- Check a layout for a relation, whose own name is in use. -/
def validate (r : Relation) (l : Layout) : Except RegistryError Unit :=
  match checkLevel r l.strategy l.key l.partitions [Text.lower r.name] with
  | .error e => .error e
  | .ok names => (checkAllBelow r l.partitions names).map fun _ => ()

end Layout

end WhatIf
