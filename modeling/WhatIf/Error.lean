import WhatIf.Partition.Bound
/-!
# Error — why a call fails

Each error is a cause with the objects it concerns; `message` words it. A
statement or an administrative call fails with an `Error`, which wraps the
causes of its parts.
-/

namespace WhatIf

/-- A name between double quotes. -/
def quoted (name : String) : String := "\x22" ++ name ++ "\x22"

/-- Why the catalog refuses. -/
inductive CatalogError where
  | relationNotFound (oid : Oid)
  | relationNameNotFound (name : String)
  | indexNotFound (oid : Oid)
  | duplicateRelation (name : String)
  | identifiersExhausted
  | accessFailed (reason : String)
  deriving DecidableEq

/-- The wording of a refusal. -/
def CatalogError.message : CatalogError → String
  | relationNotFound oid => "relation with OID " ++ oid.text ++ " does not exist"
  | relationNameNotFound name => "relation " ++ quoted name ++ " does not exist"
  | indexNotFound oid => "index with OID " ++ oid.text ++ " does not exist"
  | duplicateRelation name => "relation " ++ quoted name ++ " already exists"
  | identifiersExhausted => "object identifier space exhausted"
  | accessFailed reason => "catalog access failed: " ++ reason

/-- The wording of a column that a relation does not have. -/
def missingColumn (relation column : String) : String :=
  "column " ++ quoted column ++ " of relation " ++ quoted relation ++ " does not exist"

/-- What is wrong with a partitioning layout. -/
inductive LayoutFault where
  | emptyKey
  | wideListKey
  | repeatedKeyColumn (column : String)
  | noPartitions (strategy : Strategy)
  | repeatedName (name : String)
  | hashDefault
  | secondDefault (name : String)
  | foreignBound (name : String) (strategy : Strategy)
  | boundArity (name : String) (arity : Nat)
  | boundValue (name : String) (value : Datum) (type : DataType)
  | boundAfterLimit (lower : Bool) (name : String) (limit : RangeDatum)
  | emptyRange (name : String)
  | emptyList (name : String)
  | listValue (name : String) (value : Datum) (type : DataType)
  | zeroModulus (name : String)
  | remainderTooLarge (name : String)
  | overlap (name other : String)
  | overlapOnValue (name other : String) (value : Datum)
  | modulusNotFactor (name other : String)

/-- The wording of a fault in a layout. -/
def LayoutFault.message : LayoutFault → String
  | emptyKey => "a partition key needs at least one column"
  | wideListKey => "cannot use list partition strategy with more than one column"
  | repeatedKeyColumn c => "column " ++ quoted c ++ " appears more than once in partition key"
  | noPartitions s => s.name ++ " partitioning needs at least one partition"
  | repeatedName n => "partition name " ++ quoted n ++ " is used more than once"
  | hashDefault => "a hash-partitioned table may not have a default partition"
  | secondDefault n => "partition " ++ quoted n ++ " would be a second default partition"
  | foreignBound n s =>
    "partition " ++ quoted n ++ " has a bound that does not match " ++ s.name ++ " partitioning"
  | boundArity n k =>
    "partition " ++ quoted n ++ " bound must have exactly " ++ toString k ++ " values"
  | boundValue n v t =>
    "partition " ++ quoted n ++ " bound value " ++ v.sql ++ " is not valid for type " ++ t.sqlName
  | boundAfterLimit lower n l =>
    "every " ++ (if lower then "lower" else "upper") ++ " bound value of partition " ++ quoted n ++
      " following " ++ l.sql ++ " must also be " ++ l.sql
  | emptyRange n => "empty range bound specified for partition " ++ quoted n
  | emptyList n => "partition " ++ quoted n ++ " must list at least one value"
  | listValue n v t =>
    "partition " ++ quoted n ++ " value " ++ v.sql ++ " is not valid for type " ++ t.sqlName
  | zeroModulus n => "partition " ++ quoted n ++ " modulus must be a positive integer"
  | remainderTooLarge n => "partition " ++ quoted n ++ " remainder must be less than modulus"
  | overlap n o => "partition " ++ quoted n ++ " would overlap partition " ++ quoted o
  | overlapOnValue n o v =>
    "partition " ++ quoted n ++ " would overlap partition " ++ quoted o ++ " on value " ++ v.sql
  | modulusNotFactor n o =>
    "every hash partition modulus must be a factor of the next larger modulus (" ++ quoted n ++
      " and " ++ quoted o ++ ")"

/-- What is wrong with an index definition. -/
inductive IndexFault where
  | notIndexable (relation : String)
  | noKeys
  | multiColumn (method : AccessMethod)
  | uniqueness (method : AccessMethod)
  | included (method : AccessMethod)
  | ordering (method : AccessMethod)

/-- The wording of a fault in an index definition. -/
def IndexFault.message : IndexFault → String
  | notIndexable r => quoted r ++ " is not a table or materialized view"
  | noKeys => "an index needs at least one key column"
  | multiColumn m => "access method " ++ quoted m.name ++ " does not support multicolumn indexes"
  | uniqueness m => "access method " ++ quoted m.name ++ " does not support unique indexes"
  | included m => "access method " ++ quoted m.name ++ " does not support included columns"
  | ordering m => "access method " ++ quoted m.name ++ " does not support ASC/DESC options"

/-- Why a relation cannot be shadowed. -/
inductive ShadowFault where
  | unreadable (cause : CatalogError)
  | notTable (name : String)
  | hasChildren (name : String)

/-- The wording of a relation that cannot be shadowed. -/
def ShadowFault.message : ShadowFault → String
  | unreadable cause => cause.message
  | notTable name => quoted name ++ " is not a table"
  | hasChildren name => quoted name ++ " already has inheritance children"

/-- Why a hypothetical object is refused. -/
inductive RegistryError where
  | invalidTarget (relid : Oid) (fault : ShadowFault)
  | alreadyPartitioned (name : String)
  | alreadyShadowed (name : String)
  | invalidLayout (fault : LayoutFault)
  | emptyTree (name : String)
  | unsupportedIndex (fault : IndexFault)
  | columnNotFound (relation column : String)
  | allocationFailed (cause : CatalogError)
  | identifiersExhausted (attempts : Nat)
  | unknownObject (oid : Oid)

/-- The wording of a refused object. -/
def RegistryError.message : RegistryError → String
  | invalidTarget relid fault => "cannot shadow relation " ++ relid.text ++ ": " ++ fault.message
  | alreadyPartitioned name => "table " ++ quoted name ++ " is already partitioned"
  | alreadyShadowed name => "table " ++ quoted name ++ " is already hypothetically partitioned"
  | invalidLayout fault => "invalid partitioning: " ++ fault.message
  | emptyTree name => "invalid partitioning: no partitions for " ++ quoted name
  | unsupportedIndex fault => "unsupported hypothetical index: " ++ fault.message
  | columnNotFound relation column => missingColumn relation column
  | allocationFailed cause =>
    "could not allocate a hypothetical object identifier: " ++ cause.message
  | identifiersExhausted attempts =>
    "no free hypothetical object identifier after " ++ toString attempts ++ " attempts"
  | unknownObject oid => "no hypothetical object with identifier " ++ oid.text

/-- Identifies one installation of an interceptor. -/
structure Handle where
  /-- The number of the installation, counted from one. -/
  number : Nat
  deriving DecidableEq

/-- The text of a handle. -/
def Handle.text (h : Handle) : String := "#" ++ toString h.number

/-- Why an interceptor cannot be uninstalled. -/
inductive StackError where
  | outOfOrder (handle top : Handle)
  | unknownHandle (handle : Handle)
  deriving DecidableEq

/-- The wording of a refused uninstallation. -/
def StackError.message : StackError → String
  | outOfOrder h top =>
    "interceptor " ++ h.text ++ " cannot be uninstalled before " ++ top.text ++
      ", which was installed after it"
  | unknownHandle h => "no interceptor is installed with handle " ++ h.text

/-- Why a query cannot be planned. -/
inductive PlanningFault where
  | unknownColumn (relation column : String)
  | noEntry (entry : RangeIndex)
  | noPath (relation : String)
  | noQuery
  | tooDeep

/-- The wording of a failure to plan. -/
def PlanningFault.message : PlanningFault → String
  | unknownColumn relation column => missingColumn relation column
  | noEntry e => "no range table entry " ++ toString e.position
  | noPath relation => "no access path for relation " ++ quoted relation
  | noQuery => "SELECT without a query"
  | tooDeep => "inheritance is nested too deeply"

/-- Why a plan cannot be executed. -/
inductive ExecutionFault where
  | noEntry (entry : RangeIndex)
  | hypotheticalRelation (oid : Oid)
  | unreadable (cause : CatalogError)
  | noIndex (oid : Oid)
  | foreignIndex (index relation : String)

/-- The wording of a failure to execute. -/
def ExecutionFault.message : ExecutionFault → String
  | noEntry e => "no range table entry " ++ toString e.position
  | hypotheticalRelation oid => "relation " ++ oid.text ++ " does not exist"
  | unreadable cause => cause.message
  | noIndex oid => "could not open index " ++ oid.text
  | foreignIndex index relation =>
    "index " ++ quoted index ++ " does not belong to " ++ quoted relation

/-- What a statement asks for in vain. -/
inductive Unsupported where
  | formatWithoutValue
  | format (name : String)
  | notUtility

/-- The wording of what is not supported. -/
def Unsupported.message : Unsupported → String
  | formatWithoutValue => "EXPLAIN option " ++ quoted "format" ++ " requires a value"
  | format name =>
    "unrecognized value for EXPLAIN option " ++ quoted "format" ++ ": " ++ quoted name
  | notUtility => "not a utility statement"

/-- What is wrong with the value of a setting. -/
inductive SettingFault where
  | notBoolean (value : String)
  | notExclusion (value : String)
  | notCost (value : String)
  | unknownName

/-- The wording of a bad setting. -/
def SettingFault.message : SettingFault → String
  | notBoolean v => "expected a boolean, got " ++ quoted v
  | notExclusion v => "expected on, off or partition, got " ++ quoted v
  | notCost v => "expected a non-negative number, got " ++ quoted v
  | unknownName => "unrecognized configuration parameter"

/-- Why a statement or an administrative call fails. -/
inductive Error where
  | catalog (cause : CatalogError)
  | registry (cause : RegistryError)
  | stack (cause : StackError)
  | planning (fault : PlanningFault)
  | execution (fault : ExecutionFault)
  | unsupported (what : Unsupported)
  | setting (name : String) (fault : SettingFault)
  | interceptor (name message : String)

/-- The wording of an error. -/
def Error.message : Error → String
  | catalog cause => cause.message
  | registry cause => cause.message
  | stack cause => cause.message
  | planning fault => "planning failed: " ++ fault.message
  | execution fault => "execution failed: " ++ fault.message
  | unsupported what => "unsupported statement: " ++ what.message
  | setting name fault => "invalid value for setting " ++ quoted name ++ ": " ++ fault.message
  | interceptor name message => "interceptor " ++ name ++ " failed: " ++ message

end WhatIf
