import WhatIf.Error
import WhatIf.Decimal.Read
/-!
# Settings — what the planner may use and what work costs

Every session has its own settings, changed by name with `SET` and started
from variables of the environment. A name is taken in any letter case.
-/

namespace WhatIf

/-- The truth value of a setting, in the spellings `SET` accepts. -/
def readBool? (value : String) : Option Bool :=
  match Text.lower (Text.trim value) with
  | "on" | "true" | "yes" | "1" | "t" => some true
  | "off" | "false" | "no" | "0" | "f" => some false
  | _ => none

/-- When the planner checks constraints against restrictions. -/
inductive Exclusion where
  | on
  | off
  /-- Only for inheritance children and partitions. -/
  | partition
  deriving DecidableEq

namespace Exclusion

/-- Whether constraints are checked for a relation that is, or is not, an
inheritance child. -/
def applies : Exclusion → Bool → Bool
  | on, _ => true
  | off, _ => false
  | partition, isChild => isChild

/-- Read the value of the setting. -/
def read (value : String) : Except SettingFault Exclusion :=
  if Text.sameName (Text.trim value) "partition" then .ok .partition
  else
    match readBool? value with
    | some true => .ok .on
    | some false => .ok .off
    | none => .error (.notExclusion value)

end Exclusion

/-- The settings of the planner. -/
structure Settings where
  /-- Whether sequential scans are welcome. -/
  enableSeqScan : Bool
  /-- Whether index scans are welcome. -/
  enableIndexScan : Bool
  /-- Whether bitmap scans are welcome. -/
  enableBitmapScan : Bool
  /-- When constraints are checked. -/
  exclusion : Exclusion
  /-- The cost of a page read in sequence. -/
  seqPageCost : Float
  /-- The cost of a page read out of sequence. -/
  randomPageCost : Float
  /-- The cost of a row. -/
  cpuTupleCost : Float
  /-- The cost of an index entry. -/
  cpuIndexTupleCost : Float
  /-- The cost of an operator. -/
  cpuOperatorCost : Float

namespace Settings

/-- The settings nobody has changed. -/
def standard : Settings where
  enableSeqScan := true
  enableIndexScan := true
  enableBitmapScan := true
  exclusion := .partition
  seqPageCost := 1.0
  randomPageCost := 4.0
  cpuTupleCost := 0.01
  cpuIndexTupleCost := 0.005
  cpuOperatorCost := 0.0025

/-- The names of the settings. -/
def names : List String :=
  ["enable_seqscan", "enable_indexscan", "enable_bitmapscan", "constraint_exclusion",
    "seq_page_cost", "random_page_cost", "cpu_tuple_cost", "cpu_index_tuple_cost",
    "cpu_operator_cost"]

/-- Read a truth value. -/
def readFlag (value : String) : Except SettingFault Bool :=
  match readBool? value with
  | some b => .ok b
  | none => .error (.notBoolean value)

/-- Read a cost: a finite number, not below zero. -/
def readCost (value : String) : Except SettingFault Float :=
  match Decimal.read? (Text.trim value) with
  | some x => if x.isFinite && 0 ≤ x then .ok x else .error (.notCost value)
  | none => .error (.notCost value)

/-- Change the setting of a lowered name. -/
def assign (s : Settings) (name value : String) : Except SettingFault Settings :=
  match name with
  | "enable_seqscan" => (readFlag value).map fun b => { s with enableSeqScan := b }
  | "enable_indexscan" => (readFlag value).map fun b => { s with enableIndexScan := b }
  | "enable_bitmapscan" => (readFlag value).map fun b => { s with enableBitmapScan := b }
  | "constraint_exclusion" => (Exclusion.read value).map fun e => { s with exclusion := e }
  | "seq_page_cost" => (readCost value).map fun x => { s with seqPageCost := x }
  | "random_page_cost" => (readCost value).map fun x => { s with randomPageCost := x }
  | "cpu_tuple_cost" => (readCost value).map fun x => { s with cpuTupleCost := x }
  | "cpu_index_tuple_cost" => (readCost value).map fun x => { s with cpuIndexTupleCost := x }
  | "cpu_operator_cost" => (readCost value).map fun x => { s with cpuOperatorCost := x }
  | _ => .error .unknownName

/-- The settings after `SET name = value`. -/
def set (s : Settings) (name value : String) : Except Error Settings :=
  match s.assign (Text.lower name) value with
  | .ok s => .ok s
  | .error fault => .error (.setting name fault)

/-- The environment variable a setting starts from. -/
def variableOf (name : String) : String := "HYPODB_" ++ Text.upper name

/-- The settings a session starts with: a variable with a bad value counts
as absent. -/
def ofEnvironment (lookup : String → Option String) : Settings :=
  names.foldl (fun s name =>
    match lookup (variableOf name) with
    | none => s
    | some value =>
      match s.set name value with
      | .ok s => s
      | .error _ => s) standard

end Settings

/-- Whether the environment leaves hypothetical objects enabled, which they
are unless a variable tells otherwise. -/
def enabledByEnvironment (lookup : String → Option String) : Bool :=
  ((lookup "HYPODB_ENABLED").bind readBool?).getD true

end WhatIf
