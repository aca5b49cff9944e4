import WhatIf.Document.Source
import WhatIf.Document.Json
import WhatIf.Decimal.Layout
import WhatIf.Ident
import WhatIf.Text.Letters
/-!
# Brief — requests and answers in short JSON

Requests to the library and its answers are exchanged as JSON in which
nothing is written that goes without saying. Reading never fails: what is
missing reads like `null`, and `null` or anything of the wrong form as the
plainest value of its type. A double is answered as text, because it may be
no number, and is read from a number or from text. An identifier may be
written as a name bound earlier, with a number to add: `$t+1`.
-/

namespace WhatIf

/-- Identifiers bound to names. -/
abbrev Bindings : Type := List (String × Nat)

/-- Part of a request, with the names that may stand in it. -/
structure Request where
  /-- The names. -/
  bindings : Bindings
  /-- What is written. -/
  body : Source

/-- Types whose values are read from requests. -/
class OfBrief (α : Type) where
  /-- Read a value. -/
  read : Request → α

/-- Types whose values are answered. -/
class ToBrief (α : Type) where
  /-- Write a value. -/
  write : α → Json

/-- The short JSON of a value. -/
def brief {α : Type} [ToBrief α] (a : α) : Json := ToBrief.write a

namespace Source

mutual

/-- How deep arrays and objects are nested. -/
def depth : Source → Nat
  | array items => depthOfAll items + 1
  | object members => depthOfMembers members + 1
  | _ => 0

/-- The depth of the deepest of several sources. -/
def depthOfAll : List Source → Nat
  | [] => 0
  | s :: rest => max (depth s) (depthOfAll rest)

/-- The depth of the deepest member. -/
def depthOfMembers : List (Option String × Source) → Nat
  | [] => 0
  | (_, s) :: rest => max (depth s) (depthOfMembers rest)

end

/-- The member of a name. -/
def field (s : Source) (name : String) : Source :=
  match s with
  | object ms =>
    match ms.find? fun m => m.1 == some name with
    | some (_, v) => v
    | none => null
  | _ => null

/-- The items of an array. -/
def items : Source → List Source
  | array xs => xs
  | _ => []

/-- Whether nothing is written. -/
def isNull : Source → Bool
  | null => true
  | _ => false

end Source

namespace Request

variable {α β : Type} (q : Request)

/-- The part under a name. -/
def field (name : String) : Request := { q with body := q.body.field name }

/-- Whether there is a part under a name. -/
def has (name : String) : Bool := !(q.body.field name).isNull

/-- The items of an array. -/
def items : List Request := q.body.items.map fun s => { q with body := s }

/-- The item at a position. -/
def item (i : Nat) : Request := { q with body := (q.body.items[i]?).getD .null }

/-- The items from a position on, as an array. -/
def after (i : Nat) : Request := { q with body := .array (q.body.items.drop i) }

/-- The named members of an object. -/
def members : List (String × Request) :=
  match q.body with
  | .object ms => ms.filterMap fun m => m.1.map fun k => (k, { q with body := m.2 })
  | _ => []

/-- Read a value under a name. -/
def get [OfBrief α] (name : String) : α := OfBrief.read (q.field name)

/-- Read a value under a name, if there is one. -/
def getOr [OfBrief α] (name : String) (standard : α) : α :=
  if q.has name then q.get name else standard

/-- Read the item at a position. -/
def nth [OfBrief α] (i : Nat) : α := OfBrief.read (q.item i)

/-- Read each item of an array. -/
def each (f : Request → α) : List α := q.items.map f

/-- Read one of several named values, the first of which goes without
saying. -/
def choice (standard : α) (table : List (String × α)) : α :=
  match q.body with
  | .text (some name) =>
    match table.find? fun row => row.1 == name with
    | some row => row.2
    | none => standard
  | _ => standard

end Request

/-! ## Reading plain values -/

instance : OfBrief Request := ⟨id⟩

instance : OfBrief Bool where
  read q := match q.body with
    | .bool b => b
    | _ => false

instance : OfBrief String where
  read q := match q.body with
    | .text (some s) => s
    | _ => ""

instance : OfBrief Int where
  read q := match q.body with
    | .number n => n.int?.getD 0
    | _ => 0

instance : OfBrief Nat := ⟨fun q => (OfBrief.read q : Int).toNat⟩

instance : OfBrief UInt32 := ⟨fun q => UInt32.ofNat (OfBrief.read q)⟩

/-- Read a double from text, which may be no finite number. The names of
those have no case and take a sign. -/
def Decimal.readSpecial (s : String) : Float :=
  match Text.lower s with
  | "nan" | "+nan" | "-nan" => 0.0 / 0.0
  | "inf" | "+inf" | "infinity" | "+infinity" => 1.0 / 0.0
  | "-inf" | "-infinity" => -1.0 / 0.0
  | _ => (Decimal.read? s).getD 0.0

instance : OfBrief Float where
  read q := match q.body with
    | .number n => n.float?.getD 0.0
    | .text (some s) => Decimal.readSpecial s
    | _ => 0.0

instance {α : Type} [OfBrief α] : OfBrief (Option α) where
  read q := if q.body.isNull then none else some (OfBrief.read q)

instance {α : Type} [OfBrief α] : OfBrief (List α) := ⟨fun q => q.each OfBrief.read⟩

/-- What a name and a number to add stand for; a name nobody has bound
stands for zero. -/
def Bindings.resolve (b : Bindings) (s : String) : Nat :=
  let (name, added) := match s.splitOn "+" with
    | name :: n :: _ => (name, n.toNat?.getD 0)
    | name :: _ => (name, 0)
    | [] => ("", 0)
  ((b.find? fun x => "$" ++ x.1 == name).map fun x => x.2).getD 0 + added

/-- Bind a name, anew if it is bound. -/
def Bindings.bind (b : Bindings) (name : String) (n : Nat) : Bindings :=
  (name, n) :: b.filter fun x => x.1 != name

instance : OfBrief Oid where
  read q := match q.body with
    | .text (some s) => ⟨UInt32.ofNat (q.bindings.resolve s)⟩
    | _ => ⟨OfBrief.read q⟩

instance : OfBrief AttNum := ⟨fun q => ⟨OfBrief.read q⟩⟩

instance : OfBrief RangeIndex := ⟨fun q => ⟨OfBrief.read q⟩⟩

/-! ## Writing plain values -/

instance : ToBrief Json := ⟨id⟩

instance : ToBrief Unit := ⟨fun _ => .null⟩

instance : ToBrief Bool := ⟨.bool⟩

instance : ToBrief String := ⟨.text⟩

instance : ToBrief Int := ⟨.int⟩

instance : ToBrief Nat := ⟨fun n => .int (Int.ofNat n)⟩

instance : ToBrief UInt32 := ⟨fun n => brief n.toNat⟩

instance : ToBrief Float := ⟨fun x => .text (Decimal.Layout.plain.write x)⟩

instance {α : Type} [ToBrief α] : ToBrief (Option α) where
  write
    | some a => brief a
    | none => .null

instance {α : Type} [ToBrief α] : ToBrief (List α) := ⟨fun xs => .array (xs.map brief)⟩

instance {α β : Type} [ToBrief α] [ToBrief β] : ToBrief (α × β) :=
  ⟨fun x => .array [brief x.1, brief x.2]⟩

instance : ToBrief Ordering where
  write
    | .lt => .text "lt"
    | .eq => .text "eq"
    | .gt => .text "gt"

instance : ToBrief Oid := ⟨fun o => brief o.word⟩

instance : ToBrief AttNum := ⟨fun a => brief a.number⟩

instance : ToBrief RangeIndex := ⟨fun i => brief i.position⟩

end WhatIf
