import WhatIf.Document.Source
import WhatIf.Document.Json
import WhatIf.Ident
/-!
# Document — reading and writing values of a type

A codec reads a value of a type from a source and writes it as JSON. Records
are objects, or arrays of all their fields in order; a record read from an
object ignores members it does not know, takes each field once, and takes a
field that may be absent for absent if it is missing. A choice is its name, or
an object whose only member has that name. Arrays and objects may be nested
127 deep.
-/

namespace WhatIf

/-- How values of a type are read and written. -/
structure Codec (α : Type) where
  /-- Read a value from a source, inside of which so many levels may still be
  opened, less one. -/
  read : Nat → Source → Option α
  /-- Write a value. -/
  write : α → Json

namespace Codec

variable {α β ρ : Type}

/-- One level less, if a level may be opened. -/
def enter? (depth : Nat) : Option Nat := if depth < 2 then none else some (depth - 1)

/-- The codec of a type that is told apart from another only by its name. -/
def imap (c : Codec α) (forth : α → β) (back : β → α) : Codec β :=
  ⟨fun d s => (c.read d s).map forth, fun b => c.write (back b)⟩

/-! ## Plain values -/

/-- Truth values. -/
def bool : Codec Bool where
  read _ s := match s with
    | .bool b => some b
    | _ => none
  write := .bool

/-- Texts. -/
def text : Codec String where
  read _ s := match s with
    | .text value => value
    | _ => none
  write := .text

/-- Doubles; what is no finite number is written `null` and not read. -/
def float : Codec Float where
  read _ s := match s with
    | .number n => n.float?
    | _ => none
  write := .float

/-- Integers within limits. -/
def int (low high : Int) : Codec Int where
  read _ s := match s with
    | .number n => n.int?.filter fun i => low ≤ i && i ≤ high
    | _ => none
  write := .int

/-- Integers of so many bits, one of which is the sign. -/
def signed (bits : Nat) : Codec Int :=
  let limit := Int.ofNat (Decimal.twoTo (bits - 1))
  int (-limit) (limit - 1)

/-- Natural numbers of so many bits. -/
def nat (bits : Nat) : Codec Nat :=
  (int 0 (Int.ofNat (Decimal.twoTo bits) - 1)).imap Int.toNat Int.ofNat

/-- Counts. -/
def count : Codec Nat := nat 64

/-! ## Several values -/

/-- The values of a list, if each of them has one. -/
def all? (f : α → Option β) : List α → Option (List β)
  | [] => some []
  | a :: rest =>
    match f a with
    | none => none
    | some b => (all? f rest).map fun bs => b :: bs

/-- Lists. -/
def list (c : Codec α) : Codec (List α) where
  read d s := match s with
    | .array items => (enter? d).bind fun d => all? (c.read d) items
    | _ => none
  write xs := .array (xs.map c.write)

/-- Values that may be absent. -/
def option (c : Codec α) : Codec (Option α) where
  read d s := match s with
    | .null => some none
    | s => (c.read d s).map some
  write x := match x with
    | none => .null
    | some a => c.write a

/-- Pairs, as arrays. -/
def pair (a : Codec α) (b : Codec β) : Codec (α × β) where
  read d s := match s with
    | .array [x, y] => do
      let d ← enter? d
      let x ← a.read d x
      let y ← b.read d y
      some (x, y)
    | _ => none
  write x := .array [a.write x.1, b.write x.2]

/-! ## Records -/

/-- The fields of an opened record by name, and the levels left inside. -/
structure Fields where
  /-- The levels. -/
  depth : Nat
  /-- The fields that are there. -/
  present : List (String × Source)

/-- The members of an object that a record knows, each of them once. -/
def known? (names : List String) :
    List (Option String × Source) → Option (List (String × Source))
  | [] => some []
  | (none, _) :: _ => none
  | (some k, v) :: rest =>
    match known? names rest with
    | none => none
    | some ms =>
      if !names.contains k then some ms
      else if ms.any fun m => m.1 == k then none
      else some ((k, v) :: ms)

/-- Open a record with fields of the given names. -/
def open? (names : List String) (depth : Nat) : Source → Option Fields
  | .array items =>
    if items.length = names.length then
      (enter? depth).map fun d => ⟨d, names.zip items⟩
    else none
  | .object members => do
    let d ← enter? depth
    let present ← known? names members
    some ⟨d, present⟩
  | _ => none

/-- How part of a record of type `ρ` is read and written, as one member
each. -/
structure Shape (ρ α : Type) where
  /-- The names of the members. -/
  names : List String
  /-- Read the part. -/
  read : Fields → Option α
  /-- Write the part of a record. -/
  write : ρ → List Json

/-- The part that has no members. -/
def Shape.of (a : α) : Shape ρ α := ⟨[], fun _ => some a, fun _ => []⟩

/-- A part followed by another. -/
def Shape.and (f : Shape ρ (α → β)) (x : Shape ρ α) : Shape ρ β where
  names := f.names ++ x.names
  read fields := (f.read fields).bind fun g => (x.read fields).map g
  write r := f.write r ++ x.write r

/-- The field of a name. -/
def Fields.find? (f : Fields) (name : String) : Option Source :=
  (f.present.find? fun m => m.1 == name).map fun m => m.2

/-- A part that is one field. -/
def Shape.field (name : String) (c : Codec α) (get : ρ → α) : Shape ρ α where
  names := [name]
  read f := (f.find? name).bind (c.read f.depth)
  write r := [c.write (get r)]

/-- A part that is one field, which may be absent. -/
def Shape.optional (name : String) (c : Codec α) (get : ρ → Option α) : Shape ρ (Option α) where
  names := [name]
  read f := match f.find? name with
    | none => some none
    | some s => c.option.read f.depth s
  write r := [c.option.write (get r)]

/-- Records. -/
def record (s : Shape α α) : Codec α where
  read d source := (open? s.names d source).bind s.read
  write a := .object (s.names.zip (s.write a))

/-! ## Choices -/

/-- A choice as it is written: its name, and what it holds with the levels
left inside, if it holds anything. -/
abbrev Choice : Type := String × Option (Nat × Source)

/-- Open a choice. -/
def choice? (depth : Nat) : Source → Option Choice
  | .text name => name.map fun name => (name, none)
  | .object [(some name, value)] => (enter? depth).map fun d => (name, some (d, value))
  | _ => none

/-- Whether a choice holds nothing. -/
def Choice.isBare (c : Choice) : Bool :=
  match c.2 with
  | none | some (_, .null) => true
  | _ => false

/-- Read what a choice holds. -/
def Choice.held (c : Choice) (codec : Codec α) : Option α :=
  c.2.bind fun (d, s) => codec.read d s

/-- A choice that holds something. -/
def holding (name : String) (codec : Codec α) (a : α) : Json := .object [(name, codec.write a)]

/-- Types whose values are named. -/
def names [BEq α] (table : List (String × α)) : Codec α where
  read d s := (choice? d s).bind fun c =>
    if c.isBare then (table.find? fun row => row.1 == c.1).map fun row => row.2 else none
  write a := match table.find? fun row => row.2 == a with
    | some row => .text row.1
    | none => .null

/-! ## Whole texts -/

/-- The level a text starts at. -/
def topDepth : Nat := 128

/-- Read a whole text. -/
def decode? (c : Codec α) (s : String) : Option α := (Source.ofText? s).bind (c.read topDepth)

/-- Write a value as a text. -/
def encode (c : Codec α) (a : α) : String := (c.write a).compact

/-- Read a whole text and write it again. -/
def normalize? (c : Codec α) (s : String) : Option String := (c.decode? s).map c.encode

end Codec

end WhatIf
