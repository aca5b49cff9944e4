import WhatIf.Text.Letters
import WhatIf.Checksum
import WhatIf.Decimal.Layout
/-!
# Datum — scalar values and their types

The values that conditions and partition bounds mention. Comparison follows
SQL: nothing compares with `NULL`, values of unrelated kinds do not compare,
and an integer meets a double as the double nearest to it. Hash partitioning
reads a value as bytes, in which a double with an integer value is that
integer.
-/

namespace WhatIf

/-- The types a column may have. -/
inductive DataType where
  | bool
  | int4
  | int8
  | float8
  | text
  deriving DecidableEq

namespace DataType

/-- The average stored width in bytes. -/
def width : DataType → Nat
  | bool => 1
  | int4 => 4
  | int8 | float8 => 8
  | text => 32

/-- The storage alignment in bytes. -/
def alignment : DataType → Nat
  | bool => 1
  | int4 | text => 4
  | int8 | float8 => 8

/-- The name of the type in SQL. -/
def sqlName : DataType → String
  | bool => "boolean"
  | int4 => "integer"
  | int8 => "bigint"
  | float8 => "double precision"
  | text => "text"

/-- Every type. -/
def all : List DataType := [bool, int4, int8, float8, text]

end DataType

/-- A scalar value. Equality is that of its parts, so a double that is not
a number equals nothing. -/
inductive Datum where
  | null
  | bool (b : Bool)
  | int (i : Int64)
  | float (x : Float)
  | text (s : String)
  deriving BEq

namespace Datum

/-- Whether the value is `NULL`. -/
def isNull : Datum → Bool
  | null => true
  | _ => false

/-- The order of two values: `none` when either is `NULL` or they do not
compare. -/
def compare? : Datum → Datum → Option Ordering
  | bool a, bool b => some (compare a b)
  | int a, int b => some (compare a b)
  | float a, float b => Decimal.compare a b
  | int a, float b => Decimal.compare (Decimal.ofInt64 a) b
  | float a, int b => Decimal.compare a (Decimal.ofInt64 b)
  | text a, text b => some (compare a b)
  | _, _ => none

/-- Whether two values compare as equal. -/
def equals (a b : Datum) : Bool := a.compare? b == some .eq

/-- The bytes of a 64-bit integer, lowest first. -/
def intBytes (i : Int64) : List UInt8 := Checksum.bytesOfWord i.toUInt64

/-- The bytes a value is hashed as. Integers and doubles that are one
integer have the bytes of that integer. -/
def hashBytes : Datum → List UInt8
  | null => [0]
  | bool b => [if b then 1 else 0]
  | int i => intBytes i
  | float x =>
    match Decimal.int64? x with
    | some i => intBytes i
    | none => Checksum.bytesOfWord x.toBits
  | text s => s.toList.flatMap String.utf8EncodeChar

/-- The hash by which a value is routed to hash partitions. -/
def partitionHash (d : Datum) : UInt32 := Checksum.crc32 d.hashBytes

/-- The combined hash of the key values of a row, modulo `2^32`. -/
def rowHash (row : List Datum) : UInt32 := row.foldl (fun h d => h * 31 + d.partitionHash) 0

/-- The value as a column of the given type stores it: `none` if no value
of that type equals it. -/
def coerce? : Datum → DataType → Option Datum
  | null, _ => some null
  | bool b, .bool => some (bool b)
  | int i, .int4 | int i, .int8 => some (int i)
  | float x, .int4 | float x, .int8 => (Decimal.int64? x).map int
  | int i, .float8 => some (float (Decimal.ofInt64 i))
  | float x, .float8 => some (float x)
  | text s, .text => some (text s)
  | _, _ => none

/-- Whether a value may be written as a bound for a column of the given
type. -/
def fits : Datum → DataType → Bool
  | null, _ => true
  | bool _, .bool => true
  | int _, .int4 | int _, .int8 | int _, .float8 => true
  | float _, .float8 => true
  | text _, .text => true
  | _, _ => false

/-- A text between single quotes, each quote inside written twice. -/
def quote (s : String) : String :=
  String.ofList ('\x27' :: s.toList.flatMap (fun c => if c = '\x27' then ['\x27', '\x27'] else [c])
    ++ ['\x27'])

/-- The value as SQL writes it. -/
def sql : Datum → String
  | null => "NULL"
  | bool b => if b then "true" else "false"
  | int i => toString i.toInt
  | float x => Decimal.Layout.plain.write x
  | text s => quote s

end Datum

end WhatIf
