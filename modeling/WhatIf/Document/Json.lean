import WhatIf.Decimal.Layout
/-!
# Document — JSON values and their two written forms

A number is an integer or a double; a double is written in the document form
of decimals. The members of an object keep their order. The compact form has
no blanks; the indented form puts every item on a line of its own, two blanks
further in.
-/

namespace WhatIf

/-- A JSON value. -/
inductive Json where
  | null
  | bool (b : Bool)
  | int (i : Int)
  | float (x : Float)
  | text (s : String)
  | array (items : List Json)
  | object (members : List (String × Json))

namespace Json

/-- The last four hexadecimal digits of a number. -/
def hex4 (n : Nat) : String :=
  let digits := Nat.toDigits 16 (n % 65536)
  String.ofList (List.replicate (4 - digits.length) '0' ++ digits)

/-- A character as it stands in a JSON text. -/
def escape (c : Char) : String :=
  match c with
  | '\x22' => "\\\x22"
  | '\x5c' => "\\\\"
  | '\n' => "\\n"
  | '\r' => "\\r"
  | '\t' => "\\t"
  | c =>
    if c.toNat = 8 then "\\b"
    else if c.toNat = 12 then "\\f"
    else if c.toNat < 32 then "\\u" ++ hex4 c.toNat
    else String.ofList [c]

/-- A text between double quotes. -/
def quote (s : String) : String := "\x22" ++ String.join (s.toList.map escape) ++ "\x22"

mutual

/-- The compact form. -/
def compact : Json → String
  | null => "null"
  | bool b => if b then "true" else "false"
  | int i => toString i
  | float x => Decimal.Layout.document.write x
  | text s => quote s
  | array items => "[" ++ compactItems items ++ "]"
  | object members => "\x7b" ++ compactMembers members ++ "\x7d"

/-- The compact form of the items of an array. -/
def compactItems : List Json → String
  | [] => ""
  | [v] => compact v
  | v :: vs => compact v ++ "," ++ compactItems vs

/-- The compact form of the members of an object. -/
def compactMembers : List (String × Json) → String
  | [] => ""
  | [(k, v)] => quote k ++ ":" ++ compact v
  | (k, v) :: ms => quote k ++ ":" ++ compact v ++ "," ++ compactMembers ms

end

/-- The start of a line at a depth. -/
def newline (depth : Nat) : String := "\n" ++ String.ofList (List.replicate (2 * depth) ' ')

mutual

/-- The indented form of a value at a depth. -/
def indented (depth : Nat) : Json → String
  | null => "null"
  | bool b => if b then "true" else "false"
  | int i => toString i
  | float x => Decimal.Layout.document.write x
  | text s => quote s
  | array [] => "[]"
  | array (v :: vs) => "[" ++ indentedItems (depth + 1) (v :: vs) ++ newline depth ++ "]"
  | object [] => "\x7b\x7d"
  | object (m :: ms) =>
    "\x7b" ++ indentedMembers (depth + 1) (m :: ms) ++ newline depth ++ "\x7d"

/-- The items of an array, each on a line of its own. -/
def indentedItems (depth : Nat) : List Json → String
  | [] => ""
  | [v] => newline depth ++ indented depth v
  | v :: vs => newline depth ++ indented depth v ++ "," ++ indentedItems depth vs

/-- The members of an object, each on a line of its own. -/
def indentedMembers (depth : Nat) : List (String × Json) → String
  | [] => ""
  | [(k, v)] => newline depth ++ quote k ++ ": " ++ indented depth v
  | (k, v) :: ms =>
    newline depth ++ quote k ++ ": " ++ indented depth v ++ "," ++ indentedMembers depth ms

end

/-- The indented form. -/
def pretty (v : Json) : String := indented 0 v

end Json

end WhatIf
