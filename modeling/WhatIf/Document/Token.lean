import WhatIf.Document.Numeral
/-!
# Document — the tokens of a JSON text

Blanks separate tokens and mean nothing else. A text may hold escapes; one
that stands for no character leaves the text without a value, which matters
only if the text is read.
-/

namespace WhatIf

/-- A token. -/
inductive Token where
  | openArray
  | closeArray
  | openObject
  | closeObject
  | colon
  | comma
  | null
  | bool (b : Bool)
  | number (n : Numeral)
  /-- A text, without value if an escape in it stands for no character. -/
  | text (value : Option String)

namespace Token

/-- The value of a hexadecimal digit. -/
def hexDigit? (c : Char) : Option Nat :=
  let n := c.toNat
  if 48 ≤ n ∧ n ≤ 57 then some (n - 48)
  else if 97 ≤ n ∧ n ≤ 102 then some (n - 87)
  else if 65 ≤ n ∧ n ≤ 70 then some (n - 55)
  else none

/-- The four hexadecimal digits at the front. -/
def hex4? : List Char → Option (Nat × List Char)
  | a :: b :: c :: d :: rest => do
    let a ← hexDigit? a
    let b ← hexDigit? b
    let c ← hexDigit? c
    let d ← hexDigit? d
    some (((a * 16 + b) * 16 + c) * 16 + d, rest)
  | _ => none

/-- The character of a one-letter escape. -/
def shortEscape? (c : Char) : Option Char :=
  match c with
  | '\x22' | '\x5c' | '/' => some c
  | 'b' => some (Char.ofNat 8)
  | 'f' => some (Char.ofNat 12)
  | 'n' => some '\n'
  | 'r' => some '\r'
  | 't' => some '\t'
  | _ => none

/-- A piece of a text: a character, or one half of a character outside the
basic plane. -/
inductive Piece where
  | char (c : Char)
  | half (unit : Nat)

/-- The piece of a four-digit escape. -/
def Piece.ofUnit (n : Nat) : Piece :=
  if 0xD800 ≤ n ∧ n ≤ 0xDFFF then .half n else .char (Char.ofNat n)

/-- The characters of a text. Two halves must come as a pair, the upper one
first. -/
def join? : List Piece → Option (List Char)
  | [] => some []
  | .char c :: rest => (join? rest).map fun cs => c :: cs
  | .half a :: .half b :: rest =>
    if a < 0xDC00 ∧ 0xDC00 ≤ b then
      (join? rest).map fun cs => Char.ofNat (0x10000 + (a - 0xD800) * 1024 + (b - 0xDC00)) :: cs
    else none
  | .half _ :: _ => none

/-- The pieces of a text up to its closing quote. The number bounds how many
are read. -/
def pieces : Nat → List Char → Option (List Piece × List Char)
  | 0, _ => none
  | _, [] => none
  | fuel + 1, c :: rest =>
    if c = '\x22' then some ([], rest)
    else if c = '\x5c' then
      match rest with
      | 'u' :: rest =>
        match hex4? rest with
        | none => none
        | some (n, rest) => (pieces fuel rest).map fun (ps, rest) => (.ofUnit n :: ps, rest)
      | e :: rest =>
        match shortEscape? e with
        | none => none
        | some c => (pieces fuel rest).map fun (ps, rest) => (.char c :: ps, rest)
      | [] => none
    else if c.toNat < 32 then none
    else (pieces fuel rest).map fun (ps, rest) => (.char c :: ps, rest)

/-- A text after its opening quote. -/
def text? (cs : List Char) : Option (Token × List Char) :=
  (pieces (cs.length + 1) cs).map fun (ps, rest) =>
    (.text ((join? ps).map String.ofList), rest)

/-- The digits at the front, of which there must be one. -/
def digits? (cs : List Char) : Option (List Char × List Char) :=
  let (ds, rest) := Decimal.spanDigits cs
  if ds.isEmpty then none else some (ds, rest)

/-- The digits before the point: a zero stands alone. -/
def whole? (cs : List Char) : Option (List Char × List Char) :=
  match digits? cs with
  | some ('0' :: _ :: _, _) => none
  | other => other

/-- The point and the digits after it, if there is a point. -/
def fraction? (cs : List Char) : Option (List Char × List Char) :=
  match cs with
  | '.' :: rest => digits? rest
  | rest => some ([], rest)

/-- A signed exponent after its letter. -/
def signed? (cs : List Char) : Option (Int × List Char) :=
  let (negative, cs) := match cs with
    | '+' :: rest => (false, rest)
    | '-' :: rest => (true, rest)
    | rest => (false, rest)
  (digits? cs).map fun (ds, rest) =>
    let n := Int.ofNat (Decimal.digitsValue 0 ds)
    (if negative then -n else n, rest)

/-- The exponent, if there is one. -/
def exponent? (cs : List Char) : Option (Option Int × List Char) :=
  match cs with
  | c :: rest =>
    if c = 'e' || c = 'E' then (signed? rest).map fun (e, rest) => (some e, rest)
    else some (none, cs)
  | [] => some (none, [])

/-- A number after its sign. -/
def number? (negative : Bool) (cs : List Char) : Option (Token × List Char) := do
  let (whole, cs) ← whole? cs
  let (fraction, cs) ← fraction? cs
  let (exponent, cs) ← exponent? cs
  some (.number ⟨negative, whole, fraction, exponent⟩, cs)

/-- The characters after a given word. -/
def after? (word : List Char) (cs : List Char) : Option (List Char) :=
  if word.isPrefixOf cs then some (cs.drop word.length) else none

/-- The token that starts with a character, given what follows it. -/
def next? (c : Char) (cs : List Char) : Option (Token × List Char) :=
  match c with
  | '[' => some (.openArray, cs)
  | ']' => some (.closeArray, cs)
  | '\x7b' => some (.openObject, cs)
  | '\x7d' => some (.closeObject, cs)
  | ':' => some (.colon, cs)
  | ',' => some (.comma, cs)
  | '\x22' => text? cs
  | '-' => number? true cs
  | 'n' => (after? ['u', 'l', 'l'] cs).map fun cs => (.null, cs)
  | 't' => (after? ['r', 'u', 'e'] cs).map fun cs => (.bool true, cs)
  | 'f' => (after? ['a', 'l', 's', 'e'] cs).map fun cs => (.bool false, cs)
  | c => number? false (c :: cs)

/-- Whether a character separates tokens. -/
def isBlank (c : Char) : Bool := c == ' ' || c == '\n' || c == '\t' || c == '\r'

/-- The tokens of a text. The number bounds how many characters or tokens
are read. -/
def scan? : Nat → List Char → Option (List Token)
  | _, [] => some []
  | 0, _ => none
  | fuel + 1, c :: cs =>
    if isBlank c then scan? fuel cs
    else
      match next? c cs with
      | none => none
      | some (t, cs) => (scan? fuel cs).map fun ts => t :: ts

/-- All tokens of a text, if it consists of tokens. -/
def ofText? (s : String) : Option (List Token) := scan? s.length s.toList

end Token

end WhatIf
