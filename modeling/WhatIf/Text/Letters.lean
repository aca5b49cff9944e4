/-!
# Text — letters without case, blanks, and cuts by bytes

Names are matched without regard to the case of the twenty-six basic Latin
letters and of no other character, so `É` and `é` are two names. Values of
settings lose the blanks around them first. An identifier too long for the
catalog is cut at its last character that still fits whole.
-/

namespace WhatIf

namespace Text

/-- The text with `A` to `Z` lowered and every other character kept. -/
def lower (s : String) : String := String.ofList (s.toList.map Char.toLower)

/-- The text with `a` to `z` raised and every other character kept. -/
def upper (s : String) : String := String.ofList (s.toList.map Char.toUpper)

/-- Two names denote the same object when they differ at most in the case
of basic Latin letters. -/
def sameName (a b : String) : Bool := lower a == lower b

/-- The characters with the Unicode property White_Space. -/
def isBlank (c : Char) : Bool :=
  let n := c.toNat
  (9 ≤ n && n ≤ 13) || n == 0x20 || n == 0x85 || n == 0xA0 || n == 0x1680 ||
    (0x2000 ≤ n && n ≤ 0x200A) || n == 0x2028 || n == 0x2029 || n == 0x202F ||
    n == 0x205F || n == 0x3000

/-- The text without the blanks at either end. -/
def trim (s : String) : String :=
  let front := s.toList.dropWhile isBlank
  String.ofList (front.reverse.dropWhile isBlank).reverse

/-- Whether characters can be parted after a number of bytes: not inside one of
them, and not behind the last. -/
def partsAt : List Char → Nat → Bool
  | _, 0 => true
  | [], _ + 1 => false
  | c :: rest, n + 1 => c.utf8Size ≤ n + 1 && partsAt rest (n + 1 - c.utf8Size)

/-- The last place where characters can be parted, searched for backwards from a
number of bytes. -/
def lastPart (cs : List Char) : Nat → Nat
  | 0 => 0
  | n + 1 => if partsAt cs (n + 1) then n + 1 else lastPart cs n

/-- The longest run of leading characters that together take at most
`room` bytes. -/
def fitting (room : Nat) : List Char → List Char
  | [] => []
  | c :: rest => if c.utf8Size ≤ room then c :: fitting (room - c.utf8Size) rest else []

/-- The text cut to at most `room` bytes, never inside a character. -/
def cut (room : Nat) (s : String) : String :=
  if s.utf8ByteSize ≤ room then s
  else String.ofList (fitting (lastPart s.toList room) s.toList)

/-- The texts one after the other with `sep` between neighbours. -/
def join (sep : String) (parts : List String) : String := sep.intercalate parts

end Text

end WhatIf
