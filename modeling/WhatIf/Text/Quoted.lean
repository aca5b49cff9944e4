import WhatIf.Text.Visible
/-!
# Text — a text between quotes, fit for a log

Every character of a quoted text can be seen and told apart: a quote and a
backslash stand behind a backslash, the zero character and the three common
blanks of control have a letter, and whatever else is invisible or hangs on
the character before it is written as its number.
-/

namespace WhatIf

namespace Text

/-- The number of a character in hexadecimal digits, none of them to spare. -/
def numbered (c : Char) : String :=
  "\\u\x7b" ++ String.ofList (Nat.toDigits 16 c.toNat) ++ "\x7d"

/-- A character as it stands in a quoted text. -/
def quotedChar (c : Char) : String :=
  match c with
  | '\x22' => "\\\x22"
  | '\x5c' => "\\\\"
  | '\x00' => "\\0"
  | '\t' => "\\t"
  | '\n' => "\\n"
  | '\r' => "\\r"
  | c => if isInvisible c || isExtender c then numbered c else String.ofList [c]

/-- A text between double quotes. -/
def quoted (s : String) : String := "\x22" ++ String.join (s.toList.map quotedChar) ++ "\x22"

end Text

end WhatIf
