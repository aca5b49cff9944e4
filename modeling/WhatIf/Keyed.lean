/-!
# Keyed lists — finite maps by their entries

A finite map held as the list of its entries, the latest one first and no two
under one key.
-/

namespace WhatIf

namespace Keyed

variable {κ ν : Type} [DecidableEq κ]

/-- The value under a key. -/
def find? (m : List (κ × ν)) (k : κ) : Option ν :=
  match m with
  | [] => none
  | (k', v) :: rest => if k' = k then some v else find? rest k

/-- The map without a key. -/
def erase (m : List (κ × ν)) (k : κ) : List (κ × ν) := m.filter fun e => e.1 ≠ k

/-- The map with a value under a key. -/
def insert (m : List (κ × ν)) (k : κ) (v : ν) : List (κ × ν) := (k, v) :: erase m k

end Keyed

end WhatIf
