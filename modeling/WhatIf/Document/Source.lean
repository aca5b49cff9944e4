import WhatIf.Document.Token
/-!
# Document — JSON texts as they are written

A source is a JSON text whose numbers and texts have not been read as values
of any type yet. The members of an object keep their order, and a name may
occur twice; which of that is allowed is for the reader of the source.
-/

namespace WhatIf

/-- A JSON text as it is written. -/
inductive Source where
  | null
  | bool (b : Bool)
  | number (n : Numeral)
  | text (value : Option String)
  | array (items : List Source)
  | object (members : List (Option String × Source))

namespace Source

mutual

/-- The value at the front of some tokens. The number bounds how deep and
how far is read. -/
def value? : Nat → List Token → Option (Source × List Token)
  | 0, _ => none
  | _, [] => none
  | fuel + 1, t :: ts =>
    match t with
    | .null => some (.null, ts)
    | .bool b => some (.bool b, ts)
    | .number n => some (.number n, ts)
    | .text s => some (.text s, ts)
    | .openArray =>
      match ts with
      | .closeArray :: ts => some (.array [], ts)
      | ts => (items? fuel ts).map fun (vs, ts) => (.array vs, ts)
    | .openObject =>
      match ts with
      | .closeObject :: ts => some (.object [], ts)
      | ts => (members? fuel ts).map fun (ms, ts) => (.object ms, ts)
    | _ => none

/-- The items of an array, of which there is at least one, up to its end. -/
def items? : Nat → List Token → Option (List Source × List Token)
  | 0, _ => none
  | fuel + 1, ts =>
    match value? fuel ts with
    | some (v, .comma :: ts) => (items? fuel ts).map fun (vs, ts) => (v :: vs, ts)
    | some (v, .closeArray :: ts) => some ([v], ts)
    | _ => none

/-- The members of an object, of which there is at least one, up to its
end. -/
def members? : Nat → List Token → Option (List (Option String × Source) × List Token)
  | 0, _ => none
  | fuel + 1, ts =>
    match ts with
    | .text k :: .colon :: ts =>
      match value? fuel ts with
      | some (v, .comma :: ts) => (members? fuel ts).map fun (ms, ts) => ((k, v) :: ms, ts)
      | some (v, .closeObject :: ts) => some ([(k, v)], ts)
      | _ => none
    | _ => none

end

/-- Read a text that is one JSON value. -/
def ofText? (s : String) : Option Source :=
  match Token.ofText? s with
  | none => none
  | some ts =>
    match value? (2 * ts.length + 1) ts with
    | some (v, []) => some v
    | _ => none

end Source

end WhatIf
