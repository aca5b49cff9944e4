import WhatIf.Error
/-!
# Hook — the stack of installed interceptors

Interceptors are installed on top of each other and uninstalled from the top
only. Each installation has a handle of its own, which is never used again.
-/

namespace WhatIf

/-- An installed interceptor. -/
structure Layer (ι : Type) where
  /-- The handle of the installation. -/
  handle : Handle
  /-- The interceptor. -/
  item : ι

/-- A stack of interceptors. -/
structure Stack (ι : Type) where
  /-- The layers, the top one first. -/
  layers : List (Layer ι)
  /-- The number of the next handle. -/
  next : Nat

namespace Stack

variable {ι : Type}

/-- A stack without layers. -/
def empty : Stack ι := ⟨[], 1⟩

variable (s : Stack ι)

/-- Install an interceptor on top. -/
def install (item : ι) : Handle × Stack ι :=
  let handle : Handle := ⟨s.next⟩
  (handle, ⟨⟨handle, item⟩ :: s.layers, s.next + 1⟩)

/-- Uninstall the interceptor on top, which must be the one of a given
handle. -/
def uninstall (handle : Handle) : Except StackError (ι × Stack ι) :=
  match s.layers with
  | [] => .error (.unknownHandle handle)
  | top :: rest =>
    if top.handle = handle then .ok (top.item, { s with layers := rest })
    else if rest.any fun l => l.handle == handle then .error (.outOfOrder handle top.handle)
    else .error (.unknownHandle handle)

/-- The interceptors, the top one first. -/
def items : List ι := s.layers.map fun l => l.item

/-- How many layers there are. -/
def depth : Nat := s.layers.length

end Stack

end WhatIf
