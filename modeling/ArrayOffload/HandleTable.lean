/-!
# Tables of handles

A finite map whose keys are handles, kept as pairs in the order of insertion. Every key stands in it
at most once when entries come from `set`.
-/

namespace ArrayOffload

abbrev HandleTable (α : Type) := List (Nat × α)

namespace HandleTable

variable {α : Type}

def get? (table : HandleTable α) (key : Nat) : Option α := table.lookup key

def contains (table : HandleTable α) (key : Nat) : Bool := table.any fun entry => entry.1 = key

/-- Replace the entry of a key, or add one at the end. -/
def set (table : HandleTable α) (key : Nat) (value : α) : HandleTable α :=
  if table.contains key then
    table.map fun entry => if entry.1 = key then (key, value) else entry
  else table ++ [(key, value)]

def erase (table : HandleTable α) (key : Nat) : HandleTable α :=
  table.filter fun entry => entry.1 ≠ key

end HandleTable

end ArrayOffload
