import ArrayOffload.Elem
import ArrayOffload.Stop
import ArrayOffload.Text.Quoted

/-!
# Host functions

Functions that a program calls by name. A host function sees the arrays it reads and the
arrays it writes, and answers with new contents for the latter. It cannot change their lengths.
-/

namespace ArrayOffload

/-- A named array as a host function sees it. -/
structure NamedCells where
  name : String
  cells : Cells
deriving BEq, Repr

structure HostCall where
  callee : String
  inputs : List NamedCells
  outputs : List NamedCells
deriving BEq, Repr

structure HostReply where
  /-- New contents of the outputs, in their order. -/
  outputs : List Cells
  /-- Lines for the error channel. -/
  notes : List String := []
deriving BEq, Repr

/-- A host function answers, fails with a message, or faults. -/
abbrev HostFn := HostCall → Except (Stop String) HostReply

/-- `old` with the elements that `new` has in their places. -/
def patch (old new : Cells) : Cells :=
  old.mapIdx fun index value => new.getD index value

/-- The registered host functions; names are distinct. -/
abbrev HostTable := List (String × HostFn)

namespace HostTable

def find? (table : HostTable) (name : String) : Option HostFn := table.lookup name

/-- Register a function, in place of an earlier one of that name. -/
def register (table : HostTable) (name : String) (f : HostFn) : HostTable :=
  table.filter (fun entry => entry.1 ≠ name) ++ [(name, f)]

/-- The names, sorted. -/
def text (table : HostTable) : String :=
  let names := (table.map (·.1)).mergeSort fun a b => !(b < a)
  "HostFunctions \x7b fns: " ++ Text.bracketed (names.map Text.quoted) ++ " \x7d"

end HostTable

end ArrayOffload
