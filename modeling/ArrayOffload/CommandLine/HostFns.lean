import ArrayOffload.Call.HostFn
import ArrayOffload.Number.Decimal

/-!
# Host functions of the command line

`log` writes its inputs to the error channel; `copy` copies each input into the output at its
position.
-/

namespace ArrayOffload.HostFns

def log : HostFn := fun call =>
  .ok ⟨call.outputs.map (·.cells), call.inputs.map fun input =>
    s!"log: {input.name} = {Text.bracketed (input.cells.toList.map Number.debugText)}"⟩

/-- Copy one input, unless the lengths differ. -/
def copyOne (pair : NamedCells × NamedCells) : Except (Stop String) Cells :=
  let (input, output) := pair
  if output.cells.size = input.cells.size then .ok input.cells
  else .error (.error s!"copy: length {input.cells.size} into {output.cells.size}")

def copy : HostFn := fun call =>
  let inputs := call.inputs.length
  let outputs := call.outputs.length
  if inputs = outputs then
    ((call.inputs.zip call.outputs).mapM copyOne).map fun cells => { outputs := cells }
  else
    .error (.error s!"copy needs as many outputs as inputs, got {inputs} and {outputs}")

end ArrayOffload.HostFns
