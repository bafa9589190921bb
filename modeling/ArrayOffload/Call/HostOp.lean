import ArrayOffload.Call.HostFn
import ArrayOffload.Call.State
import ArrayOffload.Eval

/-!
# Operations on the host

How the host carries out each operation on its copies.
-/

namespace ArrayOffload.Call

def loadOperand : Operand → CallM Eval.Input
  | .array id => do return .cells (← load id)
  | .scalar constant => return .scalar constant.value

def sizeOf (shapes : List Shape) (id : ArrayId) : CallM Nat := do
  return (← expect shapes[id]?).size

def printArray (f : Func) (id : ArrayId) : CallM Unit := do
  let decl ← expect (f.decl? id)
  let values ← load id
  let line := s!"{decl.name} = {cellsText decl.elem values}"
  record (.printed line)
  modify fun call => { call with printed := call.printed ++ [line] }

def named (f : Func) (id : ArrayId) : CallM NamedCells := do
  return ⟨← expect (f.nameOf? id), ← load id⟩

/-- Store what a host function left in an array, coerced. -/
def storeOutput (f : Func) (entry : ArrayId × NamedCells × Cells) : CallM Unit := do
  let (id, old, new) := entry
  let decl ← expect (f.decl? id)
  store id ((patch old.cells new).map decl.elem.coerce)

def callHost (f : Func) (table : HostTable) (callee : String) (reads writes : List ArrayId) :
    CallM Unit := do
  match table.find? callee with
  | none => throw (.error (.unresolvedCall callee))
  | some hostFn =>
    let inputs ← reads.mapM (named f)
    let outputs ← writes.mapM (named f)
    match hostFn ⟨callee, inputs, outputs⟩ with
    | .error stop => throw (stop.map (OffloadError.callFailed callee))
    | .ok reply =>
      modify fun call =>
        { call with machine := { call.machine with notes := call.machine.notes ++ reply.notes } }
      let contents := outputs.zipIdx.map fun (old, i) => (old, reply.outputs.getD i #[])
      (writes.zip contents).forM (storeOutput f)

/-- Carry out one operation. -/
def hostOp (f : Func) (shapes : List Shape) (table : HostTable) : Op → CallM Unit
  | .map out op args => do
    let inputs ← args.mapM loadOperand
    let decl ← expect (f.decl? out)
    store out (← expect (Eval.map? op decl.elem inputs (← sizeOf shapes out)))
  | .reduce out op input => do
    let values ← load input
    let decl ← expect (f.decl? out)
    storeAt out 0 (Eval.reduce op decl.elem values)
  | .scan out op input => do
    let values ← load input
    let decl ← expect (f.decl? out)
    store out (Eval.scan op decl.elem values)
  | .store array index constant => do
    let decl ← expect (f.decl? array)
    storeAt array index (decl.elem.coerce constant.value)
  | .print arrays => arrays.forM (printArray f)
  | .call callee reads writes => callHost f table callee reads writes

end ArrayOffload.Call
