import ArrayOffload.Device.Basic
import ArrayOffload.Eval

/-!
# Programs

Compilation and launch of kernels. A launch runs the kernel's operations one after the other,
each over the whole grid, with the evaluation that the host uses.
-/

namespace ArrayOffload.Device

/-- The reason of an injected failure that is due now. -/
def takeCompileFailure : DeviceM (Option String) := do
  match (← get).failCompile with
  | none => return none
  | some (0, reason) =>
    modify fun device => { device with failCompile := none }
    return some reason
  | some (skip + 1, reason) =>
    modify fun device => { device with failCompile := some (skip, reason) }
    return none

/-- A program for a kernel. -/
def compile (kernel : Kernel) : DeviceM Nat := do
  match ← takeCompileFailure with
  | some reason => fail (.compileRejected reason)
  | none =>
    count fun c => { c with compiles := c.compiles + 1 }
    let handle ← freshHandle
    modify fun device => { device with programs := device.programs.set handle kernel }
    return handle

/-- Give a program back. -/
def releaseProgram (device : Device) (handle : Nat) : Device :=
  { device with programs := device.programs.erase handle }

/-- Stop a launch with a message about the kernel. -/
def launchError {α : Type} (kernel : Kernel) (message : String) : DeviceM α :=
  fail (.enqueueFailed s!"{kernel.name}: {message}")

/-- Each bound buffer is live and has its parameter's element type. -/
def checkBindings (kernel : Kernel) : List (KernelParam × Nat) → DeviceM Unit
  | [] => return ()
  | (param, handle) :: rest => do
    match (← get).buffers.get? handle with
    | none => fail (.invalidHandle handle)
    | some buffer =>
      if buffer.elem = param.elem then checkBindings kernel rest
      else
        launchError kernel
          s!"slot {param.slot} expects {param.elem.name}, bound {buffer.elem.name} buffer"

/-- The elements behind a slot, at least `need` of them. -/
def load (kernel : Kernel) (bindings : List Nat) (slot need : Nat) : DeviceM Cells := do
  let handle ← MonadExcept.ofExcept (orFault bindings[slot]?)
  let cells ← MonadExcept.ofExcept (orFault ((← get).cells? handle))
  if need ≤ cells.size then return cells
  else launchError kernel s!"slot {slot} holds {cells.size} elements, grid needs {need}"

/-- Replace the leading elements behind a slot. -/
def save (bindings : List Nat) (slot : Nat) (old values : Cells) : DeviceM Unit := do
  let handle ← MonadExcept.ofExcept (orFault bindings[slot]?)
  modify (·.withCells handle (overwrite old values))

def loadOperand (kernel : Kernel) (bindings : List Nat) (size : Nat) :
    KernelOperand → DeviceM Eval.Input
  | .slot index => do return .cells (← load kernel bindings index size)
  | .scalar constant => return .scalar constant.value

/-- One operation over a grid of `size` points. -/
def runOp (kernel : Kernel) (bindings : List Nat) (size : Nat) : KernelOp → DeviceM Unit
  | .map out op args => do
    let inputs ← args.mapM (loadOperand kernel bindings size)
    let param ← MonadExcept.ofExcept (orFault kernel.params[out]?)
    if Eval.mapDefined op inputs size then
      let old ← load kernel bindings out size
      save bindings out old (Eval.mapCells op param.elem inputs size)
    else throw .fault
  | .reduce out op input => do
    let values ← load kernel bindings input size
    let old ← load kernel bindings out 1
    let param ← MonadExcept.ofExcept (orFault kernel.params[out]?)
    save bindings out old #[Eval.reduce op param.elem (values.extract 0 size)]

/-- Run a kernel over a grid of `size` points. -/
def run (kernel : Kernel) (bindings : List Nat) (size : Nat) : DeviceM Unit := do
  if bindings.length = kernel.params.length then
    checkBindings kernel (kernel.params.zip bindings)
    kernel.body.forM (runOp kernel bindings size)
  else
    launchError kernel s!"{bindings.length} bindings for {kernel.params.length} parameters"

def takeLaunchFailure : DeviceM (Option String) := do
  let failure := (← get).failLaunch
  modify fun device => { device with failLaunch := none }
  return failure

/-- The number of points of a grid is a machine word. A product beyond the words wraps, or faults
on a device that traps. -/
def points (device : Device) (grid : Shape) : Except (Stop DeviceError) Nat :=
  match Shape.product? 1 grid with
  | some size => .ok size
  | none => if device.trapping then .error .fault else .ok (grid.size % Shape.wordLimit)

/-- Launch a program over a grid and wait for its end. -/
def launch (program : Nat) (grid : Shape) (bindings : List Nat) : DeviceM Unit := do
  match ← takeLaunchFailure with
  | some reason => fail (.enqueueFailed reason)
  | none =>
    match (← get).programs.get? program with
    | none => fail (.invalidHandle program)
    | some kernel =>
      if grid.length = kernel.rank then
        let size ← MonadExcept.ofExcept ((← get).points grid)
        run kernel bindings size
        count fun c => { c with launches := c.launches + 1 }
      else
        launchError kernel s!"rank-{grid.length} grid for rank-{kernel.rank} kernel"

end ArrayOffload.Device
