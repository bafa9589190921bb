import ArrayOffload.Func.Printer
import ArrayOffload.Plan.Draft
import ArrayOffload.UnitKey

/-!
# Compiled units

A function compiled for one signature and context: steps to carry out, programs to launch, and
what is known about residency.

* `CompiledUnit.text?`: the printed form.
-/

namespace ArrayOffload

inductive Strategy where
  | hostParallel | offload
deriving DecidableEq, Repr

def Strategy.name : Strategy → String
  | hostParallel => "host-parallel"
  | offload => "offload"

/-- A kernel with its program on the device. -/
structure CompiledKernel where
  plan : LaunchPlan
  program : Nat
deriving BEq, Repr

def CompiledKernel.name (kernel : CompiledKernel) : String := kernel.plan.kernel.name

structure CompiledUnit where
  key : UnitKey
  fingerprint : ContentHash
  function : Func
  strategy : Strategy
  regions : List Region
  steps : List Step
  kernels : List CompiledKernel
  bindings : List Binding
  transfers : List Transfer
  /-- States after the body. -/
  bodyEnd : List Residency
  /-- States after the final copy-outs. -/
  atExit : List Residency
  fallbacks : List RegionError
deriving BEq, Repr

namespace CompiledUnit

def programs (unit : CompiledUnit) : List Nat := unit.kernels.map (·.program)

def copyIns (unit : CompiledUnit) : List Transfer :=
  unit.transfers.filter (·.direction = .toDevice)

def copyOuts (unit : CompiledUnit) : List Transfer :=
  unit.transfers.filter (·.direction = .toHost)

/-- Whether an array is ever transferred. -/
def moves (unit : CompiledUnit) (id : ArrayId) : Bool := unit.transfers.any (·.array = id)

def regionLine? (unit : CompiledUnit) (region : Region) : Option String := do
  let name ← unit.function.nameOf? region.space.extentOf
  let kinds := "+".intercalate (region.kinds.map (·.name))
  let note := if unit.fallbacks.any (·.region = region.index) then " (host fallback)" else ""
  some s!"  region {region.index}: {kinds} over {name}{note}\n"

def stepText? (unit : CompiledUnit) : Step → Option String
  | .copyIn id => (unit.function.nameOf? id).map ("copy-in " ++ ·)
  | .copyOut id => (unit.function.nameOf? id).map ("copy-out " ++ ·)
  | .launch index => do
    let kernel ← unit.kernels[index]?
    let names ← kernel.plan.bindings.mapM unit.function.nameOf?
    some s!"launch {kernel.name}({Text.commaList names})"
  | .hostRegion region => some s!"host region {region}"
  | .hostOp index => (unit.function.body[index]?.bind unit.function.opText?).map ("host " ++ ·)

def stepLine? (unit : CompiledUnit) (step : Step) (index : Nat) : Option String :=
  (unit.stepText? step).map fun text => s!"  {Text.padLeft 2 (toString index)}: {text}\n"

def endText? (unit : CompiledUnit) (binding : Binding) : Option String :=
  unit.bodyEnd[binding.array]?.map fun state => s!"{binding.name}={state.name}"

def text? (unit : CompiledUnit) : Option String := do
  let head := s!"unit {unit.function.name}{unit.key.signature.text} on " ++
    s!"{unit.key.context.text} [{unit.strategy.name}]\n"
  let regions ← unit.regions.mapM unit.regionLine?
  let steps ← unit.steps.zipIdx.mapM fun (step, index) => unit.stepLine? step index
  let states ← unit.bindings.mapM unit.endText?
  some (head ++ String.join regions ++ String.join steps ++ "  end: " ++ " ".intercalate states)

end CompiledUnit

end ArrayOffload
