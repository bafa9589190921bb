import ArrayOffload.Machine
import ArrayOffload.Plan.CompiledUnit

/-!
# Lowering

From a function and a key to a compiled unit. Planning is pure; then the kernels of the plan
are compiled in order. If the device rejects one, the programs of those before it are given
back.
-/

namespace ArrayOffload.Lowering

/-- All that is decided before a kernel is compiled. -/
structure Outline where
  strategy : Strategy
  regions : List Region
  fallbacks : List RegionError
  /-- The body's draft, or the draft up to a fault. -/
  draft : Except Draft Draft

def strategyFor (context : DeviceContext) : Strategy :=
  if context.isHost then .hostParallel else .offload

/-- Where the regions run, and why some of them stay on the host. -/
def place? (profile : Profile) (f : Func) (strategy : Strategy) (regions : List Region) :
    Option (Placement.Launches × List RegionError) :=
  match strategy with
  | .hostParallel => some (Placement.allOnHost regions, [])
  | .offload =>
    (Placement.choices? profile f regions).map fun choices =>
      (Placement.launches choices, Placement.fallbacks choices)

def outline? (profile : Profile) (f : Func) (signature : Signature) (context : DeviceContext) :
    Option Outline := do
  let partition ← f.partition?
  let tracker ← Tracker.start? f signature
  let strategy := strategyFor context
  let (placed, fallbacks) ← place? profile f strategy partition.regions
  some ⟨strategy, partition.regions, fallbacks,
    (Draft.start tracker).extendAll f partition.regions placed partition.segments⟩

/-- The launches of a draft, finished or not. -/
def launchesOf : Except Draft Draft → List LaunchPlan
  | .ok draft | .error draft => draft.launches

/-- Give programs back. -/
def releaseAll (programs : List Nat) (device : Device) : Device :=
  programs.foldl Device.releaseProgram device

/-- Compile one kernel; on failure, give back what was compiled before it. -/
def compileKernel (profile : Profile) (done : List CompiledKernel) (plan : LaunchPlan) :
    MachineM CompiledKernel := do
  let machine ← get
  match (Device.compile plan.kernel).run.run machine.device with
  | (.ok program, device) =>
    set { machine with device }
    MachineM.record (.compiled plan.kernel.name (Device.programText program) profile.name)
    return ⟨plan, program⟩
  | (.error stop, device) =>
    set { machine with device := releaseAll (done.map CompiledKernel.program) device }
    throw (stop.map OffloadError.device)

def compileAll (profile : Profile) :
    List CompiledKernel → List LaunchPlan → MachineM (List CompiledKernel)
  | done, [] => return done
  | done, plan :: rest => do
    let kernel ← compileKernel profile done plan
    compileAll profile (done ++ [kernel]) rest

/-- The unit of a finished draft. -/
def assemble (f : Func) (key : UnitKey) (fingerprint : ContentHash) (outline : Outline)
    (body : Draft) (kernels : List CompiledKernel) : CompiledUnit :=
  let final := body.finish
  { key, fingerprint
    function := f
    strategy := outline.strategy
    regions := outline.regions
    steps := final.steps
    kernels
    bindings := final.tracker.bindings
    transfers := final.transfers
    bodyEnd := body.tracker.states
    atExit := final.tracker.states
    fallbacks := outline.fallbacks }

/-- Compile a function under a key. -/
def run (profile : Profile) (f : Func) (key : UnitKey) (fingerprint : ContentHash) :
    MachineM CompiledUnit := do
  let outline ← MonadExcept.ofExcept (orFault (outline? profile f key.signature key.context))
  outline.fallbacks.forM fun cause => MachineM.record (.fellBack f.name cause)
  let kernels ← compileAll profile [] (launchesOf outline.draft)
  match outline.draft with
  | .error _ => throw .fault
  | .ok body =>
    let unit := assemble f key fingerprint outline body kernels
    MachineM.record (.lowered f.name key.context unit.regions.length unit.kernels.length
      unit.transfers.length unit.fallbacks.length)
    return unit

end ArrayOffload.Lowering
