import ArrayOffload.Call.HostOp
import ArrayOffload.Call.Shapes
import ArrayOffload.Plan.CompiledUnit

/-!
# Running a unit

A call carries out the steps of a compiled unit. Every read is checked against the tracker. The
caller's own arrays change only if every step succeeds; shared memory changes in place. Buffers
are given back however the call ends.
-/

namespace ArrayOffload

/-- What a successful call reports. -/
structure Outcome where
  returned : Option ArrayValue
  printed : List String
  residency : List (String × Residency)
  launches : Nat
  transfers : Nat
deriving BEq, Repr

/-- The final state of the array of some name. -/
def Outcome.stateOf? (outcome : Outcome) (name : String) : Option Residency :=
  outcome.residency.lookup name

namespace Call

def countTransfer : CallM Unit := modify fun call => { call with transfers := call.transfers + 1 }

def copyIn (f : Func) (shapes : List Shape) (id : ArrayId) : CallM Unit := do
  checkReadable .host id
  if (← get).tracker.isCopied id then
    let decl ← expect (f.decl? id)
    let length ← sizeOf shapes id
    let buffer ← bufferOf id decl.elem length
    let cells ← load id
    onDevice (Device.copyIn buffer cells)
    countTransfer
    record (.copiedIn decl.name length)
  track (·.copyIn id)

def copyOut (f : Func) (shapes : List Shape) (id : ArrayId) : CallM Unit := do
  checkReadable .device id
  if (← get).tracker.isCopied id then
    let decl ← expect (f.decl? id)
    let length ← sizeOf shapes id
    let buffer ← bufferOf id decl.elem length
    let room ← MonadExcept.ofExcept (zeros (← get).machine.device (.transfer id) decl.elem length)
    let cells ← onDevice (Device.copyOut buffer room.size)
    store id cells
    countTransfer
    record (.copiedOut decl.name length)
  track (·.copyOut id)

/-- The buffer to bind to a slot. -/
def bindSlot (f : Func) (shapes : List Shape) (slot : KernelParam × ArrayId) : CallM Nat := do
  let (param, id) := slot
  if param.access.reads then checkReadable .device id
  match ← expect (← get).host[id]? with
  | .shared handle => return handle
  | .owned _ =>
    let decl ← expect (f.decl? id)
    bufferOf id decl.elem (← sizeOf shapes id)

def launch (f : Func) (shapes : List Shape) (kernel : CompiledKernel) : CallM Unit := do
  let slots := kernel.plan.kernel.params.zip kernel.plan.bindings
  let buffers ← slots.mapM (bindSlot f shapes)
  let grid ← expect shapes[kernel.plan.extentOf]?
  record (.launched kernel.name grid)
  onDevice (Device.launch kernel.program grid buffers)
  modify fun call => { call with launches := call.launches + 1 }
  (slots.filter (·.1.access.writes)).forM fun slot => track (·.deviceWrite slot.2)

def hostRegion (f : Func) (shapes : List Shape) (table : HostTable) (region : Region) :
    CallM Unit := do
  region.reads.forM (checkReadable .host)
  (region.ops f).forM (hostOp f shapes table)
  region.writes.forM fun id => track (·.hostWrite id)

/-- One operation on the host. Writes keep what they do not touch, so written arrays need a
current host copy too. -/
def singleOp (f : Func) (shapes : List Shape) (table : HostTable) (op : Op) : CallM Unit := do
  (op.reads ++ op.writes).forM (checkReadable .host)
  hostOp f shapes table op
  op.writes.forM fun id => track (·.hostWrite id)

def step (unit : CompiledUnit) (shapes : List Shape) (table : HostTable) : Step → CallM Unit
  | .copyIn id => copyIn unit.function shapes id
  | .copyOut id => copyOut unit.function shapes id
  | .launch index => do launch unit.function shapes (← expect unit.kernels[index]?)
  | .hostRegion index => do hostRegion unit.function shapes table (← expect unit.regions[index]?)
  | .hostOp index => do singleOp unit.function shapes table (← expect unit.function.body[index]?)

/-- The host's memory at the start of a call, from some array on: arguments copied or shared, locals
zero. -/
def hostMemory (device : Device) (args : List ArrayValue) :
    ArrayId → List (ArrayDecl × Shape) → Except (Stop OffloadError) (List Storage)
  | _, [] => .ok []
  | id, (decl, shape) :: rest => do
    let storage ← match decl.role with
      | .param position => orFault (args[position]?.map (·.storage))
      | .scratch => (zeros device (.scratch id) decl.elem shape.size).map Storage.owned
    return storage :: (← hostMemory device args (id + 1) rest)

/-- A call before its first step, and the shapes of its arrays. -/
def start (unit : CompiledUnit) (table : HostTable) (args : List ArrayValue) (machine : Machine) :
    Except (Stop OffloadError) (Call × List Shape) := do
  let f := unit.function
  let shapes ← Shapes.resolve f args table
  let host ← hostMemory machine.device args 0 (f.arrays.zip shapes)
  let tracker ← orFault (Tracker.start? f unit.key.signature)
  let buffers := f.arrays.map fun _ => (none : Option Nat)
  return ({ machine, host, buffers, tracker }, shapes)

/-- The returned array. Shared memory is returned as it is. -/
def returned (f : Func) (shapes : List Shape) (args : List ArrayValue) :
    CallM (Option ArrayValue) := do
  match f.returns with
  | none => return none
  | some id =>
    let decl ← expect (f.decl? id)
    match decl.role, ← expect (← get).host[id]? with
    | .param position, .shared _ => return some (← expect args[position]?)
    | _, _ =>
      let cells ← load id
      return some (← expect (ArrayValue.ofCells? decl.elem (← expect shapes[id]?) cells))

/-- All steps, the checks at the end, and the report. -/
def body (unit : CompiledUnit) (shapes : List Shape) (table : HostTable)
    (args : List ArrayValue) : CallM Outcome := do
  unit.steps.forM (step unit shapes table)
  let tracker := (← get).tracker
  (tracker.bindings.filter (·.escapes)).forM fun b => checkReadable .host b.array
  let result ← returned unit.function shapes args
  let call ← get
  return ⟨result, call.printed, (tracker.bindings.map (·.name)).zip tracker.states,
    call.launches, call.transfers⟩

/-- Hand the host's own copies over to the arguments, each copy once. -/
def commit : List ArrayId → List Storage → List ArrayValue → List ArrayValue
  | id :: ids, host, arg :: args =>
    match host[id]? with
    | some (.owned cells) =>
      arg.withCells cells :: commit ids (host.set id (.owned #[])) args
    | _ => arg :: commit ids host args
  | _, _, args => args

end Call

/-- How a call ended. -/
structure CallResult where
  result : Except (Stop OffloadError) Outcome
  args : List ArrayValue
  machine : Machine

/-- Run a compiled unit on arguments. -/
def CompiledUnit.run (unit : CompiledUnit) (table : HostTable) (args : List ArrayValue)
    (machine : Machine) : CallResult :=
  match Call.start unit table args machine with
  | .error stop => ⟨.error stop, args, machine⟩
  | .ok (call, shapes) =>
    let (result, final) := (Call.body unit shapes table args).run.run call
    let after := match result with
      | .ok _ => Call.commit unit.function.params final.host args
      | .error _ => args
    ⟨result, after, final.close⟩

end ArrayOffload
