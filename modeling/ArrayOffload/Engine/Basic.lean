import ArrayOffload.Call.Run
import ArrayOffload.Config
import ArrayOffload.Engine.Cache
import ArrayOffload.Engine.Dump
import ArrayOffload.Plan.Lowering

/-!
# The engine

Registered functions, host functions, one device and one cache. Callers may hold compiled units
by name; the programs of a unit are given back once it is neither cached nor held.

* `Engine.compile`: the unit of a call, built on first use;
* `Engine.invoke`: one call from start to end.
-/

namespace ArrayOffload

structure Engine where
  config : EngineConfig := {}
  profile : Profile := .simulated
  /-- Where kernels of new units are written, if anywhere. -/
  dumpDir : Option String := none
  functions : List Func := []
  hosts : HostTable := []
  cache : Cache := {}
  /-- Units that callers hold, by name. -/
  held : List (String × Built) := []
  machine : Machine := {}
  disk : Disk := {}

/-- Work of an engine. What was done before a stop stays done. -/
abbrev EngineM := ExceptT (Stop OffloadError) (StateM Engine)

namespace Engine

def record (engine : Engine) (event : Event) : Engine :=
  { engine with machine := engine.machine.record event }

/-- An engine with settings; `environment` names a dump directory if the settings do not. -/
def configure (config : EngineConfig) (environment : Option String) (engine : Engine) : Engine :=
  let dir := config.dumpDir.or environment
  let configured :=
    { engine with config, dumpDir := if config.dumpKernels then dir else none }
  if config.dumpKernels && dir.isNone then configured.record .dumpDirectoryMissing
  else configured

/-! ## Functions -/

def register (engine : Engine) (f : Func) : FuncId × Engine :=
  let id := engine.functions.length
  (id, { engine.record (.registered f.name id) with functions := engine.functions ++ [f] })

def function (engine : Engine) (id : FuncId) : Except OffloadError Func :=
  match engine.functions[id]? with
  | some f => .ok f
  | none => .error (.unknownFunction id)

/-- The last function registered under a name. -/
def lookup? (engine : Engine) (name : String) : Option FuncId :=
  (engine.functions.zipIdx.reverse.find? fun entry => entry.1.name = name).map (·.2)

def registerHost (engine : Engine) (name : String) (f : HostFn) : Engine :=
  { engine with hosts := engine.hosts.register name f }

/-! ## Units -/

/-- The serial numbers of the units that are cached or held. -/
def liveSerials (engine : Engine) : List Nat :=
  (engine.cache.units ++ engine.held.map (·.2)).map (·.serial)

/-- Give back the programs of a unit that nobody uses any more. -/
def letGo (engine : Engine) (built : Built) : Engine :=
  if built.serial ∈ engine.liveSerials then engine
  else
    let programs := built.unit.programs
    let device := Lowering.releaseAll programs engine.machine.device
    let freed := { engine with machine := { engine.machine with device } }
    if programs.isEmpty then freed
    else freed.record (.released programs.length engine.profile.name)

/-- Take away the cached units of a function; the number of slots that were dropped. -/
def invalidate (engine : Engine) (id : FuncId) : Nat × Engine :=
  let dropped := engine.cache.slotsOf id
  let without := { engine with cache := engine.cache.invalidate id }
  let freed := (dropped.filterMap (·.2)).foldl letGo without
  (dropped.length,
    if dropped.isEmpty then freed else freed.record (.invalidated dropped.length id))

/-- Take away all cached units. -/
def clear (engine : Engine) : Engine :=
  engine.cache.units.foldl letGo { engine with cache := engine.cache.clear }

/-- Stop holding the unit of a name. -/
def dropHeld (engine : Engine) (name : String) : Engine :=
  match engine.held.lookup name with
  | none => engine
  | some built =>
    { engine with held := engine.held.filter fun entry => entry.1 ≠ name }.letGo built

/-- Hold a unit under a name, in place of the one held before. -/
def hold (engine : Engine) (name : String) (built : Built) : Engine :=
  match engine.held.lookup name with
  | none => { engine with held := engine.held ++ [(name, built)] }
  | some old =>
    let others := engine.held.filter fun entry => entry.1 ≠ name
    { engine with held := others ++ [(name, built)] }.letGo old

def held? (engine : Engine) (name : String) : Option Built := engine.held.lookup name

/-! ## Calls -/

def event (e : Event) : EngineM Unit := modify (·.record e)

def onMachine {α : Type} (work : MachineM α) : EngineM α := do
  let engine ← get
  let (result, machine) := work.run.run engine.machine
  set { engine with machine }
  MonadExcept.ofExcept result

/-- An array in memory shared with the device. -/
def sharedArray (elem : Elem) (shape : Shape) (values : Cells) : EngineM ArrayValue := do
  let profile := (← get).profile
  onMachine (MachineM.onDevice (ArrayValue.share profile elem shape values))

/-- Write the kernels of a new unit. A failure is only logged. -/
def dump (unit : CompiledUnit) : EngineM Unit := do
  let engine ← get
  match engine.dumpDir with
  | none => return ()
  | some dir =>
    let (result, final) := (Dump.writeUnit dir unit).run.run { disk := engine.disk }
    set { final.events.foldl record engine with disk := final.disk }
    match result with
    | .ok _ => return ()
    | .error (.error reason) => event (.dumpFailed reason)
    | .error .fault => throw .fault

/-- Build the unit of a key. On an error the key has no slot. -/
def build (f : Func) (key : UnitKey) : EngineM Built := do
  event (.cacheMiss key)
  modify fun engine => { engine with cache := engine.cache.reserve key }
  let fingerprint := unitFingerprint f.contentHash key.signature key.context
  let engine ← get
  let (result, machine) := (Lowering.run engine.profile f key fingerprint).run.run engine.machine
  set { engine with machine }
  match result with
  | .error .fault => throw .fault
  | .error (.error cause) =>
    modify fun engine =>
      let retired := engine.cache.retire key
      { engine with cache := { retired with failures := retired.failures + 1 } }
    event (.buildFailed f.name cause)
    throw (.error cause)
  | .ok unit =>
    let serial := (← get).cache.lastSerial + 1
    modify fun engine =>
      { engine with
        cache := { engine.cache with builds := engine.cache.builds + 1, lastSerial := serial } }
    event (.built key fingerprint)
    dump unit
    let built : Built := ⟨serial, unit⟩
    modify fun engine => { engine with cache := engine.cache.fill key built }
    return built

/-- The unit of a key, from the cache if it is there. -/
def unitOf (f : Func) (key : UnitKey) : EngineM Built := do
  match (← get).cache.find? key with
  | some built =>
    modify fun engine =>
      { engine with cache := { engine.cache with hits := engine.cache.hits + 1 } }
    event (.cacheHit key)
    return built
  | none => build f key

/-- The unit of a function, known as `id`, for arguments under a context. Serial functions compile
for the host only. -/
def unitFor (context : DeviceContext) (id : FuncId) (f : Func) (args : List ArrayValue) :
    EngineM Built := do
  let signature ← MonadExcept.ofExcept (Signature.ofArgs f args)
  if f.serialOnly && !context.isHost then throw (.error (.conflictingIntent f.name context))
  unitOf f ⟨id, signature, context⟩

/-- The unit of a registered function. -/
def compile (context : DeviceContext) (id : FuncId) (args : List ArrayValue) :
    EngineM Built := do
  let f ← MonadExcept.ofExcept (((← get).function id).mapError Stop.error)
  unitFor context id f args

/-- How a call of the engine ended. -/
structure Invoked where
  result : Except (Stop OffloadError) Outcome
  args : List ArrayValue
  engine : Engine

/-- Call a function. -/
def invoke (engine : Engine) (context : DeviceContext) (id : FuncId) (args : List ArrayValue) :
    Invoked :=
  match (compile context id args).run.run engine with
  | (.error stop, engine) => ⟨.error stop, args, engine⟩
  | (.ok built, engine) =>
    let call := built.unit.run engine.hosts args engine.machine
    let after := { engine with machine := call.machine }
    match call.result with
    | .error stop => ⟨.error stop, call.args, after⟩
    | .ok outcome =>
      ⟨.ok outcome, call.args,
        after.record (.invoked built.unit.key outcome.launches outcome.transfers)⟩

/-- The printed form of an engine. -/
def text (engine : Engine) : String :=
  "Engine \x7b runtime: " ++ Text.quoted engine.profile.name ++ ", units: " ++
    toString engine.cache.size ++ ", .. \x7d"

end Engine

end ArrayOffload
