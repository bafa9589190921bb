import ArrayOffload.CommandLine.Arguments
import ArrayOffload.CommandLine.HostFns
import ArrayOffload.CommandLine.Options
import ArrayOffload.Source.Parser

/-!
# Commands

What each command does to files, settings and the two output channels, as a pure function.

* `CommandLine.run`: a command line from start to end.
-/

namespace ArrayOffload.CommandLine

/-- The output so far, and the engine with files and log. -/
structure Console where
  engine : Engine := {}
  stdout : List String := []
  stderr : List String := []

/-- Why a command ends early. -/
inductive Failure where
  /-- The text of an error; it is the last line on the error channel. -/
  | error (message : String)
  | fault
deriving DecidableEq, Repr

abbrev CommandM := ExceptT Failure (StateM Console)

def fail {α : Type} (message : String) : CommandM α := throw (.error message)

/-- Write a line to standard output. -/
def out (line : String) : CommandM Unit :=
  modify fun console => { console with stdout := console.stdout ++ [line] }

/-- Write a line to the error channel. -/
def err (line : String) : CommandM Unit :=
  modify fun console => { console with stderr := console.stderr ++ [line] }

def onEngine (change : Engine → Engine) : CommandM Unit :=
  modify fun console => { console with engine := change console.engine }

/-- The failure that a stop leads to. -/
def failureOf {ε : Type} (message : ε → String) : Stop ε → Failure
  | .error cause => .error (message cause)
  | .fault => .fault

def expect {α ε : Type} (message : ε → String) (result : Except (Stop ε) α) : CommandM α :=
  MonadExcept.ofExcept (result.mapError (failureOf message))

def present {α : Type} (found : Option α) : CommandM α :=
  MonadExcept.ofExcept (match found with
    | some a => Except.ok a
    | none => .error Failure.fault)

/-- Where a diagnostic is, and what it says. -/
def diagnosticLine (path : String) (d : Source.Diagnostic) : String :=
  s!"{path}:{d.span.start}..{d.span.stop}: {d.problem.message}"

/-- The functions of a source file. -/
def loadFunctions (path : String) : CommandM (List Func) := do
  match (← get).engine.disk.read path with
  | .error cause => fail s!"cannot read '{path}': {cause.message}"
  | .ok source =>
    match Source.parseSource source with
    | .ok functions => return functions
    | .error diagnostics =>
      diagnostics.forM fun d => err (diagnosticLine path d)
      fail s!"{diagnostics.length} error(s) in '{path}'"

/-- The function of a name, or the first one. -/
def selectFunction (functions : List Func) (name : Option String) : CommandM Func := do
  match name with
  | none =>
    match functions.head? with
    | some f => return f
    | none => fail "no functions in input"
  | some name =>
    match functions.find? fun f => f.name = name with
    | some f => return f
    | none =>
      let available := Text.commaList (functions.map (·.name))
      fail s!"no function '{name}' (available: {available})"

/-- The settings in a file. -/
def loadConfig (path : String) : CommandM EngineConfig := do
  match (← get).engine.disk.read path with
  | .error cause => fail (ConfigError.unreadable path cause.message).message
  | .ok text =>
    match EngineConfig.ofText text with
    | .error cause => fail cause.message
    | .ok config =>
      onEngine (·.record (.configLoaded path))
      return config

/-- Variables of the environment. -/
abbrev Environment := List (String × String)

/-- Set the engine up: settings come from the option, else from the environment. -/
def openEngine (env : Environment) (config : Option String) : CommandM Unit := do
  let settings ← match config.or (env.lookup "OFFLOAD_CONFIG") with
    | some path => loadConfig path
    | none => pure {}
  match settings.backend with
  | .wgpu =>
    fail (OffloadError.device (.unsupported "no wgpu adapter available")).message
  | .sim =>
    onEngine fun engine =>
      ((engine.record (.backendChosen engine.profile.name)).configure settings
        (env.lookup "OFFLOAD_DUMP_DIR"))
    onEngine fun engine =>
      (engine.registerHost "log" HostFns.log).registerHost "copy" HostFns.copy

/-- A function ready to be compiled or called. -/
structure Ready where
  function : Func
  id : FuncId
  args : List ArrayValue
  context : DeviceContext

/-- Load the function, set the engine up, make the arguments and enter the context. -/
def prepare (env : Environment) (target : Target) (default : DeviceContext) (required : Bool) :
    CommandM Ready := do
  let f ← selectFunction (← loadFunctions target.input) target.function
  openEngine env target.config
  let (id, engine) := (← get).engine.register f
  let (result, engine) := (Arguments.build f target.args target.shared required).run.run engine
  onEngine fun _ => engine
  let args ← expect ArgumentsError.message result
  let context := target.device.getD default
  onEngine (·.record (.contextPushed context))
  return ⟨f, id, args, context⟩

def compile (ready : Ready) : CommandM CompiledUnit := do
  let (result, engine) := (Engine.compile ready.context ready.id ready.args).run.run (← get).engine
  onEngine fun _ => engine
  return (← expect OffloadError.message result).unit

def plan (env : Environment) (target : Target) : CommandM Unit := do
  let unit ← compile (← prepare env target .host false)
  out (← present unit.text?)
  unit.fallbacks.forM fun fallback =>
    err s!"note: region {fallback.region} runs on the host: {fallback.reason}"

/-- The text of an array. -/
def arrayText (device : Device) (a : ArrayValue) : String :=
  ArrayValue.textOf a.elem a.shape (a.cells device)

/-- Show what a call left behind. -/
def report (ready : Ready) (device : Device) (args : List ArrayValue) (outcome : Outcome) :
    CommandM Unit := do
  outcome.printed.forM out
  (ready.function.params.zip args).forM fun (id, arg) => do
    let name ← present (ready.function.nameOf? id)
    out s!"{name} = {arrayText device arg}"
  match ready.function.returns, outcome.returned with
  | some id, some a =>
    let name ← present (ready.function.nameOf? id)
    out s!"-> {name} = {arrayText device a}"
  | _, _ => return ()

def statistics (device : String) (outcome : Outcome) : CommandM Unit := do
  err s!"{outcome.launches} launch(es), {outcome.transfers} transfer(s) on {device}"
  outcome.residency.forM fun (name, state) =>
    err s!"  {Text.padRight 12 name} {state.name}"

def call (env : Environment) (target : Target) (stats : Bool) : CommandM Unit := do
  let ready ← prepare env target .host true
  let invoked := (← get).engine.invoke ready.context ready.id ready.args
  onEngine fun _ => invoked.engine
  invoked.engine.machine.notes.forM err
  let outcome ← expect OffloadError.message invoked.result
  report ready invoked.engine.machine.device invoked.args outcome
  if stats then statistics invoked.engine.profile.name outcome

/-- Write shader files into a directory. -/
def writeKernels (dir : String) (unit : CompiledUnit) : CommandM Unit := do
  let engine := (← get).engine
  let (result, final) := (Dump.writeUnit dir unit).run.run { disk := engine.disk }
  onEngine fun engine => { final.events.foldl Engine.record engine with disk := final.disk }
  expect id result
  final.paths.forM fun path => err s!"wrote {path}"

/-- Show the shaders of a unit. -/
def showKernels (emit : String) (unit : CompiledUnit) : CommandM Unit := do
  if emit ∈ Shader.targets then
    unit.kernels.forM fun kernel => do
      out s!"// {kernel.name} (region {kernel.plan.kernel.region})"
      match Shader.lower kernel.plan.kernel with
      | .ok source => out source
      | .error (.error cause) => err s!"warning: {kernel.name} not lowered: {cause.reason}"
      | .error .fault => throw .fault
  else fail s!"unknown kernel target '{emit}'"

def kernels (env : Environment) (target : Target) (emit : String) (ir : Bool)
    (outDir : Option String) : CommandM Unit := do
  let unit ← compile (← prepare env target .gpu false)
  if unit.kernels.isEmpty then
    let strategy := unit.strategy.name
    err s!"no kernels: `{unit.function.name}` lowers to {strategy} on {unit.key.context.text}"
  else
    match outDir with
    | some dir => writeKernels dir unit
    | none =>
      if ir then unit.kernels.forM fun kernel => out (kernel.plan.kernel.text ++ "\n")
      else showKernels emit unit

def hash (input : String) (full : Bool) : CommandM Unit := do
  (← loadFunctions input).forM fun f =>
    let shown := if full then f.contentHash.hex else f.contentHash.text
    out s!"  {shown} {f.name}"

def carryOut (env : Environment) : Command → CommandM Unit
  | .plan target => plan env target
  | .run target stats => call env target stats
  | .kernels target emit ir outDir => kernels env target emit ir outDir
  | .hash input full => hash input full

/-- What a run of the program leaves behind. -/
structure Report where
  code : Nat
  stdout : String
  stderr : String
  disk : Disk
  journal : List Event

/-- Lines, each with its line break. -/
def linesText (lines : List String) : String := String.join (lines.map (· ++ "\n"))

def usage : String :=
  "Usage: offload <plan|run|kernels|hash> <INPUT> [OPTIONS]"

/-- End a command: a finished one gives its programs back. -/
def finish (result : Except Failure Unit) (console : Console) : Report :=
  match result with
  | .ok _ =>
    let engine := console.engine.clear
    ⟨0, linesText console.stdout, linesText console.stderr, engine.disk, engine.machine.journal⟩
  | .error failure =>
    let (code, last) := match failure with
      | .error message => (1, [s!"error: {message}"])
      | .fault => (101, ["error: internal fault"])
    ⟨code, linesText console.stdout, linesText (console.stderr ++ last), console.engine.disk,
      console.engine.machine.journal⟩

/-- The paths that a command line names, whether or not there are files. -/
def pathsOf (env : Environment) (words : List String) : List String :=
  let settings := env.map (·.2)
  match Command.parse words with
  | .ok (.plan target) | .ok (.run target _) => target.input :: target.config.toList ++ settings
  | .ok (.kernels target _ _ outDir) =>
    target.input :: target.config.toList ++ outDir.toList ++ settings
  | .ok (.hash input _) => [input]
  | .error _ => []

/-- Run a command line. -/
def run (disk : Disk) (env : Environment) (words : List String) : Report :=
  match Command.parse words with
  | .error .help => ⟨0, usage ++ "\n", "", disk, []⟩
  | .error .version => ⟨0, "offload 0.1.0\n", "", disk, []⟩
  | .error (.misuse reason) => ⟨2, "", linesText [s!"error: {reason}", "", usage], disk, []⟩
  | .ok command =>
    let (result, console) := (carryOut env command).run.run { engine := { disk } }
    finish result console

end ArrayOffload.CommandLine
