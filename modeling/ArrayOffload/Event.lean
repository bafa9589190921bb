import ArrayOffload.Text.ControlSequence
import ArrayOffload.Error
import ArrayOffload.UnitKey

/-!
# Log events

What the parts of the library report while they work. An event is data; its severity, the part
that reports it and its wording are functions.
-/

namespace ArrayOffload

inductive Level where
  | warn | info | debug | trace
deriving DecidableEq, Repr

namespace Level

def name : Level → String
  | warn => "WARN"
  | info => "INFO"
  | debug => "DEBUG"
  | trace => "TRACE"

def rank : Level → Nat
  | warn => 0
  | info => 1
  | debug => 2
  | trace => 3

def ofName? (text : String) : Option Level :=
  [warn, info, debug, trace].find? fun level => level.name = text.toUpper

end Level

inductive Event where
  | contextPushed (context : DeviceContext)
  | contextPopped (context : DeviceContext)
  | configLoaded (path : String)
  | backendChosen (device : String)
  | dumpDirectoryMissing
  | registered (function : String) (id : FuncId)
  | invoked (key : UnitKey) (launches transfers : Nat)
  | cacheHit (key : UnitKey)
  | cacheMiss (key : UnitKey)
  | buildFailed (function : String) (cause : OffloadError)
  | built (key : UnitKey) (fingerprint : ContentHash)
  | dumpFailed (reason : String)
  | invalidated (count : Nat) (id : FuncId)
  | dumped (kernel path : String)
  | notDumped (kernel : String) (cause : RegionError)
  | lowered (function : String) (context : DeviceContext)
      (regions kernels transfers fallbacks : Nat)
  | fellBack (function : String) (cause : RegionError)
  | compiled (kernel program device : String)
  | launched (kernel : String) (grid : Shape)
  | released (count : Nat) (device : String)
  | copiedIn (array : String) (length : Nat)
  | copiedOut (array : String) (length : Nat)
  | printed (line : String)
deriving DecidableEq, Repr

namespace Event

def level : Event → Level
  | dumpDirectoryMissing | buildFailed .. | dumpFailed _ => .warn
  | built .. | lowered .. | fellBack .. => .info
  | contextPushed _ | contextPopped _ | copiedIn .. | copiedOut .. => .trace
  | _ => .debug

/-- The part of the library that reports the event. -/
def part : Event → String
  | contextPushed _ | contextPopped _ => "offload::context"
  | configLoaded _ => "offload::config"
  | backendChosen _ | dumpDirectoryMissing | registered .. | invoked .. => "offload::engine"
  | cacheHit _ | cacheMiss _ | buildFailed .. | built .. | dumpFailed _ | invalidated .. =>
    "offload::cache"
  | dumped .. | notDumped .. => "offload::cache::dump"
  | lowered .. => "offload::lower"
  | fellBack .. => "offload::lower::offload"
  | compiled .. | launched .. | released .. => "offload::schedule"
  | copiedIn .. | copiedOut .. | printed _ => "offload::exec"

def message : Event → String
  | contextPushed context => s!"push device context {context.text}"
  | contextPopped context => s!"pop device context {context.text}"
  | configLoaded path => s!"loaded config from {path}"
  | backendChosen device => s!"engine backend: {device}"
  | dumpDirectoryMissing => "kernel dumps requested but no dump directory is set"
  | registered function id => s!"registered `{function}` as {FuncId.text id}"
  | invoked key launches transfers =>
    s!"invoked {key.text}: {launches} launch(es), {transfers} transfer(s)"
  | cacheHit key => s!"cache hit: {key.text}"
  | cacheMiss key => s!"cache miss: {key.text}"
  | buildFailed function cause => s!"building `{function}` failed: {cause.message}"
  | built key fingerprint => s!"built {key.text} ({fingerprint.text})"
  | dumpFailed reason => s!"kernel dump failed: {reason}"
  | invalidated count id => s!"invalidated {count} unit(s) of {FuncId.text id}"
  | dumped kernel path => s!"dumped `{kernel}` to {path}"
  | notDumped kernel cause => s!"not dumping `{kernel}`: {cause.message}"
  | lowered function context regions kernels transfers fallbacks =>
    s!"lowered `{function}` for {context.text}: {regions} region(s), {kernels} kernel(s), " ++
      s!"{transfers} transfer(s), {fallbacks} fallback(s)"
  | fellBack function cause => s!"`{function}` {cause.message}; lowering it on the host"
  | compiled kernel program device => s!"compiled kernel `{kernel}` as {program} on {device}"
  | launched kernel grid => s!"launch `{kernel}` grid {Text.dims grid}"
  | released count device => s!"released {count} program(s) on {device}"
  | copiedIn array length => s!"copy-in `{array}` ({length} elements)"
  | copiedOut array length => s!"copy-out `{array}` ({length} elements)"
  | printed line => s!"print: {line}"

/-- Severity, part and wording on one line, without what a terminal would obey. -/
def text (event : Event) : String :=
  Text.withoutControls s!"{event.level.name} {event.part} {event.message}"

/-- Whether an event is severe enough for a log of some level. -/
def within (level : Level) (event : Event) : Bool := event.level.rank ≤ level.rank

end Event

end ArrayOffload
