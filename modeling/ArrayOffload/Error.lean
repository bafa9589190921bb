import ArrayOffload.Context
import ArrayOffload.Elem
import ArrayOffload.Residency.State
import ArrayOffload.Shape

/-!
# Errors

Every error is a cause; its wording is one function, `message`.

* `InvalidCause`: why a function is not well formed;
* `ArgumentCause`: why arguments do not fit a function;
* `RegionCause`: why a region has no kernel, recorded and never reported to a caller;
* `DeviceError`: what a device can answer instead of a result;
* `OffloadError`: what a call can answer instead of a result.
-/

namespace ArrayOffload

inductive InvalidCause where
  | declaredTwice (name : String)
  | rankZero (name : String)
  | noShapeSource (name : String)
  | laterSource (name : String)
  | sourceRank (name : String) (rank : Nat) (source : String) (other : Nat)
  | dimCount (name : String) (rank count : Nat)
  | zeroExtent (name : String)
  | tooLarge (name : String) (dims : Shape)
  | undeclaredParam (position : Nat)
  | undeclaredReturn
  | undeclaredUse (operation : String) (id : Nat)
  | arity (operation : String) (expected found : Nat)
  | operandRank (operation : String) (rank : Nat) (out : String) (argRank : Nat) (arg : String)
  | reduceTarget (name : String)
  | scanRank (out input : String)
  | emptyCallee
deriving DecidableEq, Repr

def InvalidCause.message : InvalidCause → String
  | declaredTwice name => s!"array `{name}` declared twice"
  | rankZero name => s!"array `{name}` has rank 0"
  | noShapeSource name => s!"local `{name}` has no shape source"
  | laterSource name => s!"`{name}` takes its shape from an array declared after it"
  | sourceRank name rank source other =>
    s!"`{name}` has rank {rank} but `{source}` has rank {other}"
  | dimCount name rank count => s!"`{name}` has rank {rank} but {count} fixed dims"
  | zeroExtent name => s!"`{name}` has a zero extent"
  | tooLarge name dims => s!"`{name}` is too large to address: {Text.dims dims}"
  | undeclaredParam position => s!"parameter {position} is not declared"
  | undeclaredReturn => "returned array is not declared"
  | undeclaredUse operation id => s!"operation `{operation}` uses undeclared %{id}"
  | arity operation expected found => s!"`{operation}` takes {expected} operand(s), found {found}"
  | operandRank operation rank out argRank arg =>
    s!"`{operation}` writes rank-{rank} `{out}` from rank-{argRank} `{arg}`"
  | reduceTarget name => s!"reduction target `{name}` must be declared with shape [1]"
  | scanRank out input => s!"scan target `{out}` must have the rank of `{input}`"
  | emptyCallee => "call with an empty callee name"

inductive ArgumentCause where
  | count (expected found : Nat)
  | type (name : String) (elem : Elem) (rank : Nat) (argElem : Elem) (argRank : Nat)
  | noShapeSource (name : String)
  | tooLarge (name : String) (shape : Shape)
  | mapShape (arg : String) (argShape : Shape) (out : String) (outShape : Shape)
  | scanShape (out : String) (outShape : Shape) (input : String) (inputShape : Shape)
  | storeIndex (name : String) (index length : Nat)
deriving DecidableEq, Repr

def ArgumentCause.message : ArgumentCause → String
  | count expected found => s!"expected {expected} argument(s), got {found}"
  | type name elem rank argElem argRank =>
    s!"`{name}` expects {elem.name}/{rank}, got {argElem.name}/{argRank}"
  | noShapeSource name => s!"local `{name}` has no shape source"
  | tooLarge name shape => s!"`{name}` with shape {Text.dims shape} is too large to address"
  | mapShape arg argShape out outShape =>
    s!"`{arg}` has shape {Text.dims argShape} but `{out}` has shape {Text.dims outShape}"
  | scanShape out outShape input inputShape =>
    s!"scan `{out}` has shape {Text.dims outShape} but `{input}` has shape {Text.dims inputShape}"
  | storeIndex name index length =>
    s!"store to `{name}[{index}]` is out of bounds for length {length}"

inductive RegionCause where
  | noKernelLowering (kind : String)
  | rankLimit (rank : Nat) (device : String) (limit : Nat)
  | elemUnsupported (name : String) (elem : Elem) (device : String)
  | noKernelForm (operation : String)
  | shaderRank (rank limit : Nat)
  | shaderElem (elem : Elem)
  | shaderConstant (value : String) (operation : String)
deriving DecidableEq, Repr

def RegionCause.message : RegionCause → String
  | noKernelLowering kind => s!"{kind} has no kernel lowering"
  | rankLimit rank device limit => s!"rank {rank} exceeds {device} limit of {limit}"
  | elemUnsupported name elem device =>
    s!"`{name}` has element type {elem.name}, unsupported by {device}"
  | noKernelForm operation => s!"`{operation}` has no kernel form"
  | shaderRank rank limit => s!"rank {rank} exceeds the WGSL limit of {limit}"
  | shaderElem elem => s!"element type {elem.name} has no WGSL storage type"
  | shaderConstant value operation => s!"non-finite constant {value} in `{operation}`"

/-- A region that cannot become a kernel. -/
structure RegionError where
  region : Nat
  cause : RegionCause
deriving DecidableEq, Repr

def RegionError.reason (e : RegionError) : String := e.cause.message

def RegionError.message (e : RegionError) : String := s!"region {e.region}: {e.reason}"

inductive DeviceError where
  | compileRejected (reason : String)
  | enqueueFailed (reason : String)
  | allocationFailed (elem : Elem) (length : Nat) (reason : String)
  | transferFailed (reason : String)
  | invalidHandle (handle : Nat)
  | unsupported (what : String)
deriving DecidableEq, Repr

def DeviceError.message : DeviceError → String
  | compileRejected reason => s!"kernel compilation rejected: {reason}"
  | enqueueFailed reason => s!"kernel enqueue failed: {reason}"
  | allocationFailed elem length reason => s!"cannot allocate {length} x {elem.name}: {reason}"
  | transferFailed reason => s!"transfer failed: {reason}"
  | invalidHandle handle => s!"invalid handle {handle}"
  | unsupported what => s!"unsupported by this runtime: {what}"

inductive OffloadError where
  | conflictingIntent (function : String) (context : DeviceContext)
  | device (cause : DeviceError)
  | unknownFunction (id : Nat)
  | arguments (function : String) (cause : ArgumentCause)
  | invalid (function : String) (cause : InvalidCause)
  | unresolvedCall (callee : String)
  | callFailed (callee message : String)
  | residency (array : String) (location : Location) (state : Residency)
deriving DecidableEq, Repr

def OffloadError.message : OffloadError → String
  | conflictingIntent function context =>
    s!"function `{function}` is annotated serial-only " ++
      s!"but device context `{context.text}` requests offload"
  | device cause => s!"runtime dispatch failure: {cause.message}"
  | unknownFunction id => s!"unknown function id fn#{id}"
  | arguments function cause => s!"bad arguments for `{function}`: {cause.message}"
  | invalid function cause => s!"invalid function `{function}`: {cause.message}"
  | unresolvedCall callee => s!"host function `{callee}` is not registered"
  | callFailed callee message => s!"host function `{callee}` failed: {message}"
  | residency array location state =>
    s!"array `{array}` read on {location.name} while {state.name}"

end ArrayOffload
