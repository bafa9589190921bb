import ArrayOffload.Number.Decimal
import ArrayOffload.Text.Blank

/-!
# Device contexts

A context names the target that calls are compiled for: a device class and, outside the host,
an optional device number. Contexts nest on a stack; the empty stack means the host.

* `DeviceContext.ofText`: reads `host`, `gpu`, `gpu:1`, `accel:0`;
* `ContextStack.truncate`: what the end of a scope does, whatever happened inside it.
-/

namespace ArrayOffload

inductive DeviceKind where
  | host | gpu | accelerator
deriving DecidableEq, Repr

def DeviceKind.name : DeviceKind → String
  | host => "host"
  | gpu => "gpu"
  | accelerator => "accelerator"

structure DeviceContext where
  kind : DeviceKind
  handle : Option Nat
deriving DecidableEq, Repr

/-- Why a text names no context. -/
inductive ContextError where
  | badHandle (text : String)
  | unknownKind (text : String)
  | hostHandle
deriving DecidableEq, Repr

def ContextError.message : ContextError → String
  | badHandle text => s!"invalid device handle '{text}'"
  | unknownKind text => s!"unknown device kind '{text}'"
  | hostHandle => "the host context takes no device handle"

namespace DeviceContext

/-- The default context. -/
def host : DeviceContext := ⟨.host, none⟩

def gpu : DeviceContext := ⟨.gpu, none⟩

def isHost (context : DeviceContext) : Bool := context.kind = .host

def text (context : DeviceContext) : String :=
  match context.handle with
  | some handle => s!"{context.kind.name}:{handle}"
  | none => context.kind.name

/-- A device class, by its name or short name, in any case. -/
def kindOfText (text : List Char) : Except ContextError DeviceKind :=
  let word := String.ofList ((Text.trim text).map Char.toLower)
  if word = "host" || word = "cpu" then .ok .host
  else if word = "gpu" then .ok .gpu
  else if word = "accelerator" || word = "accel" then .ok .accelerator
  else .error (.unknownKind word)

/-- A class with an optional number after a colon. A bad number is reported before an unknown
class. -/
def ofText (text : String) : Except ContextError DeviceContext :=
  match Text.cutAt? ':' text.toList with
  | none => (kindOfText text.toList).map fun kind => ⟨kind, none⟩
  | some (word, number) =>
    match Number.readBounded? 0xffffffff number with
    | none => .error (.badHandle (String.ofList number))
    | some handle =>
      match kindOfText word with
      | .error cause => .error cause
      | .ok .host => .error .hostHandle
      | .ok kind => .ok ⟨kind, some handle⟩

end DeviceContext

/-- The contexts selected so far, the innermost first. -/
abbrev ContextStack := List DeviceContext

namespace ContextStack

/-- The innermost context, or the host. -/
def current (stack : ContextStack) : DeviceContext := stack.head?.getD .host

/-- Drop the innermost contexts until at most `depth` are left. -/
def truncate (depth : Nat) (stack : ContextStack) : ContextStack :=
  stack.drop (stack.length - depth)

end ContextStack

end ArrayOffload
