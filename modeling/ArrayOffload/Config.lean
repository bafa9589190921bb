import ArrayOffload.Toml.Document

/-!
# Configuration

Settings of an engine, read from TOML. Every section and key is optional and unknown ones are
ignored. A section may also be written as an array, its keys by position.
-/

namespace ArrayOffload

inductive Backend where
  | sim | wgpu
deriving DecidableEq, Repr

namespace Backend

def name : Backend → String
  | sim => "sim"
  | wgpu => "wgpu"

def ofName? (text : String) : Option Backend :=
  [sim, wgpu].find? fun backend => backend.name = text

end Backend

structure EngineConfig where
  backend : Backend := .sim
  /-- The least number of elements worth splitting among threads; it never changes results. -/
  parallelMinLen : Nat := 4096
  dumpKernels : Bool := false
  dumpDir : Option String := none
deriving DecidableEq, Repr

inductive ConfigError where
  /-- The text is no TOML, or a value has the wrong type. -/
  | parse
  | minLenZero
  /-- The file cannot be read. -/
  | unreadable (path reason : String)
deriving DecidableEq, Repr

def ConfigError.message : ConfigError → String
  | parse => "invalid config: TOML parse error"
  | minLenZero => "invalid config: host.parallel_min_len must be at least 1"
  | unreadable path reason => s!"cannot read '{path}': {reason}"

namespace EngineConfig

/-- The nodes of a section's keys. A date counts as a section without any of them. -/
def fields? (keys : List String) : Toml.Node → Option (List (Option Toml.Node))
  | .table _ entries => some (keys.map fun key => entries.lookup key)
  | .list items => some (keys.zipIdx.map fun (_, i) => items[i]?)
  | .tables items => some (keys.zipIdx.map fun (_, i) => items[i]?.map (Toml.Node.table .header))
  | .moment => some (keys.map fun _ => none)
  | _ => none

/-- The keys of a section of the document; a section that is not there has none. -/
def sectionOf? (document : Toml.Table) (name : String) (keys : List String) :
    Option (List (Option Toml.Node)) :=
  match document.lookup name with
  | none => some (keys.map fun _ => none)
  | some node => fields? keys node

def isEmptyNode : Toml.Node → Bool
  | .list [] | .table _ [] => true
  | _ => false

/-- A backend by its name, or as the only key of a table, with nothing under it. -/
def backendOf? : Toml.Node → Option Backend
  | .text name => Backend.ofName? name
  | .table _ [(name, inner)] => if isEmptyNode inner then Backend.ofName? name else none
  | _ => none

def lengthOf? : Toml.Node → Option Nat
  | .integer value => if 0 ≤ value then some value.toNat else none
  | _ => none

def boolOf? : Toml.Node → Option Bool
  | .boolean value => some value
  | _ => none

def textOf? : Toml.Node → Option String
  | .text value => some value
  | _ => none

/-- A key's value, or its default if the key is not there. -/
def valueOr? {α : Type} (read : Toml.Node → Option α) (default : α)
    (fields : List (Option Toml.Node)) (index : Nat) : Option α :=
  match fields[index]?.join with
  | none => some default
  | some node => read node

def ofTable? (document : Toml.Table) : Option EngineConfig := do
  let runtime ← sectionOf? document "runtime" ["backend"]
  let backend ← valueOr? backendOf? .sim runtime 0
  let host ← sectionOf? document "host" ["parallel_min_len"]
  let parallelMinLen ← valueOr? lengthOf? 4096 host 0
  let dump ← sectionOf? document "dump" ["kernels", "dir"]
  let dumpKernels ← valueOr? boolOf? false dump 0
  let dumpDir ← valueOr? (fun node => (textOf? node).map some) none dump 1
  some { backend, parallelMinLen, dumpKernels, dumpDir }

/-- Read a configuration. -/
def ofText (text : String) : Except ConfigError EngineConfig :=
  match (Toml.parse? text).bind ofTable? with
  | none => .error .parse
  | some config => if config.parallelMinLen = 0 then .error .minLenZero else .ok config

end EngineConfig

end ArrayOffload
