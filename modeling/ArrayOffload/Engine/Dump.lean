import ArrayOffload.Disk
import ArrayOffload.Event
import ArrayOffload.Kernel.Shader
import ArrayOffload.Plan.CompiledUnit

/-!
# Kernel dumps

The kernels of a unit as shader files. A file is named by the unit's fingerprint and the kernel,
and a file that is there is never written again. A kernel without a shader is left out.
-/

namespace ArrayOffload.Dump

/-- The file name of a kernel. -/
def fileName (unit : CompiledUnit) (kernel : String) : String :=
  s!"{unit.fingerprint.hex}.{kernel}.wgsl"

/-- A dump in progress: the files, the paths that now hold a kernel, and the log. -/
structure State where
  disk : Disk
  paths : List String := []
  events : List Event := []

abbrev DumpM := ExceptT (Stop String) (StateM State)

def record (event : Event) : DumpM Unit :=
  modify fun s => { s with events := s.events ++ [event] }

def listed (path : String) : DumpM Unit := modify fun s => { s with paths := s.paths ++ [path] }

/-- Work on the disk; `action` and `path` say what failed. -/
def onDisk (action path : String) (work : DiskM Unit) : DumpM Unit := do
  let s ← get
  let (result, disk) := work.run.run s.disk
  set { s with disk }
  match result with
  | .ok () => return ()
  | .error cause => throw (.error s!"cannot {action} {path}: {cause.message}")

/-- Write one kernel, unless its file is there. -/
def writeKernel (dir : String) (unit : CompiledUnit) (kernel : CompiledKernel) : DumpM Unit := do
  let path := joinPath dir (fileName unit kernel.name)
  if (← get).disk.pathExists path then listed path
  else
    match Shader.lower kernel.plan.kernel with
    | .error .fault => throw .fault
    | .error (.error cause) => record (.notDumped kernel.name cause)
    | .ok source =>
      onDisk "write" path (Disk.write path source)
      record (.dumped kernel.name path)
      listed path

/-- Write the kernels of a unit into a directory. Without kernels nothing happens. -/
def writeUnit (dir : String) (unit : CompiledUnit) : DumpM Unit := do
  unless unit.kernels.isEmpty do
    onDisk "create" dir (Disk.makeDirs dir)
    unit.kernels.forM (writeKernel dir unit)

end ArrayOffload.Dump
