import ArrayOffload.Error
import ArrayOffload.Kernel.Basic
import ArrayOffload.HandleTable

/-!
# The simulated device

A device holds buffers and compiled programs. Its memory is private: elements go in and out by
copies only, apart from shared memory, which the host reads and writes too. Buffers and
programs are named by handles from one counter, never used twice.

* `Device.cells?`: the elements of a live buffer;
* `Device.pool`: shared memory, which outlives its buffer;
* `Device.scarce`: where memory runs out.
-/

namespace ArrayOffload

/-- What the device has done so far. -/
structure Counters where
  compiles : Nat := 0
  launches : Nat := 0
  copyIns : Nat := 0
  copyOuts : Nat := 0
  allocations : Nat := 0
  releases : Nat := 0
deriving DecidableEq, Repr

inductive Buffer where
  | owned (elem : Elem) (cells : Cells)
  /-- The elements stand in the device's pool. -/
  | shared (elem : Elem)
deriving BEq, Repr

def Buffer.elem : Buffer → Elem
  | owned elem _ | shared elem => elem

/-- What memory is asked for. -/
inductive Purpose where
  /-- A buffer of the device. -/
  | buffer
  /-- The host's elements of a local array. -/
  | scratch (array : Nat)
  /-- The host's room for an array that comes out of the device. -/
  | transfer (array : Nat)
deriving DecidableEq, Repr

/-- A request for memory. -/
structure Demand where
  purpose : Purpose
  /-- The last handle that was given out before. -/
  after : Nat
  length : Nat
deriving DecidableEq, Repr

structure Device where
  /-- The last handle given out. -/
  lastHandle : Nat := 0
  buffers : HandleTable Buffer := []
  /-- Shared memory by the handle of its buffer. -/
  pool : HandleTable Cells := []
  programs : HandleTable Kernel := []
  counters : Counters := {}
  /-- Compilations still to succeed, then the reason of one failure. -/
  failCompile : Option (Nat × String) := none
  /-- The reason of one failing launch. -/
  failLaunch : Option String := none
  /-- The requests that find no memory left. -/
  scarce : List Demand := []
  /-- Whether a product beyond the machine words faults. If not, it wraps. -/
  trapping : Bool := false
deriving Repr

/-- Operations of a device. What was done before a stop stays done. -/
abbrev DeviceM := ExceptT (Stop DeviceError) (StateM Device)

namespace Device

def bufferText (handle : Nat) : String := s!"buf#{handle}"

def programText (handle : Nat) : String := s!"prog#{handle}"

/-- The elements of a live buffer. -/
def cells? (device : Device) (handle : Nat) : Option Cells :=
  match device.buffers.get? handle with
  | none => none
  | some (.owned _ cells) => some cells
  | some (.shared _) => device.pool.get? handle

/-- Replace the elements of a live buffer. -/
def withCells (device : Device) (handle : Nat) (cells : Cells) : Device :=
  match device.buffers.get? handle with
  | none => device
  | some (.owned elem _) => { device with buffers := device.buffers.set handle (.owned elem cells) }
  | some (.shared _) => { device with pool := device.pool.set handle cells }

/-- `cells` with the leading ones replaced by `values`. -/
def overwrite (cells values : Cells) : Cells := values ++ cells.extract values.size cells.size

/-- Count something. -/
def count (f : Counters → Counters) : DeviceM Unit :=
  modify fun device => { device with counters := f device.counters }

def fail {α : Type} (cause : DeviceError) : DeviceM α := throw (.error cause)

/-- A handle never given out before. -/
def freshHandle : DeviceM Nat := do
  let handle := (← get).lastHandle + 1
  modify fun device => { device with lastHandle := handle }
  return handle

end Device

/-- What a device reports about itself, on which the choice of kernels depends. -/
structure Profile where
  name : String
  elems : List Elem
  maxRank : Nat
  /-- A last check of each kernel. -/
  accepts : Kernel → Except (Stop RegionError) Unit
  sharedMemory : Bool

/-- The simulated device takes every element type and every kernel. -/
def Profile.simulated : Profile where
  name := "sim"
  elems := [.f32, .f64, .i32, .i64]
  maxRank := 8
  accepts _ := .ok ()
  sharedMemory := true

end ArrayOffload
