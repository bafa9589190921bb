import ArrayOffload.Machine
import ArrayOffload.Residency.Tracker

/-!
# A call in progress

The arrays of a running call on the host, its buffers on the device, and what it has done so
far. Arrays that callers own are worked on as copies, so that a failing call leaves them alone.
-/

namespace ArrayOffload

structure Call where
  machine : Machine
  /-- The host's copy of each array, or the shared memory that holds it. -/
  host : List Storage
  /-- The device's buffer of each array, once it has one. -/
  buffers : List (Option Nat)
  tracker : Tracker
  printed : List String := []
  launches : Nat := 0
  transfers : Nat := 0

/-- Work of a call. What was done before a stop stays done. -/
abbrev CallM := ExceptT (Stop OffloadError) (StateM Call)

namespace Call

/-- The host's elements of an array. -/
def cells? (call : Call) (id : ArrayId) : Option Cells :=
  match call.host[id]? with
  | none => none
  | some (.owned cells) => some cells
  | some (.shared handle) => call.machine.device.shared? handle

/-- Replace the host's elements of an array. -/
def withCells (call : Call) (id : ArrayId) (cells : Cells) : Call :=
  match call.host[id]? with
  | none => call
  | some (.owned _) => { call with host := call.host.set id (.owned cells) }
  | some (.shared handle) =>
    { call with
      machine := { call.machine with device := call.machine.device.withShared handle cells } }

/-- Give back the buffers of the call. -/
def close (call : Call) : Machine :=
  { call.machine with
    device := (call.buffers.filterMap id).foldl Device.release call.machine.device }

def record (event : Event) : CallM Unit :=
  modify fun call => { call with machine := call.machine.record event }

/-- Work on the machine. -/
def onMachine {α : Type} (work : MachineM α) : CallM α := do
  let call ← get
  let (result, machine) := work.run.run call.machine
  set { call with machine }
  MonadExcept.ofExcept result

def onDevice {α : Type} (work : DeviceM α) : CallM α := onMachine (MachineM.onDevice work)

/-- A result, or a fault if there is none. -/
def expect {α : Type} (found : Option α) : CallM α := MonadExcept.ofExcept (orFault found)

def load (id : ArrayId) : CallM Cells := do expect ((← get).cells? id)

/-- Replace all elements of an array by as many others. -/
def store (id : ArrayId) (cells : Cells) : CallM Unit := do
  let old ← load id
  if cells.size = old.size then modify (·.withCells id cells) else throw .fault

/-- Replace one element of an array. -/
def storeAt (id : ArrayId) (index : Nat) (value : Float) : CallM Unit := do
  let old ← load id
  if index < old.size then modify (·.withCells id (old.setIfInBounds index value))
  else throw .fault

def track (f : Tracker → Tracker) : CallM Unit :=
  modify fun call => { call with tracker := f call.tracker }

def checkReadable (location : Location) (id : ArrayId) : CallM Unit := do
  MonadExcept.ofExcept ((← get).tracker.checkReadable id location)

/-- Zeros on the host. -/
def zeros (device : Device) (purpose : Purpose) (elem : Elem) (length : Nat) :
    Except (Stop OffloadError) Cells :=
  (device.zeroed purpose elem length).mapError (Stop.map .device)

/-- The buffer of an array, allocated on first use. -/
def bufferOf (id : ArrayId) (elem : Elem) (length : Nat) : CallM Nat := do
  match ← expect (← get).buffers[id]? with
  | some handle => return handle
  | none =>
    let handle ← onDevice (Device.alloc elem length)
    modify fun call => { call with buffers := call.buffers.set id (some handle) }
    return handle

end Call

end ArrayOffload
