import ArrayOffload.ArrayValue
import ArrayOffload.Device.Basic

/-!
# Device memory

Allocation, transfers and release. Elements are coerced to the buffer's type on their way in. No
allocation is sure to succeed: what has been given out before decides whether memory is left.
-/

namespace ArrayOffload

/-- What an allocator says that has no memory to give. -/
def exhausted : String :=
  "memory allocation failed because the memory allocator returned an error"

/-- Why memory for `length` elements can never be had; eight bytes each. -/
def refusal? (length : Nat) : Option String :=
  if Shape.byteLimit < 8 * length then
    some "memory allocation failed because the computed capacity exceeded the collection's maximum"
  else if Shape.memoryLimit ≤ 8 * length then some exhausted
  else none

/-- Why memory is refused: there never is as much, or none is left for this request. -/
def Demand.refusal? (scarce : List Demand) (demand : Demand) : Option String :=
  (ArrayOffload.refusal? demand.length).or (if demand ∈ scarce then some exhausted else none)

namespace Device

/-- Zeros, or why there are none. The host's memory and the device's are one. -/
def zeroed (device : Device) (purpose : Purpose) (elem : Elem) (length : Nat) :
    Except (Stop DeviceError) Cells :=
  match Demand.refusal? device.scarce ⟨purpose, device.lastHandle, length⟩ with
  | some reason => .error (.error (.allocationFailed elem length reason))
  | none => .ok (Array.replicate length (Number.ofCode false 0))

def countAllocation : DeviceM Unit :=
  count fun c => { c with allocations := c.allocations + 1 }

/-- A buffer of zeros. -/
def alloc (elem : Elem) (length : Nat) : DeviceM Nat := do
  let cells ← MonadExcept.ofExcept ((← get).zeroed .buffer elem length)
  countAllocation
  let handle ← freshHandle
  modify fun device => { device with buffers := device.buffers.set handle (.owned elem cells) }
  return handle

/-- A buffer of zeros that the host can use too. -/
def allocShared (profile : Profile) (elem : Elem) (length : Nat) : DeviceM Nat := do
  if profile.sharedMemory then
    let cells ← MonadExcept.ofExcept ((← get).zeroed .buffer elem length)
    countAllocation
    let handle ← freshHandle
    modify fun device =>
      { device with
        buffers := device.buffers.set handle (.shared elem)
        pool := device.pool.set handle cells }
    return handle
  else fail (.unsupported "shared allocations")

/-- A live buffer whose length is that of the host's data. -/
def transferTarget (handle length : Nat) : DeviceM (Buffer × Cells) := do
  let device ← get
  match device.buffers.get? handle, device.cells? handle with
  | some buffer, some cells =>
    if cells.size = length then return (buffer, cells)
    else
      fail (.transferFailed
        s!"{bufferText handle} holds {cells.size} elements, host has {length}")
  | _, _ => fail (.invalidHandle handle)

/-- Copy the host's elements into a buffer. -/
def copyIn (handle : Nat) (values : Cells) : DeviceM Unit := do
  let (buffer, _) ← transferTarget handle values.size
  modify (·.withCells handle (values.map buffer.elem.coerce))
  count fun c => { c with copyIns := c.copyIns + 1 }

/-- The elements of a buffer, `length` of them. -/
def copyOut (handle length : Nat) : DeviceM Cells := do
  let (_, cells) ← transferTarget handle length
  count fun c => { c with copyOuts := c.copyOuts + 1 }
  return cells

/-- Give a buffer back. Shared memory stays readable; an unknown handle changes nothing. -/
def release (device : Device) (handle : Nat) : Device :=
  if device.buffers.contains handle then
    { device with
      buffers := device.buffers.erase handle
      counters := { device.counters with releases := device.counters.releases + 1 } }
  else device

/-- Shared memory as the host sees it. -/
def shared? (device : Device) (handle : Nat) : Option Cells := device.pool.get? handle

/-- Write shared memory from the host. -/
def withShared (device : Device) (handle : Nat) (cells : Cells) : Device :=
  { device with pool := device.pool.set handle cells }

end Device

/-- An array in memory shared with the device. -/
def ArrayValue.share (profile : Profile) (elem : Elem) (shape : Shape) (values : Cells) :
    DeviceM ArrayValue := do
  match shape.count? with
  | none =>
    Device.fail (.allocationFailed elem (Shape.wordLimit - 1)
      s!"shape {Text.dims shape} is too large to address")
  | some length =>
    if values.size = length then
      let handle ← Device.allocShared profile elem length
      modify (·.withShared handle (values.map elem.coerce))
      return ⟨elem, shape, .shared handle⟩
    else
      Device.fail (.allocationFailed elem length
        s!"{values.size} initial values for {length} elements")

/-- The elements of an array, shared memory read on the device. -/
def ArrayValue.cells (device : Device) (a : ArrayValue) : Cells :=
  match a.storage with
  | .owned cells => cells
  | .shared handle => (device.shared? handle).getD #[]

end ArrayOffload
