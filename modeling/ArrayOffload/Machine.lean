import ArrayOffload.Device.Launch
import ArrayOffload.Device.Memory
import ArrayOffload.Event

/-!
# The machine

All that a call can change outside its own arguments: the device, the log and the lines that
host functions write to the error channel.
-/

namespace ArrayOffload

structure Machine where
  device : Device := {}
  journal : List Event := []
  notes : List String := []
deriving Repr

def Machine.record (machine : Machine) (event : Event) : Machine :=
  { machine with journal := machine.journal ++ [event] }

/-- Work on a machine. What was done before a stop stays done. -/
abbrev MachineM := ExceptT (Stop OffloadError) (StateM Machine)

namespace MachineM

def record (event : Event) : MachineM Unit := modify (·.record event)

/-- Work of the device alone; its errors are reported as failed dispatches. -/
def onDevice {α : Type} (work : DeviceM α) : MachineM α := do
  let machine ← get
  let (result, device) := work.run.run machine.device
  set { machine with device }
  MonadExcept.ofExcept (result.mapError (Stop.map OffloadError.device))

end MachineM

end ArrayOffload
