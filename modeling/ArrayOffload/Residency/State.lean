/-!
# Residency states

Which copies of an array are current. Arrays in shared memory have one copy, valid everywhere.
-/

namespace ArrayOffload

inductive Location where
  | host | device
deriving DecidableEq, Repr

def Location.name : Location → String
  | host => "host"
  | device => "device"

inductive Residency where
  | hostValid | deviceValid | bothValid | sharedAlwaysValid
deriving DecidableEq, Repr

namespace Residency

def name : Residency → String
  | hostValid => "HostValid"
  | deviceValid => "DeviceValid"
  | bothValid => "BothValid"
  | sharedAlwaysValid => "SharedAlwaysValid"

/-- Whether the copy at a location is current. -/
def validOn : Residency → Location → Bool
  | bothValid, _ | sharedAlwaysValid, _ => true
  | hostValid, .host => true
  | deviceValid, .device => true
  | _, _ => false

end Residency

end ArrayOffload
