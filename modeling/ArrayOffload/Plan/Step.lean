import ArrayOffload.Kernel.Basic

/-!
# Steps of a plan

A plan is a list of steps: transfers of single arrays, kernel launches, and work on the host.
-/

namespace ArrayOffload

inductive Step where
  | copyIn (array : ArrayId)
  | copyOut (array : ArrayId)
  /-- Launch the unit's kernel of this number. -/
  | launch (kernel : Nat)
  /-- Evaluate a region on the host. -/
  | hostRegion (region : Nat)
  /-- Carry out the operation at this position on the host. -/
  | hostOp (op : Nat)
deriving DecidableEq, Repr

inductive Direction where
  | toDevice | toHost
deriving DecidableEq, Repr

/-- A transfer and the number of its step. -/
structure Transfer where
  array : ArrayId
  direction : Direction
  step : Nat
deriving DecidableEq, Repr

/-- A kernel to launch: the array bound to each slot, and the array whose shape is the grid. -/
structure LaunchPlan where
  kernel : Kernel
  extentOf : ArrayId
  bindings : List ArrayId
deriving BEq, Repr

end ArrayOffload
