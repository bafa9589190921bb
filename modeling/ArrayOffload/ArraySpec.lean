import ArrayOffload.Device.Memory

/-!
# Descriptions of arrays

What a caller says about an array before it exists: values and shape, each optional, and whether
its memory is shared with the device.
-/

namespace ArrayOffload

structure ArraySpec where
  elem : Elem
  shape : Option Shape := none
  values : Option Cells := none
  shared : Bool := false
deriving BEq, Repr

/-- Make the array. Without values it is zero; without a shape it has one dimension. -/
def ArraySpec.build (profile : Profile) (spec : ArraySpec) : DeviceM ArrayValue :=
  match spec.values with
  | none => MonadExcept.ofExcept (orFault (ArrayValue.zeros? spec.elem (spec.shape.getD [])))
  | some values =>
    if spec.shared then
      ArrayValue.share profile spec.elem (spec.shape.getD [values.size]) values
    else
      match spec.shape with
      | none => return ArrayValue.vector spec.elem values
      | some shape => MonadExcept.ofExcept (orFault (ArrayValue.ofCells? spec.elem shape values))

end ArrayOffload
