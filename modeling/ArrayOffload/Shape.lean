/-!
# Shapes

A shape lists the extents of an array. A shape is addressable when every running product of
its extents is a machine word and the elements, eight bytes each, fit in the address space.
-/

namespace ArrayOffload

abbrev Shape := List Nat

namespace Shape

/-- One past the largest machine word. -/
def wordLimit : Nat := 0x10000000000000000

/-- The most bytes one allocation may have. -/
def byteLimit : Nat := 0x7fffffffffffffff

/-- Allocations of this many bytes are always refused. -/
def memoryLimit : Nat := 0x800000000000

/-- The number of elements. -/
def size (shape : Shape) : Nat := shape.foldl (· * ·) 1

/-- The product of the extents, while every running product stays a machine word. -/
def product? : Nat → Shape → Option Nat
  | total, [] => some total
  | total, extent :: rest =>
    if total * extent < wordLimit then product? (total * extent) rest else none

/-- The number of elements of an addressable shape. -/
def count? (shape : Shape) : Option Nat :=
  (product? 1 shape).filter fun total => total * 8 ≤ byteLimit

end Shape

end ArrayOffload
