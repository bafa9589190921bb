import ArrayOffload.Elem
import ArrayOffload.Shape

/-!
# Arrays of callers

An array given to a call or returned by one. Its values are its own, or they are memory shared
with the device and known by its handle; copies of a shared array name the same memory.

* `ArrayValue.ofCells?`: an array from values, coerced to the element type;
* `ArrayValue.textOf`: the printed form.
-/

namespace ArrayOffload

/-- How an array's memory was allocated. -/
inductive Allocator where
  | copied | shared
deriving DecidableEq, Repr

def Allocator.name : Allocator → String
  | copied => "copied"
  | shared => "shared"

inductive Storage where
  | owned (cells : Cells)
  | shared (handle : Nat)
deriving BEq, Repr

structure ArrayValue where
  elem : Elem
  shape : Shape
  storage : Storage
deriving BEq, Repr

namespace ArrayValue

def rank (a : ArrayValue) : Nat := a.shape.length

def size (a : ArrayValue) : Nat := a.shape.size

def allocator (a : ArrayValue) : Allocator :=
  match a.storage with
  | .owned _ => .copied
  | .shared _ => .shared

/-- The handle of shared memory. -/
def handle? (a : ArrayValue) : Option Nat :=
  match a.storage with
  | .owned _ => none
  | .shared handle => some handle

/-- An array that owns its values; none unless there are as many as the shape asks for. -/
def ofCells? (elem : Elem) (shape : Shape) (cells : Cells) : Option ArrayValue :=
  if shape.size = cells.size then some ⟨elem, shape, .owned (cells.map elem.coerce)⟩ else none

/-- An array of one dimension. -/
def vector (elem : Elem) (cells : Cells) : ArrayValue :=
  ⟨elem, [cells.size], .owned (cells.map elem.coerce)⟩

/-- An array of zeros; none if memory cannot hold it. -/
def zeros? (elem : Elem) (shape : Shape) : Option ArrayValue :=
  if 8 * shape.size < Shape.memoryLimit then
    ofCells? elem shape (Array.replicate shape.size (Number.ofCode false 0))
  else none

/-- The same array with other values; shared memory is left alone. -/
def withCells (a : ArrayValue) (cells : Cells) : ArrayValue :=
  match a.storage with
  | .owned _ => { a with storage := .owned cells }
  | .shared _ => a

/-- Type, shape and values of an array whose values are known. -/
def textOf (elem : Elem) (shape : Shape) (cells : Cells) : String :=
  elem.name ++ Text.dims shape ++ " [" ++
    Text.commaList (cells.toList.map Number.plainText) ++ "]"

end ArrayValue

end ArrayOffload
