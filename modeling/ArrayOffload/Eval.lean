import ArrayOffload.Func.Basic

/-!
# Evaluation of data-parallel operations

The one meaning of maps, reductions and scans, used on the host and on the device. Folds go
from left to right. A map needs an element of each operand at every index, and room for its
values in the address space; with a missing operand or element there is no result.
-/

namespace ArrayOffload

namespace Number

/-- The smaller number; a NaN yields to the other operand. -/
def least (a b : Float) : Float :=
  if isNaN a then b else if isNaN b then a else if a ≤ b then a else b

/-- The larger number; a NaN yields to the other operand. -/
def greatest (a b : Float) : Float :=
  if isNaN a then b else if isNaN b then a else if a ≤ b then b else a

def zero : Float := ofCode false 0

end Number

/-- The value of a map; operations of one operand ignore the second. -/
def MapOp.apply : MapOp → Float → Float → Float
  | copy, a, _ => a
  | neg, a, _ => -a
  | abs, a, _ => a.abs
  | sqrt, a, _ => a.sqrt
  | exp, a, _ => a.exp
  | add, a, b => a + b
  | sub, a, b => a - b
  | mul, a, b => a * b
  | div, a, b => a / b
  | min, a, b => Number.least a b
  | max, a, b => Number.greatest a b

namespace FoldOp

def identity : FoldOp → Float
  | sum => Number.zero
  | product => Number.ofInt 1
  | min => Number.ofCode false Number.binary64.infinity
  | max => Number.ofCode true Number.binary64.infinity

def combine : FoldOp → Float → Float → Float
  | sum, a, b => a + b
  | product, a, b => a * b
  | min, a, b => Number.least a b
  | max, a, b => Number.greatest a b

end FoldOp

namespace Eval

/-- What a map reads: an array's elements or one value for all. -/
inductive Input where
  | cells (values : Cells)
  | scalar (value : Float)

namespace Input

def read (input : Input) (index : Nat) : Float :=
  match input with
  | cells values => values.getD index Number.zero
  | scalar value => value

/-- Whether the input has elements up to `length`. -/
def covers (length : Nat) : Input → Bool
  | cells values => length ≤ values.size
  | scalar _ => true

end Input

/-- The element of the `position`-th input. -/
def operandAt (inputs : List Input) (position index : Nat) : Float :=
  (inputs[position]?.map (·.read index)).getD Number.zero

/-- Whether the values of a map over `length` elements can be addressed, and the map finds every
value it reads. -/
def mapDefined (op : MapOp) (inputs : List Input) (length : Nat) : Bool :=
  length * 8 ≤ Shape.byteLimit &&
    (length = 0 ||
      (op.arity ≤ inputs.length && inputs.length ≤ 2 && inputs.all (Input.covers length)))

/-- The elements of a map over `length` indices. -/
def mapCells (op : MapOp) (elem : Elem) (inputs : List Input) (length : Nat) : Cells :=
  Array.ofFn fun index : Fin length =>
    elem.coerce (op.apply (operandAt inputs 0 index) (operandAt inputs 1 index))

def map? (op : MapOp) (elem : Elem) (inputs : List Input) (length : Nat) : Option Cells :=
  if mapDefined op inputs length then some (mapCells op elem inputs length) else none

/-- The fold of all values, coerced once at the end. -/
def reduce (op : FoldOp) (elem : Elem) (values : Cells) : Float :=
  elem.coerce (values.foldl op.combine op.identity)

/-- The folds up to each value, coerced at every step. -/
def scan (op : FoldOp) (elem : Elem) (values : Cells) : Cells :=
  (values.foldl
    (fun (state : Float × Cells) x =>
      let next := elem.coerce (op.combine state.1 x)
      (next, state.2.push next))
    (op.identity, #[])).2

end Eval

end ArrayOffload
