import ArrayOffload.Elem
import ArrayOffload.Scalar
import ArrayOffload.Shape

/-!
# Array functions

A function declares arrays and lists operations over them. Maps, reductions and scans are
data-parallel; element stores, prints and calls run on the host only. Arrays are referred to
by their position in the declaration list.

* `Op.reads`, `Op.writes`: the arrays an operation uses, each once;
* `Func.shapeRoot?`: where an array's shape comes from in the end;
* `Func.escapes`: what a caller can observe.
-/

namespace ArrayOffload

abbrev ArrayId := Nat

/-- Where an array's shape comes from when the function is called. -/
inductive ShapeSource where
  | param
  | like (source : ArrayId)
  | fixed (dims : Shape)
deriving DecidableEq, Repr

inductive Role where
  | param (position : Nat)
  | scratch
deriving DecidableEq, Repr

structure ArrayDecl where
  name : String
  elem : Elem
  rank : Nat
  shape : ShapeSource
  role : Role
deriving DecidableEq, Repr

/-- What determines an array's shape; arrays with equal roots have equal shapes. -/
inductive ShapeRoot where
  | param (id : ArrayId)
  | fixed (dims : Shape)
deriving DecidableEq, Repr

/-- One operand of a map: an array, or a constant for every element. -/
inductive Operand where
  | array (id : ArrayId)
  | scalar (constant : Scalar)
deriving DecidableEq, Repr

def Operand.array? : Operand → Option ArrayId
  | array id => some id
  | scalar _ => none

/-- Elementwise operations. -/
inductive MapOp where
  | copy | neg | abs | sqrt | exp | add | sub | mul | div | min | max
deriving DecidableEq, Repr

namespace MapOp

def all : List MapOp := [copy, neg, abs, sqrt, exp, add, sub, mul, div, min, max]

def name : MapOp → String
  | copy => "copy"
  | neg => "neg"
  | abs => "abs"
  | sqrt => "sqrt"
  | exp => "exp"
  | add => "add"
  | sub => "sub"
  | mul => "mul"
  | div => "div"
  | min => "min"
  | max => "max"

def ofName? (text : String) : Option MapOp := all.find? fun op => op.name = text

def arity : MapOp → Nat
  | copy | neg | abs | sqrt | exp => 1
  | add | sub | mul | div | min | max => 2

end MapOp

/-- Combining operations of reductions and scans. -/
inductive FoldOp where
  | sum | product | min | max
deriving DecidableEq, Repr

namespace FoldOp

def all : List FoldOp := [sum, product, min, max]

def name : FoldOp → String
  | sum => "sum"
  | product => "product"
  | min => "min"
  | max => "max"

def ofName? (text : String) : Option FoldOp := all.find? fun op => op.name = text

end FoldOp

inductive Op where
  /-- Every element of `out` becomes `op` of the operands' elements. -/
  | map (out : ArrayId) (op : MapOp) (args : List Operand)
  /-- The first element of `out` becomes the fold of `input`. -/
  | reduce (out : ArrayId) (op : FoldOp) (input : ArrayId)
  /-- Every element of `out` becomes the fold of `input` up to it. -/
  | scan (out : ArrayId) (op : FoldOp) (input : ArrayId)
  /-- One element is replaced. -/
  | store (array : ArrayId) (index : Nat) (constant : Scalar)
  | print (arrays : List ArrayId)
  /-- A host function reads and writes whole arrays. -/
  | call (callee : String) (reads writes : List ArrayId)
deriving DecidableEq, Repr

/-- A list without repetitions, first occurrences kept in order. -/
def distinct (ids : List ArrayId) : List ArrayId :=
  ids.foldl (fun seen id => if id ∈ seen then seen else seen ++ [id]) []

namespace Op

/-- The word for an operation in messages. -/
def word : Op → String
  | map _ op _ => op.name
  | reduce .. => "reduce"
  | scan .. => "scan"
  | store .. => "store"
  | print _ => "print"
  | call .. => "call"

/-- The arrays an operation reads, in operand order. A store keeps the other elements, so it
reads its array. -/
def reads : Op → List ArrayId
  | map _ _ args => distinct (args.filterMap Operand.array?)
  | reduce _ _ input | scan _ _ input => [input]
  | store array _ _ => [array]
  | print arrays => distinct arrays
  | call _ reads _ => distinct reads

/-- The arrays an operation writes. -/
def writes : Op → List ArrayId
  | map out _ _ | reduce out _ _ | scan out _ _ => [out]
  | store array _ _ => [array]
  | print _ => []
  | call _ _ writes => distinct writes

def touches (op : Op) (id : ArrayId) : Bool := id ∈ op.reads || id ∈ op.writes

end Op

structure Func where
  name : String
  arrays : List ArrayDecl
  params : List ArrayId
  body : List Op
  returns : Option ArrayId
  /-- The function must never run on a device. -/
  serialOnly : Bool
deriving DecidableEq, Repr

namespace Func

def decl? (f : Func) (id : ArrayId) : Option ArrayDecl := f.arrays[id]?

def nameOf? (f : Func) (id : ArrayId) : Option String := (f.decl? id).map (·.name)

/-- The first array of that name. -/
def lookup? (f : Func) (name : String) : Option ArrayId :=
  f.arrays.findIdx? fun decl => decl.name = name

/-- Parameters and the returned array. -/
def escapes (f : Func) (id : ArrayId) (decl : ArrayDecl) : Bool :=
  decl.role ≠ .scratch || f.returns = some id

/-- Follow shape sources for at most `fuel` arrays. -/
def rootWithin (f : Func) : Nat → ArrayId → Option ShapeRoot
  | 0, _ => none
  | fuel + 1, id =>
    match f.decl? id with
    | none => none
    | some decl =>
      match decl.shape with
      | .param => some (.param id)
      | .fixed dims => some (.fixed dims)
      | .like source => f.rootWithin fuel source

/-- The root of an array's shape. A chain of sources without repetition is no longer than the
declaration list. -/
def shapeRoot? (f : Func) (id : ArrayId) : Option ShapeRoot :=
  f.rootWithin f.arrays.length id

end Func

end ArrayOffload
