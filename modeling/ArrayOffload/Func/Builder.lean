import ArrayOffload.Func.Validate

/-!
# Building functions

A function grows from the empty one by declarations and operations. Each declaration returns
the new array's position. `build` accepts the result only if it is well formed.
-/

namespace ArrayOffload.Func

/-- A function with no arrays and no operations. -/
def empty (name : String) : Func := ⟨name, [], [], [], none, false⟩

def declare (f : Func) (decl : ArrayDecl) : ArrayId × Func :=
  (f.arrays.length, { f with arrays := f.arrays ++ [decl] })

def addParam (f : Func) (name : String) (elem : Elem) (rank : Nat) : ArrayId × Func :=
  let next := f.declare ⟨name, elem, rank, .param, .param f.params.length⟩
  (next.1, { next.2 with params := f.params ++ [next.1] })

/-- A local array with the shape of another; its rank is zero if that one is not declared. -/
def addLike (f : Func) (name : String) (elem : Elem) (source : ArrayId) : ArrayId × Func :=
  let rank := ((f.decl? source).map (·.rank)).getD 0
  f.declare ⟨name, elem, rank, .like source, .scratch⟩

def addFixed (f : Func) (name : String) (elem : Elem) (dims : Shape) : ArrayId × Func :=
  f.declare ⟨name, elem, dims.length, .fixed dims, .scratch⟩

def push (f : Func) (op : Op) : Func := { f with body := f.body ++ [op] }

def declaredNames (f : Func) : List String := f.arrays.map (·.name)

def build (f : Func) : Except OffloadError Func := f.validate.map fun _ => f

end ArrayOffload.Func
