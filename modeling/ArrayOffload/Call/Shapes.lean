import ArrayOffload.Call.HostFn
import ArrayOffload.Signature

/-!
# Shapes of a call

The shape of every array of a function under given arguments. Before anything runs, all
operations are checked against these shapes and all callees are looked up.
-/

namespace ArrayOffload.Shapes

/-- The shape of a declaration, given the shapes of those before it. -/
def ofDecl (f : Func) (args : List ArrayValue) (shapes : List Shape) (decl : ArrayDecl) :
    Except (Stop OffloadError) Shape := do
  let shape ← match decl.shape, decl.role with
    | .param, .param position => orFault (args[position]?.map (·.shape))
    | .like source, _ => orFault shapes[source]?
    | .fixed dims, _ => .ok dims
    | .param, .scratch => .error (.error (.arguments f.name (.noShapeSource decl.name)))
  if shape.count?.isSome then return shape
  else throw (.error (.arguments f.name (.tooLarge decl.name shape)))

def ofDecls (f : Func) (args : List ArrayValue) :
    List Shape → List ArrayDecl → Except (Stop OffloadError) (List Shape)
  | shapes, [] => .ok shapes
  | shapes, decl :: rest => do
    let shape ← ofDecl f args shapes decl
    ofDecls f args (shapes ++ [shape]) rest

/-- Every array operand of a map has the shape of its target. -/
def checkOperands (f : Func) (shapes : List Shape) (out : ArrayId) :
    List ArrayId → Except (Stop OffloadError) Unit
  | [] => .ok ()
  | id :: rest => do
    let shape ← orFault shapes[id]?
    let target ← orFault shapes[out]?
    if shape = target then checkOperands f shapes out rest
    else
      let name ← orFault (f.nameOf? id)
      let targetName ← orFault (f.nameOf? out)
      throw (.error (.arguments f.name (.mapShape name shape targetName target)))

def checkOp (f : Func) (shapes : List Shape) (table : HostTable) :
    Op → Except (Stop OffloadError) Unit
  | .map out _ args => checkOperands f shapes out (args.filterMap Operand.array?)
  | .scan out _ input => do
    let target ← orFault shapes[out]?
    let shape ← orFault shapes[input]?
    if target = shape then return ()
    else
      let targetName ← orFault (f.nameOf? out)
      let name ← orFault (f.nameOf? input)
      throw (.error (.arguments f.name (.scanShape targetName target name shape)))
  | .store array index _ => do
    let shape ← orFault shapes[array]?
    if index < shape.size then return ()
    else
      let name ← orFault (f.nameOf? array)
      throw (.error (.arguments f.name (.storeIndex name index shape.size)))
  | .call callee _ _ =>
    if (table.find? callee).isSome then .ok () else .error (.error (.unresolvedCall callee))
  | .reduce .. | .print _ => .ok ()

/-- The shapes of all arrays, with every operation checked. -/
def resolve (f : Func) (args : List ArrayValue) (table : HostTable) :
    Except (Stop OffloadError) (List Shape) := do
  let shapes ← ofDecls f args [] f.arrays
  f.body.forM (checkOp f shapes table)
  return shapes

end ArrayOffload.Shapes
