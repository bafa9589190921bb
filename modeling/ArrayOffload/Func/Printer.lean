import ArrayOffload.Func.Basic

/-!
# The text of a function

One line per declaration and operation. The text exists when every array that is mentioned is
declared.
-/

namespace ArrayOffload.Func

/-- The names of some arrays, with commas between them. -/
def nameList? (f : Func) (ids : List ArrayId) : Option String :=
  (ids.mapM f.nameOf?).map Text.commaList

def operandText? (f : Func) : Operand → Option String
  | .array id => f.nameOf? id
  | .scalar constant => some constant.text

/-- One operation. -/
def opText? (f : Func) : Op → Option String
  | .map out op args => do
    let out ← f.nameOf? out
    let args ← args.mapM f.operandText?
    some (out ++ " = " ++ op.name ++ "(" ++ Text.commaList args ++ ")")
  | .reduce out op input => do
    some ((← f.nameOf? out) ++ " = reduce " ++ op.name ++ "(" ++ (← f.nameOf? input) ++ ")")
  | .scan out op input => do
    some ((← f.nameOf? out) ++ " = scan " ++ op.name ++ "(" ++ (← f.nameOf? input) ++ ")")
  | .store array index constant => do
    some ((← f.nameOf? array) ++ "[" ++ toString index ++ "] = " ++ constant.text)
  | .print arrays => do
    some ("print(" ++ (← f.nameList? arrays) ++ ")")
  | .call callee reads writes => do
    let head := "call " ++ callee ++ "(" ++ (← f.nameList? reads) ++ ")"
    if writes.isEmpty then some head
    else some (head ++ " -> (" ++ (← f.nameList? writes) ++ ")")

/-- One parameter, an underscore for each dimension. -/
def paramText (decl : ArrayDecl) : String :=
  decl.name ++ ": " ++ decl.elem.name ++ Text.bracketed (List.replicate decl.rank "_")

/-- The line of a local array; an array that takes its shape from an argument has none. -/
def localLine? (f : Func) (decl : ArrayDecl) : Option String :=
  let head := "    let " ++ decl.name ++ ": " ++ decl.elem.name
  match decl.shape with
  | .like source => (f.nameOf? source).map fun name => head ++ " like " ++ name ++ "\n"
  | .fixed dims => some (head ++ Text.dims dims ++ "\n")
  | .param => some ""

def opLine? (f : Func) (op : Op) : Option String :=
  (f.opText? op).map fun text => "    " ++ text ++ "\n"

/-- The whole function. -/
def text? (f : Func) : Option String := do
  let params ← f.params.mapM f.decl?
  let arrow ← match f.returns with
    | none => some ""
    | some id => (f.nameOf? id).map (" -> " ++ ·)
  let locals ← (f.arrays.filter fun decl => decl.role = .scratch).mapM f.localLine?
  let ops ← f.body.mapM f.opLine?
  some ((if f.serialOnly then "#[serial]\n" else "") ++
    "fn " ++ f.name ++ "(" ++ Text.commaList (params.map paramText) ++ ")" ++ arrow ++ " \x7b\n" ++
    String.join locals ++ String.join ops ++ "\x7d")

end ArrayOffload.Func
