import ArrayOffload.Kernel.Basic

/-!
# Shader text

A kernel as a WGSL compute shader. Slot `i` is the storage binding `i`, writable exactly when
the kernel writes it; one more binding holds the extents. Each invocation handles one flat
index. Arithmetic is in `f32` and converted on the way into a slot. A reduction runs in the
first invocation only, so its order is fixed.
-/

namespace ArrayOffload.Shader

/-- Invocations per workgroup. -/
def workgroupSize : Nat := 64

/-- The most dimensions the extents can describe. -/
def maxRank : Nat := 3

/-- Names a caller may give for this form of source. -/
def targets : List String := ["wgsl", "wgpu", "webgpu"]

def targetName : String := "wgsl"

/-- The type of a storage slot. -/
def storageType? : Elem → Option String
  | .f32 => some "f32"
  | .i32 => some "i32"
  | .f64 | .i64 => none

def call2 (function a b : String) : String := function ++ "(" ++ a ++ ", " ++ b ++ ")"

def between (sign a b : String) : String := "(" ++ a ++ " " ++ sign ++ " " ++ b ++ ")"

/-- A map applied to operand expressions. -/
def mapExpr? : MapOp → List String → Option String
  | .copy, a :: _ => some a
  | .neg, a :: _ => some ("-(" ++ a ++ ")")
  | .abs, a :: _ => some ("abs(" ++ a ++ ")")
  | .sqrt, a :: _ => some ("sqrt(" ++ a ++ ")")
  | .exp, a :: _ => some ("exp(" ++ a ++ ")")
  | .add, a :: b :: _ => some (between "+" a b)
  | .sub, a :: b :: _ => some (between "-" a b)
  | .mul, a :: b :: _ => some (between "*" a b)
  | .div, a :: b :: _ => some (between "/" a b)
  | .min, a :: b :: _ => some (call2 "min" a b)
  | .max, a :: b :: _ => some (call2 "max" a b)
  | _, _ => none

def combineExpr (op : FoldOp) (acc x : String) : String :=
  match op with
  | .sum => acc ++ " + " ++ x
  | .product => acc ++ " * " ++ x
  | .min => call2 "min" acc x
  | .max => call2 "max" acc x

/-- The start of a fold. Infinities have no literal and are written by their bits. -/
def identityLiteral : FoldOp → String
  | .sum => "f32(0.0)"
  | .product => "f32(1.0)"
  | .min => "bitcast<f32>(0x7f800000u)"
  | .max => "bitcast<f32>(0xff800000u)"

def operandExpr (region : Nat) (op : MapOp) :
    KernelOperand → Except (Stop RegionError) String
  | .slot index => .ok ("f32(b" ++ toString index ++ "[i])")
  | .scalar constant =>
    if constant.isFinite then .ok ("f32(" ++ constant.text ++ ")")
    else .error (.error ⟨region, .shaderConstant constant.shortText op.name⟩)

/-- The statements of one operation. -/
def opText (region : Nat) (types : List String) :
    KernelOp → Except (Stop RegionError) String
  | .map out op args => do
    let operands ← args.mapM (operandExpr region op)
    let type ← orFault types[out]?
    let expr ← orFault (mapExpr? op operands)
    return "    b" ++ toString out ++ "[i] = " ++ type ++ "(" ++ expr ++ ");\n"
  | .reduce out op input => do
    let type ← orFault types[out]?
    let next := combineExpr op "acc" ("f32(b" ++ toString input ++ "[j])")
    return "    if (i == 0u) \x7b\n" ++
      "        var acc = " ++ identityLiteral op ++ ";\n" ++
      "        for (var j = 0u; j < n; j = j + 1u) \x7b\n" ++
      "            acc = " ++ next ++ ";\n" ++
      "        \x7d\n" ++
      "        b" ++ toString out ++ "[0] = " ++ type ++ "(acc);\n" ++
      "    \x7d\n"

def bindingLine (param : KernelParam) (type : String) : String :=
  let slot := toString param.slot
  let access := if param.access.writes then "read_write" else "read"
  "@group(0) @binding(" ++ slot ++ ") var<storage, " ++ access ++ "> b" ++ slot ++
    ": array<" ++ type ++ ">;\n"

/-- The guard against indices beyond the grid. A reduction writes its start value over an empty
grid, so one invocation always runs. -/
def guardText (kernel : Kernel) : String :=
  let limit := if kernel.reduces then "max(n, 1u)" else "n"
  "    if (i >= " ++ limit ++ ") \x7b\n        return;\n    \x7d\n"

def headText (kernel : Kernel) : String :=
  "\nstruct Extent \x7b\n    dims: vec4<u32>,\n\x7d\n\n" ++
    "@group(0) @binding(" ++ toString kernel.params.length ++
    ") var<uniform> extent: Extent;\n\n" ++
    "@compute @workgroup_size(" ++ toString workgroupSize ++ ", 1, 1)\n" ++
    "fn " ++ kernel.name ++ "(@builtin(global_invocation_id) gid: vec3<u32>, " ++
    "@builtin(num_workgroups) nwg: vec3<u32>) \x7b\n" ++
    "    let n = extent.dims.x * extent.dims.y * extent.dims.z;\n" ++
    "    let i = gid.x + gid.y * nwg.x * " ++ toString workgroupSize ++ "u;\n"

def paramType (region : Nat) (param : KernelParam) : Except (Stop RegionError) String :=
  match storageType? param.elem with
  | some type => .ok type
  | none => .error (.error ⟨region, .shaderElem param.elem⟩)

/-- The shader of a kernel, or why it has none. -/
def lower (kernel : Kernel) : Except (Stop RegionError) String := do
  if kernel.rank = 0 || maxRank < kernel.rank then
    throw (.error ⟨kernel.region, .shaderRank kernel.rank maxRank⟩)
  let types ← kernel.params.mapM (paramType kernel.region)
  let body ← kernel.body.mapM (opText kernel.region types)
  return "// kernel " ++ kernel.name ++ "\n" ++
    String.join (kernel.params.zipWith bindingLine types) ++ headText kernel ++
    guardText kernel ++ String.join body ++ "\x7d\n"

end ArrayOffload.Shader
