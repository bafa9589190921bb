import ArrayOffload.Error
import ArrayOffload.Func.Printer
import ArrayOffload.Region
import ArrayOffload.Stop

/-!
# Kernels

A kernel is a region detached from its function: arrays become numbered slots, bound to
buffers when the kernel is launched. Slot `i` is the region's `i`-th array.

* `Kernel.ofRegion`: the kernel of a region and the array behind each slot;
* `Kernel.text`: its printed form.
-/

namespace ArrayOffload

structure KernelParam where
  slot : Nat
  elem : Elem
  access : Access
deriving DecidableEq, Repr

inductive KernelOperand where
  | slot (index : Nat)
  | scalar (constant : Scalar)
deriving DecidableEq, Repr

inductive KernelOp where
  | map (out : Nat) (op : MapOp) (args : List KernelOperand)
  | reduce (out : Nat) (op : FoldOp) (input : Nat)
deriving DecidableEq, Repr

structure Kernel where
  name : String
  region : Nat
  rank : Nat
  params : List KernelParam
  body : List KernelOp
deriving DecidableEq, Repr

namespace Kernel

/-- The slot of an array. -/
def slotIn (bindings : List ArrayId) (id : ArrayId) : Nat := (bindings.idxOf? id).getD 0

def operandIn (bindings : List ArrayId) : Operand → KernelOperand
  | .array id => .slot (slotIn bindings id)
  | .scalar constant => .scalar constant

/-- An operation over slots; only maps and reductions have one. -/
def opIn? (bindings : List ArrayId) : Op → Option KernelOp
  | .map out op args => some (.map (slotIn bindings out) op (args.map (operandIn bindings)))
  | .reduce out op input => some (.reduce (slotIn bindings out) op (slotIn bindings input))
  | _ => none

/-- The operations of a kernel, or the first one that has no kernel form. -/
def bodyIn (f : Func) (region : Nat) (bindings : List ArrayId) :
    List Op → Except (Stop RegionError) (List KernelOp)
  | [] => .ok []
  | op :: rest => do
    match opIn? bindings op with
    | some kernelOp => return kernelOp :: (← bodyIn f region bindings rest)
    | none =>
      let text ← orFault (f.opText? op)
      throw (.error ⟨region, .noKernelForm text⟩)

def paramsOf? (f : Func) (uses : List ArrayUse) : Option (List KernelParam) :=
  uses.zipIdx.mapM fun (use, slot) =>
    (f.decl? use.array).map fun decl => ⟨slot, decl.elem, use.access⟩

/-- The kernel of a region, and the array bound to each slot. -/
def ofRegion (f : Func) (region : Region) :
    Except (Stop RegionError) (Kernel × List ArrayId) := do
  let bindings := region.uses.map (·.array)
  let params ← orFault (paramsOf? f region.uses)
  let body ← bodyIn f region.index bindings (region.ops f)
  return (⟨f.name ++ "_r" ++ toString region.index, region.index, region.space.rank, params, body⟩,
    bindings)

def reduces (kernel : Kernel) : Bool :=
  kernel.body.any fun
    | .reduce .. => true
    | .map .. => false

/-- Whether the kernel writes a slot. -/
def writesSlot (kernel : Kernel) (slot : Nat) : Bool :=
  kernel.params[slot]?.any (·.access.writes)

def operandText : KernelOperand → String
  | .slot index => "$" ++ toString index
  | .scalar constant => constant.text

def opLine : KernelOp → String
  | .map out op args =>
    "    $" ++ toString out ++ " = " ++ op.name ++ "(" ++
      Text.commaList (args.map operandText) ++ ")\n"
  | .reduce out op input =>
    "    $" ++ toString out ++ " = reduce " ++ op.name ++ "($" ++ toString input ++ ")\n"

def paramText (param : KernelParam) : String :=
  "$" ++ toString param.slot ++ ": " ++ param.elem.name

def text (kernel : Kernel) : String :=
  "kernel " ++ kernel.name ++ "[rank " ++ toString kernel.rank ++ "](" ++
    Text.commaList (kernel.params.map paramText) ++ ") \x7b\n" ++
    String.join (kernel.body.map opLine) ++ "\x7d"

end Kernel

end ArrayOffload
