import ArrayOffload.Func.Basic

/-!
# Data-parallel regions

A function body falls into segments: regions of data-parallel operations, and single host-only
operations. Consecutive maps over one iteration space share a region; a reduction or a scan
stands alone.

* `Func.partition?`: the segments of a body, in order;
* `Region.reads`, `Region.writes`, `Region.access?`: how a region uses arrays.
-/

namespace ArrayOffload

inductive ParallelKind where
  | map | reduce | scan
deriving DecidableEq, Repr

namespace ParallelKind

def name : ParallelKind → String
  | map => "map"
  | reduce => "reduce"
  | scan => "scan"

/-- Whether kernels can express this kind. -/
def hasKernel : ParallelKind → Bool
  | map | reduce => true
  | scan => false

/-- Whether this kind needs a region of its own. -/
def isolated : ParallelKind → Bool
  | map => false
  | reduce | scan => true

end ParallelKind

/-- The kind of a data-parallel operation; host-only operations have none. -/
def Op.parallelKind? : Op → Option ParallelKind
  | map .. => some .map
  | reduce .. => some .reduce
  | scan .. => some .scan
  | store .. | print _ | call .. => none

/-- The array whose shape an operation iterates over. -/
def Op.extent? : Op → Option ArrayId
  | map out _ _ => some out
  | reduce _ _ input | scan _ _ input => some input
  | store .. | print _ | call .. => none

inductive Access where
  | read | write | readWrite
deriving DecidableEq, Repr

namespace Access

def reads : Access → Bool
  | read | readWrite => true
  | write => false

def writes : Access → Bool
  | write | readWrite => true
  | read => false

def merge (a b : Access) : Access := if a = b then a else readWrite

end Access

/-- An array and how it is used. -/
structure ArrayUse where
  array : ArrayId
  access : Access
deriving DecidableEq, Repr

/-- Add a use, merged with an earlier use of the same array. -/
def addUse (uses : List ArrayUse) (use : ArrayUse) : List ArrayUse :=
  if uses.any fun other => other.array = use.array then
    uses.map fun other =>
      if other.array = use.array then ⟨other.array, other.access.merge use.access⟩ else other
  else uses ++ [use]

/-- The uses of one operation, reads first. -/
def Op.uses (op : Op) : List ArrayUse :=
  (op.reads.map (ArrayUse.mk · .read) ++ op.writes.map (ArrayUse.mk · .write)).foldl addUse []

/-- What a region iterates over: the shape of `extentOf`. -/
structure IterationSpace where
  rank : Nat
  extentOf : ArrayId
  root : ShapeRoot
deriving DecidableEq, Repr

structure Region where
  index : Nat
  /-- The operations from `first` up to, not including, `stop`. -/
  first : Nat
  stop : Nat
  kinds : List ParallelKind
  /-- In order of first use. -/
  uses : List ArrayUse
  space : IterationSpace
  /-- Whether a host-only operation stands right before it. -/
  afterBarrier : Bool
deriving DecidableEq, Repr

namespace Region

def reads (region : Region) : List ArrayId :=
  (region.uses.filter (·.access.reads)).map (·.array)

def writes (region : Region) : List ArrayId :=
  (region.uses.filter (·.access.writes)).map (·.array)

def touches (region : Region) (id : ArrayId) : Bool := region.uses.any (·.array = id)

def access? (region : Region) (id : ArrayId) : Option Access :=
  (region.uses.find? (·.array = id)).map (·.access)

/-- The first kind that kernels cannot express. -/
def kernelless? (region : Region) : Option ParallelKind := region.kinds.find? (!·.hasKernel)

/-- The operations of the region. -/
def ops (region : Region) (f : Func) : List Op :=
  (f.body.take region.stop).drop region.first

/-- Whether an operation of this kind and space may join. -/
def admits (region : Region) (kind : ParallelKind) (space : IterationSpace) : Bool :=
  !kind.isolated && !region.kinds.any (·.isolated) && region.space.root = space.root

/-- The region with one more operation. -/
def extend (region : Region) (kind : ParallelKind) (op : Op) : Region :=
  { region with
    stop := region.stop + 1
    kinds := region.kinds ++ [kind]
    uses := op.uses.foldl addUse region.uses }

end Region

inductive Segment where
  | region (index : Nat)
  | hostOp (index : Nat)
deriving DecidableEq, Repr

/-- A body in segments; `Segment.region i` is the region at position `i`. -/
structure Partition where
  regions : List Region
  segments : List Segment
deriving DecidableEq, Repr

namespace Partition

/-- A body read up to some operation: finished segments, the region still open, and whether
the last operation was host-only. -/
structure Progress where
  done : Partition
  open? : Option Region
  barrier : Bool

/-- Finish the open region. -/
def Progress.close (p : Progress) : Partition :=
  match p.open? with
  | none => p.done
  | some region =>
    ⟨p.done.regions ++ [region], p.done.segments ++ [.region region.index]⟩

end Partition

namespace Func

/-- The iteration space of a data-parallel operation. -/
def spaceOf? (f : Func) (op : Op) : Option IterationSpace := do
  let extent ← op.extent?
  some ⟨(← f.decl? extent).rank, extent, ← f.shapeRoot? extent⟩

/-- Add the operation at position `index`. -/
def partitionStep? (f : Func) (p : Partition.Progress) (index : Nat) (op : Op) :
    Option Partition.Progress :=
  match op.parallelKind? with
  | none =>
    let closed := p.close
    some ⟨⟨closed.regions, closed.segments ++ [.hostOp index]⟩, none, true⟩
  | some kind => do
    let space ← f.spaceOf? op
    match p.open?.filter fun region => region.admits kind space with
    | some region => some { p with open? := some (region.extend kind op) }
    | none =>
      let closed := p.close
      let fresh : Region := ⟨closed.regions.length, index, index, [], [], space, p.barrier⟩
      some ⟨closed, some (fresh.extend kind op), false⟩

def partitionFrom? (f : Func) :
    Partition.Progress → Nat → List Op → Option Partition.Progress
  | p, _, [] => some p
  | p, index, op :: rest => do
    f.partitionFrom? (← f.partitionStep? p index op) (index + 1) rest

/-- The segments of the body. There are none if an iteration space is not declared. -/
def partition? (f : Func) : Option Partition :=
  (f.partitionFrom? ⟨⟨[], []⟩, none, false⟩ 0 f.body).map Partition.Progress.close

end Func

end ArrayOffload
