import ArrayOffload.Proofs.DeviceRun

/-!
# Work items

A launch runs a kernel operation by operation, each over the whole grid. The kernel's shader says it
the other way round: every index has a work item, which goes through the operations at its own
index, and nothing orders the statements of different items. A reduction is the work of the first
item.

A map touches nothing but its item's column, the elements at its index in all buffers. This is so
even if slots share a buffer. So a column depends on the statements of its own item only, and those
stand in the kernel's order in every schedule.

* `Arithmetic`: the operations on single values, which play no part in the argument;
* `Statement.run`, `Interleaving`: the statements of work items and their schedules;
* `Kernel.filter_item`: the statements of one item in a schedule;
* `Kernel.column_run`, `Kernel.column_runAll`: what a statement and a schedule do to a column.
-/

namespace ArrayOffload

/-! ## Arithmetic -/

/-- The operations on single values that kernels are made of. -/
structure Arithmetic where
  apply : MapOp → Float → Float → Float
  identity : FoldOp → Float
  combine : FoldOp → Float → Float → Float
  coerce : Elem → Float → Float

namespace Arithmetic

/-- The arithmetic that host and device have in common. -/
def standard : Arithmetic := ⟨MapOp.apply, FoldOp.identity, FoldOp.combine, Elem.coerce⟩

section
variable (arith : Arithmetic)

def mapCells (op : MapOp) (elem : Elem) (inputs : List Eval.Input) (length : Nat) : Cells :=
  Array.ofFn fun index : Fin length =>
    arith.coerce elem
      (arith.apply op (Eval.operandAt inputs 0 index) (Eval.operandAt inputs 1 index))

def reduce (op : FoldOp) (elem : Elem) (values : Cells) : Float :=
  arith.coerce elem (values.foldl (arith.combine op) (arith.identity op))

/-- One operation over a grid of `size` points. -/
def runOp (kernel : Kernel) (bindings : List Nat) (size : Nat) : KernelOp → DeviceM Unit
  | .map out op args => do
    let inputs ← args.mapM (Device.loadOperand kernel bindings size)
    let param ← MonadExcept.ofExcept (orFault kernel.params[out]?)
    if Eval.mapDefined op inputs size then
      let old ← Device.load kernel bindings out size
      Device.save bindings out old (arith.mapCells op param.elem inputs size)
    else throw .fault
  | .reduce out op input => do
    let values ← Device.load kernel bindings input size
    let old ← Device.load kernel bindings out 1
    let param ← MonadExcept.ofExcept (orFault kernel.params[out]?)
    Device.save bindings out old #[arith.reduce op param.elem (values.extract 0 size)]

/-- The run of a kernel, one operation after the other. -/
def run (kernel : Kernel) (bindings : List Nat) (size : Nat) : DeviceM Unit := do
  if bindings.length = kernel.params.length then
    Device.checkBindings kernel (kernel.params.zip bindings)
    kernel.body.forM (arith.runOp kernel bindings size)
  else
    Device.launchError kernel
      s!"{bindings.length} bindings for {kernel.params.length} parameters"

end

theorem runOp_standard (kernel : Kernel) (bindings : List Nat) (size : Nat) (op : KernelOp) :
    standard.runOp kernel bindings size op = Device.runOp kernel bindings size op := by
  cases op <;> rfl

/-- With the standard arithmetic this is what the device runs. -/
theorem run_standard : standard.run = Device.run := by
  funext kernel bindings size
  simp only [run, Device.run, funext (runOp_standard kernel bindings size)]

end Arithmetic

/-! ## Columns -/

namespace Device

/-- The elements at one index, buffer by buffer. -/
def column (device : Device) (index : Nat) (handle : Nat) : Option Float :=
  (device.cells? handle).bind (·[index]?)

/-- The device has the same buffers with elements, each of the same length. -/
def SameSizes (device other : Device) : Prop :=
  ∀ handle, (other.cells? handle).map Array.size = (device.cells? handle).map Array.size

theorem cells?_eq_of_columns {device other : Device} (sizes : device.SameSizes other)
    (columns : ∀ index, other.column index = device.column index) (handle : Nat) :
    other.cells? handle = device.cells? handle := by
  have hsize := sizes handle
  have hcolumn := fun index => congrFun (columns index) handle
  simp only [column] at hcolumn
  cases hd : device.cells? handle with
  | none => simpa [hd] using hsize
  | some cells =>
    obtain ⟨found, hfound, _⟩ := Option.map_eq_some_iff.mp (hsize.trans (by rw [hd]; rfl))
    rw [hfound, Option.some.injEq]
    refine Array.ext_getElem? fun index => ?_
    simpa [hd, hfound] using hcolumn index

/-- Replacing the elements of a live buffer shows in that buffer only. -/
theorem cells?_withCells {device : Device} {handle : Nat} {old : Cells}
    (h : device.cells? handle = some old) (cells : Cells) (other : Nat) :
    (device.withCells handle cells).cells? other =
      if other = handle then some cells else device.cells? other := by
  unfold cells? at h
  cases hb : device.buffers.get? handle with
  | none => simp [hb] at h
  | some buffer =>
    cases buffer with
    | owned elem _ =>
      simp only [withCells, hb, cells?, HandleTable.get?_set]
      by_cases ho : other = handle <;> simp [ho]
    | shared elem =>
      simp only [withCells, hb, cells?, HandleTable.get?_set]
      by_cases ho : other = handle
      · simp [ho, hb]
      · simp [ho]

theorem sameSizes_withCells {device : Device} {handle : Nat} {old cells : Cells}
    (h : device.cells? handle = some old) (hsize : cells.size = old.size) :
    device.SameSizes (device.withCells handle cells) := by
  intro other
  rw [cells?_withCells h]
  split
  · next ho => simp [ho, h, hsize]
  · rfl

theorem size_overwrite {cells values : Cells} (h : values.size ≤ cells.size) :
    (overwrite cells values).size = cells.size := by
  simp only [overwrite, Array.size_append, Array.size_extract]
  omega

theorem exec_load {device : Device} {kernel : Kernel} {handles : List Nat}
    {slot handle need : Nat} {cells : Cells} (hslot : handles[slot]? = some handle)
    (hcells : device.cells? handle = some cells) (hneed : need ≤ cells.size) :
    exec (load kernel handles slot need) device = (.ok cells, device) := by
  simp only [load, exec_bind, exec_ofExcept, hslot, orFault, exec_get, hcells, if_pos hneed,
    exec_pure]

theorem exec_save {device : Device} {handles : List Nat} {slot handle : Nat}
    (hslot : handles[slot]? = some handle) (old values : Cells) :
    exec (save handles slot old values) device =
      (.ok (), device.withCells handle (overwrite old values)) := by
  simp only [save, exec_bind, exec_ofExcept, hslot, orFault, exec_modify]

theorem getElem?_overwrite {cells values : Cells} (h : values.size ≤ cells.size) (index : Nat) :
    (overwrite cells values)[index]? =
      if index < values.size then values[index]? else cells[index]? := by
  rw [overwrite, Array.getElem?_append]
  split
  · rfl
  · next hge =>
    rw [Array.getElem?_extract]
    split
    · congr 1
      omega
    · rw [Array.getElem?_eq_none]
      omega

/-- Write one element behind a slot. -/
def writeAt (device : Device) (handles : List Nat) (slot index : Nat) (value : Float) : Device :=
  match handles[slot]? with
  | none => device
  | some handle =>
    match device.cells? handle with
    | none => device
    | some cells => device.withCells handle (cells.setIfInBounds index value)

theorem writeAt_eq {device : Device} {handles : List Nat} {slot handle : Nat} {cells : Cells}
    (hslot : handles[slot]? = some handle) (hcells : device.cells? handle = some cells)
    (index : Nat) (value : Float) :
    device.writeAt handles slot index value =
      device.withCells handle (cells.setIfInBounds index value) := by
  simp [writeAt, hslot, hcells]

theorem sameSizes_writeAt (device : Device) (handles : List Nat) (slot index : Nat)
    (value : Float) : device.SameSizes (device.writeAt handles slot index value) := by
  unfold writeAt
  split
  · exact fun _ => rfl
  · split
    · exact fun _ => rfl
    · next hcells => exact sameSizes_withCells hcells (by simp)

theorem column_writeAt (device : Device) (handles : List Nat) (slot index : Nat) (value : Float)
    (other : Nat) :
    (device.writeAt handles slot index value).column other =
      if other = index then fun handle =>
        if handles[slot]? = some handle then (device.column index handle).map fun _ => value
        else device.column index handle
      else device.column other := by
  funext handle
  cases hslot : handles[slot]? with
  | none =>
    simp only [writeAt, hslot]
    split <;> simp_all
  | some target =>
    cases hcells : device.cells? target with
    | none =>
      simp only [writeAt, hslot, hcells]
      split
      · next ho =>
        subst ho
        by_cases ht : target = handle
        · subst ht
          simp [column, hcells]
        · simp [ht]
      · rfl
    | some cells =>
      rw [writeAt_eq hslot hcells, column, cells?_withCells hcells]
      by_cases ht : handle = target
      · subst ht
        by_cases ho : other = index
        · subst ho
          simp only [if_true, Option.bind_some, column, hcells]
          by_cases hlt : other < cells.size <;> simp [hlt]
        · simp [ho, column, hcells, Array.getElem?_setIfInBounds_ne (Ne.symm ho)]
      · have hne : ¬ target = handle := fun h => ht h.symm
        by_cases ho : other = index <;> simp [ht, hne, ho, column]

end Device

/-! ## Statements of work items -/

/-- An operation of a kernel as one work item carries it out. -/
structure Statement where
  item : Nat
  op : KernelOp
deriving DecidableEq, Repr

namespace Kernel

/-- The element type of a slot. -/
def elemAt (kernel : Kernel) (slot : Nat) : Elem := (kernel.params[slot]?.map (·.elem)).getD .f64

/-- What an operand is in a column. -/
def operandIn? (handles : List Nat) (column : Nat → Option Float) : KernelOperand → Option Float
  | .slot slot => handles[slot]?.bind column
  | .scalar constant => some constant.value

/-- The value of the operand at a position. -/
def operandAt (handles : List Nat) (args : List KernelOperand) (column : Nat → Option Float)
    (position : Nat) : Float :=
  (args[position]?.bind (operandIn? handles column)).getD Number.zero

section
variable (arith : Arithmetic) (kernel : Kernel) (handles : List Nat)

/-- The value that a map stores in a column. -/
def mapValue (out : Nat) (op : MapOp) (args : List KernelOperand) (column : Nat → Option Float) :
    Float :=
  arith.coerce (kernel.elemAt out)
    (arith.apply op (operandAt handles args column 0) (operandAt handles args column 1))

/-- The fold of the first `size` elements behind a slot, from left to right. -/
def foldSlot (device : Device) (size : Nat) (op : FoldOp) (input : Nat) : Float :=
  (List.range size).foldl
    (fun acc index =>
      arith.combine op acc ((operandIn? handles (device.column index) (.slot input)).getD
        Number.zero))
    (arith.identity op)

end

/-- The statements of a work item, in order. -/
def statements (kernel : Kernel) (item : Nat) : List Statement := kernel.body.map (⟨item, ·⟩)

/-- The number of work items over a grid of `size` points; a reduction has one in any case. -/
def items (kernel : Kernel) (size : Nat) : Nat := if kernel.reduces then max size 1 else size

/-- The statements of all work items over a grid of `size` points. -/
def queues (kernel : Kernel) (size : Nat) : List (List Statement) :=
  (List.range (kernel.items size)).map kernel.statements

end Kernel

/-- Carry out a statement over a grid of `size` points. -/
def Statement.run (arith : Arithmetic) (kernel : Kernel) (handles : List Nat) (size : Nat)
    (device : Device) (statement : Statement) : Device :=
  match statement.op with
  | .map out op args =>
    device.writeAt handles out statement.item
      (kernel.mapValue arith handles out op args (device.column statement.item))
  | .reduce out op input =>
    if statement.item = 0 then
      device.writeAt handles out 0
        (arith.coerce (kernel.elemAt out) (Kernel.foldSlot arith handles device size op input))
    else device

/-- The trace takes its elements from the heads of the queues, in any order, until all are empty. -/
inductive Interleaving {α : Type} : List (List α) → List α → Prop
  | done {queues : List (List α)} (h : ∀ queue ∈ queues, queue = []) : Interleaving queues []
  | step {queues : List (List α)} (turn : Nat) {head : α} {rest trace : List α}
      (h : queues[turn]? = some (head :: rest)) (more : Interleaving (queues.set turn rest) trace) :
      Interleaving queues (head :: trace)

/-- In an interleaving, the statements of an item stand in the order of its queue. -/
theorem Interleaving.filter_item {queues : List (List Statement)} {trace : List Statement}
    (h : Interleaving queues trace)
    (own : ∀ {turn : Nat} {queue : List Statement}, queues[turn]? = some queue →
      ∀ statement ∈ queue, statement.item = turn) (item : Nat) :
    trace.filter (·.item = item) = queues[item]?.getD [] := by
  induction h with
  | @done queues hempty =>
    cases hq : queues[item]? with
    | none => rfl
    | some queue => simp [hempty queue (List.mem_of_getElem? hq)]
  | @step queues turn head rest trace hturn _ ih =>
    have hlt : turn < queues.length := (List.getElem?_eq_some_iff.mp hturn).1
    have hhead := own hturn head (by simp)
    have hrest := ih fun {other queue} hother statement hs => by
      by_cases hsame : turn = other
      · subst hsame
        rw [List.getElem?_set_self hlt, Option.some.injEq] at hother
        subst hother
        exact own hturn statement (by simp [hs])
      · rw [List.getElem?_set_ne hsame] at hother
        exact own hother statement hs
    by_cases hsame : turn = item
    · subst hsame
      rw [List.filter_cons_of_pos (by simpa using hhead), hrest, List.getElem?_set_self hlt, hturn]
      rfl
    · rw [List.filter_cons_of_neg (by simpa [hhead] using hsame), hrest,
        List.getElem?_set_ne hsame]

namespace Kernel

theorem filter_item {kernel : Kernel} {size : Nat} {trace : List Statement}
    (schedule : Interleaving (kernel.queues size) trace) (item : Nat) :
    trace.filter (·.item = item) =
      if item < kernel.items size then kernel.statements item else [] := by
  have own : ∀ {turn : Nat} {queue : List Statement}, (kernel.queues size)[turn]? = some queue →
      ∀ statement ∈ queue, statement.item = turn := by
    intro turn queue hqueue statement hs
    simp only [queues, List.getElem?_map, Option.map_eq_some_iff, List.getElem?_eq_some_iff,
      List.length_range, List.getElem_range] at hqueue
    obtain ⟨_, ⟨_, rfl⟩, rfl⟩ := hqueue
    simp only [statements, List.mem_map] at hs
    obtain ⟨_, _, rfl⟩ := hs
    rfl
  rw [schedule.filter_item own]
  split
  · next hlt => simp [queues, hlt]
  · next hge => simp [queues, Nat.le_of_not_lt hge]

theorem op_mem_body {kernel : Kernel} {size : Nat} {trace : List Statement}
    (schedule : Interleaving (kernel.queues size) trace) {statement : Statement}
    (h : statement ∈ trace) : statement.op ∈ kernel.body := by
  have hmem : statement ∈ trace.filter (·.item = statement.item) := by simp [h]
  rw [filter_item schedule] at hmem
  split at hmem
  · obtain ⟨op, hop, heq⟩ := List.mem_map.mp hmem
    rw [← heq]
    exact hop
  · cases hmem

section
variable (arith : Arithmetic) (kernel : Kernel) (handles : List Nat)

/-- What a map does to a column. -/
def columnStep (column : Nat → Option Float) : KernelOp → Nat → Option Float
  | .map out op args => fun handle =>
    if handles[out]? = some handle then
      (column handle).map fun _ => kernel.mapValue arith handles out op args column
    else column handle
  | .reduce .. => column

/-- Carry out the statements of a trace. -/
def runAll (size : Nat) (trace : List Statement) (device : Device) : Device :=
  trace.foldl (Statement.run arith kernel handles size) device

end

/-- The kernel has maps only. -/
def MapsOnly (kernel : Kernel) : Prop :=
  ∀ op ∈ kernel.body, ∃ out name args, op = .map out name args

section
variable {arith : Arithmetic} {kernel : Kernel} {handles : List Nat} {size : Nat}

/-- A map touches the column of its item, and that by what it has there. -/
theorem column_run {device : Device} {statement : Statement}
    (h : ∃ out name args, statement.op = .map out name args) (index : Nat) :
    (statement.run arith kernel handles size device).column index =
      if statement.item = index then
        kernel.columnStep arith handles (device.column index) statement.op
      else device.column index := by
  obtain ⟨out, name, args, hop⟩ := h
  simp only [Statement.run, hop, Device.column_writeAt, columnStep]
  by_cases hsame : statement.item = index
  · subst hsame
    simp
  · simp [hsame, Ne.symm hsame]

theorem sameSizes_run (device : Device) (statement : Statement) :
    device.SameSizes (statement.run arith kernel handles size device) := by
  unfold Statement.run
  split
  · exact device.sameSizes_writeAt _ _ _ _
  · split
    · exact device.sameSizes_writeAt _ _ _ _
    · exact fun _ => rfl

theorem sameSizes_runAll (trace : List Statement) (device : Device) :
    device.SameSizes (kernel.runAll arith handles size trace device) := by
  induction trace generalizing device with
  | nil => exact fun _ => rfl
  | cons statement rest ih =>
    exact fun handle => (ih _ handle).trans (sameSizes_run device statement handle)

/-- A trace of maps takes a column through the statements of its own item. -/
theorem column_runAll {trace : List Statement}
    (h : ∀ statement ∈ trace, ∃ out name args, statement.op = .map out name args)
    (device : Device) (index : Nat) :
    (kernel.runAll arith handles size trace device).column index =
      ((trace.filter (·.item = index)).map (·.op)).foldl (kernel.columnStep arith handles)
        (device.column index) := by
  induction trace generalizing device with
  | nil => rfl
  | cons statement rest ih =>
    rw [runAll, List.foldl_cons]
    refine (ih (fun other ho => h other (by simp [ho])) _).trans ?_
    rw [column_run (h statement (by simp))]
    by_cases hsame : statement.item = index <;> simp [hsame]

end

end Kernel

end ArrayOffload
