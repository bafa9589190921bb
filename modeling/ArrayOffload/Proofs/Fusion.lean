import ArrayOffload.Proofs.WorkItems

/-!
# Fused kernels

The kernel of a region leaves the same buffers whether its operations run one after the other over
the whole grid or its work items run in any order. A fused region holds maps over one iteration
space only, so both take every column through the same operations. A reduction has its region, and
so its kernel, to itself.

* `Kernel.exec_runOp_map`, `Kernel.exec_forM_runOp`: maps over the whole grid, column by column;
* `Kernel.mapsOnly_or_reduce`: the two kinds of kernels;
* `Kernel.interleaved_run`: every schedule leaves the buffers of the whole-array run.
-/

namespace ArrayOffload

/-! ## One operation after the other -/

namespace Device

variable {device : Device} {kernel : Kernel} {handles : List Nat} {slot need : Nat}

/-- The slot is bound to a buffer of at least `need` elements. -/
def Holds (device : Device) (handles : List Nat) (slot need : Nat) : Prop :=
  ∃ handle cells, handles[slot]? = some handle ∧ device.cells? handle = some cells ∧
    need ≤ cells.size

theorem Holds.of_sameSizes {other : Device} (h : device.Holds handles slot need)
    (sizes : device.SameSizes other) : other.Holds handles slot need := by
  obtain ⟨handle, cells, hslot, hcells, hneed⟩ := h
  obtain ⟨found, hfound, hsize⟩ :=
    Option.map_eq_some_iff.mp ((sizes handle).trans (by rw [hcells]; rfl))
  exact ⟨handle, found, hslot, hfound, by omega⟩

/-- What an operation over the whole grid reads for an operand. -/
def inputOf (device : Device) (handles : List Nat) : KernelOperand → Eval.Input
  | .slot slot => .cells ((handles[slot]?.bind device.cells?).getD #[])
  | .scalar constant => .scalar constant.value

theorem exec_loadOperands {args : List KernelOperand} {size : Nat}
    (held : ∀ slot, .slot slot ∈ args → device.Holds handles slot size) :
    exec (args.mapM (loadOperand kernel handles size)) device =
      (.ok (args.map (device.inputOf handles)), device) := by
  induction args with
  | nil => rfl
  | cons arg rest ih =>
    have hrest := ih fun slot hs => held slot (by simp [hs])
    have hhead : exec (loadOperand kernel handles size arg) device =
        (.ok (device.inputOf handles arg), device) := by
      cases arg with
      | scalar constant => rfl
      | slot slot =>
        obtain ⟨handle, cells, hslot, hcells, hneed⟩ := held slot (by simp)
        rw [loadOperand, exec_bind_of_ok (exec_load hslot hcells hneed), exec_pure]
        simp [inputOf, hslot, hcells]
    rw [List.mapM_cons, exec_bind_of_ok hhead, exec_bind_of_ok hrest]
    rfl

/-- Read at one index, the whole operands are those of the column. -/
theorem operandAt_inputOf (args : List KernelOperand) (position index : Nat) :
    Eval.operandAt (args.map (device.inputOf handles)) position index =
      Kernel.operandAt handles args (device.column index) position := by
  rw [Eval.operandAt, Kernel.operandAt, List.getElem?_map, Option.map_map]
  cases args[position]? with
  | none => rfl
  | some arg =>
    cases arg with
    | scalar constant => rfl
    | slot slot =>
      simp only [Option.map_some, Option.getD_some, Function.comp_apply, inputOf, Eval.Input.read,
        Option.bind_some, Kernel.operandIn?]
      cases handles[slot]? with
      | none => rfl
      | some handle =>
        simp only [Option.bind_some, column]
        cases device.cells? handle <;> simp [Array.getD_eq_getD_getElem?]

theorem mapDefined_inputOf {args : List KernelOperand} {op : MapOp} {size : Nat}
    (hbytes : size * 8 ≤ Shape.byteLimit) (harity : args.length = op.arity)
    (held : ∀ slot, .slot slot ∈ args → device.Holds handles slot size) :
    Eval.mapDefined op (args.map (device.inputOf handles)) size = true := by
  refine Eval.mapDefined_of_covers hbytes (by rw [List.length_map, harity]) fun input hi => ?_
  obtain ⟨arg, harg, rfl⟩ := List.mem_map.mp hi
  cases arg with
  | scalar constant => rfl
  | slot slot =>
    obtain ⟨handle, cells, hslot, hcells, hneed⟩ := held slot harg
    simpa [inputOf, hslot, hcells, Eval.Input.covers] using hneed

theorem overwrite_singleton {value : Float} (h : 1 ≤ cells.size) :
    overwrite cells #[value] = cells.setIfInBounds 0 value := by
  refine Array.ext_getElem? fun index => ?_
  rw [getElem?_overwrite (by simpa using h)]
  cases index with
  | zero => simp [show 0 < cells.size from h]
  | succ index => simp [Array.getElem?_setIfInBounds_ne]

end Device

namespace Kernel

/-- The slots of an operation are bound to enough elements. -/
def Supplied (handles : List Nat) (size : Nat) (device : Device) : KernelOp → Prop
  | .map out _ args => device.Holds handles out size ∧
      ∀ slot, .slot slot ∈ args → device.Holds handles slot size
  | .reduce out _ input => device.Holds handles out 1 ∧ device.Holds handles input size

/-- The operation can run. -/
def Ready (kernel : Kernel) (handles : List Nat) (size : Nat) (device : Device) (op : KernelOp) :
    Prop :=
  kernel.Slotted op ∧ size * 8 ≤ Shape.byteLimit ∧ Supplied handles size device op

section
variable {arith : Arithmetic} {kernel : Kernel} {handles : List Nat} {size : Nat} {device : Device}

theorem Ready.of_sameSizes {other : Device} {op : KernelOp}
    (h : kernel.Ready handles size device op) (sizes : device.SameSizes other) :
    kernel.Ready handles size other op := by
  refine ⟨h.1, h.2.1, ?_⟩
  cases op with
  | map out op args =>
    obtain ⟨_, _, hout, held⟩ := h
    exact ⟨hout.of_sameSizes sizes, fun slot hs => (held slot hs).of_sameSizes sizes⟩
  | reduce out op input =>
    obtain ⟨_, _, hout, hinput⟩ := h
    exact ⟨hout.of_sameSizes sizes, hinput.of_sameSizes sizes⟩

theorem elemAt_eq {slot : Nat} (h : slot < kernel.params.length) :
    ∃ param, kernel.params[slot]? = some param ∧ param.elem = kernel.elemAt slot :=
  ⟨kernel.params[slot], by simp [h], by simp [elemAt, h]⟩

/-- A map over the whole grid takes each column below `size` through the map. -/
theorem exec_runOp_map (arith : Arithmetic) {out : Nat} {op : MapOp} {args : List KernelOperand}
    (ready : kernel.Ready handles size device (.map out op args)) :
    ∃ after, exec (arith.runOp kernel handles size (.map out op args)) device = (.ok (), after) ∧
      device.SameSizes after ∧ ∀ index, after.column index =
        if index < size then
          kernel.columnStep arith handles (device.column index) (.map out op args)
        else device.column index := by
  obtain ⟨⟨hparam, harity, _⟩, hbytes, ⟨handle, old, hslot, hold, hneed⟩, held⟩ := ready
  obtain ⟨param, hparam, helem⟩ := elemAt_eq hparam
  have hvalues : ∀ inputs, (arith.mapCells op param.elem inputs size).size = size := by
    simp [Arithmetic.mapCells]
  have hfits := (hvalues (args.map (device.inputOf handles))).symm ▸ hneed
  refine ⟨_, ?_, Device.sameSizes_withCells hold (Device.size_overwrite hfits), ?_⟩
  · simp only [Arithmetic.runOp, exec_bind, Device.exec_loadOperands held, exec_ofExcept, hparam,
      orFault, Device.mapDefined_inputOf hbytes harity held, if_true,
      Device.exec_load hslot hold hneed, Device.exec_save hslot]
  · intro index
    funext other
    rw [Device.column, Device.cells?_withCells hold, columnStep, hslot]
    by_cases ho : other = handle
    · subst ho
      rw [if_pos rfl, Option.bind_some, Device.getElem?_overwrite hfits, hvalues]
      split
      · next hlt =>
        have hin : index < old.size := Nat.lt_of_lt_of_le hlt hneed
        simp [Device.column, hold, hin, Arithmetic.mapCells, hlt, mapValue, helem,
          Device.operandAt_inputOf]
      · simp [Device.column, hold]
    · have hne : ¬ handle = other := fun h => ho h.symm
      by_cases hlt : index < size <;> simp [ho, hne, hlt, Device.column]

/-- The first elements of an array, folded one index after the other. -/
theorem foldSlot_eq {input handle : Nat} {cells : Cells} (hslot : handles[input]? = some handle)
    (hcells : device.cells? handle = some cells) (hneed : size ≤ cells.size) (op : FoldOp) :
    foldSlot arith handles device size op input =
      (cells.extract 0 size).foldl (arith.combine op) (arith.identity op) := by
  have hread : (List.range size).map (fun index =>
      (operandIn? handles (device.column index) (.slot input)).getD Number.zero) =
        (cells.extract 0 size).toList := by
    refine List.ext_getElem? fun index => ?_
    by_cases hlt : index < size
    · have hin : index < cells.size := Nat.lt_of_lt_of_le hlt hneed
      simp [hlt, operandIn?, hslot, Device.column, hcells, hin]
    · rw [List.getElem?_eq_none (by simpa using hlt), List.getElem?_eq_none (by simp; omega)]
  rw [foldSlot, ← Array.foldl_toList, ← hread, List.foldl_map]

/-- A reduction is the statement of the first item. -/
theorem exec_runOp_reduce {out input : Nat} {op : FoldOp}
    (ready : kernel.Ready handles size device (.reduce out op input)) :
    exec (arith.runOp kernel handles size (.reduce out op input)) device =
      (.ok (), Statement.run arith kernel handles size device ⟨0, .reduce out op input⟩) := by
  obtain ⟨⟨hparam, _⟩, _, ⟨target, old, hout, hold, hone⟩, handle, cells, hslot, hcells, hneed⟩ :=
    ready
  obtain ⟨param, hparam, helem⟩ := elemAt_eq hparam
  simp only [Arithmetic.runOp, exec_bind, Device.exec_load hslot hcells hneed,
    Device.exec_load hout hold hone, exec_ofExcept, hparam, orFault, Device.exec_save hout,
    Statement.run, if_true, Device.writeAt_eq hout hold, Device.overwrite_singleton hone,
    Arithmetic.reduce, helem, foldSlot_eq hslot hcells hneed]

/-- Maps over the whole grid, one after the other, take each column below `size` through all. -/
theorem exec_forM_runOp (arith : Arithmetic) {ops : List KernelOp}
    (maps : ∀ op ∈ ops, ∃ out name args, op = .map out name args)
    (ready : ∀ op ∈ ops, kernel.Ready handles size device op) :
    ∃ after, exec (ops.forM (arith.runOp kernel handles size)) device = (.ok (), after) ∧
      device.SameSizes after ∧ ∀ index, after.column index =
        if index < size then ops.foldl (kernel.columnStep arith handles) (device.column index)
        else device.column index := by
  induction ops generalizing device with
  | nil => exact ⟨device, rfl, fun _ => rfl, by simp⟩
  | cons op rest ih =>
    obtain ⟨out, name, args, rfl⟩ := maps op (by simp)
    obtain ⟨middle, hmiddle, hsizes, hcolumns⟩ :=
      exec_runOp_map arith (ready (.map out name args) (by simp))
    have hready : ∀ other ∈ rest, kernel.Ready handles size middle other := fun other ho =>
      (ready other (by simp [ho])).of_sameSizes hsizes
    obtain ⟨after, hafter, hsame, hall⟩ := ih (fun other ho => maps other (by simp [ho])) hready
    refine ⟨after, ?_, fun handle => (hsame handle).trans (hsizes handle), fun index => ?_⟩
    · rw [exec_forM_cons, hmiddle]
      exact hafter
    · rw [hall index, hcolumns index]
      split <;> rfl

/-- A schedule of maps leaves the buffers that the maps leave over the whole grid. -/
theorem runAll_of_mapsOnly (maps : kernel.MapsOnly)
    (ready : ∀ op ∈ kernel.body, kernel.Ready handles size device op) {trace : List Statement}
    (schedule : Interleaving (kernel.queues size) trace) :
    ∃ after, exec (kernel.body.forM (arith.runOp kernel handles size)) device = (.ok (), after) ∧
      ∀ handle, (kernel.runAll arith handles size trace device).cells? handle =
        after.cells? handle := by
  obtain ⟨after, hafter, hsizes, hcolumns⟩ := exec_forM_runOp arith maps ready
  have hitems : kernel.items size = size := by
    have hnone : kernel.reduces = false := by
      rw [reduces, List.any_eq_false]
      intro op hop
      obtain ⟨out, name, args, rfl⟩ := maps op hop
      simp
    simp [items, hnone]
  have hmaps : ∀ statement ∈ trace, ∃ out name args, statement.op = .map out name args :=
    fun statement hs => maps statement.op (op_mem_body schedule hs)
  refine ⟨after, hafter, Device.cells?_eq_of_columns (fun handle => ?_) fun index => ?_⟩
  · exact (sameSizes_runAll trace device handle).trans (hsizes handle).symm
  · rw [column_runAll hmaps, filter_item schedule, hcolumns index, hitems]
    split
    · simp [statements, Function.comp_def]
    · rfl

/-- The items beside the first do nothing in a reduction. -/
theorem runAll_of_reduce {out input : Nat} {op : FoldOp}
    (hbody : kernel.body = [.reduce out op input]) {trace : List Statement}
    (schedule : Interleaving (kernel.queues size) trace) :
    kernel.runAll arith handles size trace device =
      Statement.run arith kernel handles size device ⟨0, .reduce out op input⟩ := by
  have hfirst : trace.filter (·.item = 0) = [⟨0, .reduce out op input⟩] := by
    have hpos : 0 < kernel.items size := by
      simp only [items, reduces, hbody, List.any_cons, Bool.true_or, if_true]
      omega
    rw [filter_item schedule, if_pos hpos, statements, hbody]
    rfl
  have hops : ∀ statement ∈ trace, statement.op = .reduce out op input := by
    intro statement hs
    simpa [hbody] using op_mem_body schedule hs
  have hskip : ∀ (part : List Statement) (device : Device),
      (∀ statement ∈ part, statement.op = .reduce out op input) →
      kernel.runAll arith handles size part device =
        kernel.runAll arith handles size (part.filter (·.item = 0)) device := by
    intro part
    induction part with
    | nil => intro _ _; rfl
    | cons statement rest ih =>
      intro device hpart
      have hrest := ih (statement.run arith kernel handles size device)
        fun other ho => hpart other (by simp [ho])
      by_cases hzero : statement.item = 0
      · rw [List.filter_cons_of_pos (by simpa using hzero)]
        exact hrest
      · have hidle : statement.run arith kernel handles size device = device := by
          simp [Statement.run, hpart statement (by simp), hzero]
        rw [hidle] at hrest
        rw [List.filter_cons_of_neg (by simpa using hzero), ← hrest, runAll, List.foldl_cons, hidle]
        rfl
  rw [hskip trace device hops, hfirst]
  rfl

end

/-! ## Kernels of regions -/

/-- Live buffers stand behind the slots, with the element types and at least the sizes of the
arrays that the slots are bound to. Slots may have the same buffer. -/
structure Backed (f : Func) (shapes : List Shape) (bindings : List ArrayId) (handles : List Nat)
    (device : Device) : Prop where
  length : handles.length = bindings.length
  slot : ∀ {slot : Nat} {id : ArrayId} {handle : Nat}, bindings[slot]? = some id →
    handles[slot]? = some handle → ∃ decl buffer cells, f.decl? id = some decl ∧
      device.buffers.get? handle = some buffer ∧ buffer.elem = decl.elem ∧
      device.cells? handle = some cells ∧ sizeAt shapes id ≤ cells.size

section
variable {f : Func} {args : List ArrayValue} {table : HostTable} {shapes : List Shape}
  {region : Region} {plan : LaunchPlan} {handles : List Nat} {device : Device}

theorem Backed.holds (backed : Backed f shapes plan.bindings handles device) {id : ArrayId}
    (h : id ∈ plan.bindings) {need : Nat} (hneed : need ≤ sizeAt shapes id) :
    device.Holds handles (slotIn plan.bindings id) need := by
  have hslot := get?_slotIn h
  have hlt : slotIn plan.bindings id < handles.length := by
    rw [backed.length]
    exact (List.getElem?_eq_some_iff.mp hslot).1
  have hhandle := List.getElem?_eq_getElem hlt
  obtain ⟨_, _, cells, _, _, _, hcells, hsize⟩ := backed.slot hslot hhandle
  exact ⟨_, cells, hhandle, hcells, Nat.le_trans hneed hsize⟩

/-- Every operation finds as many elements as the grid has points, a reduction a place for its
result. -/
theorem Backed.ready (wf : f.Checked) (res : Shapes.Resolved f args table shapes)
    (sound : region.Sound f) (impl : plan.Implements f region)
    (backed : Backed f shapes plan.bindings handles device) {kernelOp : KernelOp}
    (h : kernelOp ∈ plan.kernel.body) :
    plan.kernel.Ready handles (sizeAt shapes region.space.extentOf) device kernelOp := by
  refine ⟨impl.slotted sound wf h, res.bytes sound.extentOf_lt, ?_⟩
  obtain ⟨op, hop, hin⟩ := impl.exists_op h
  have hbody := Region.mem_body hop
  have bound : ∀ id ∈ op.reads ++ op.writes, id ∈ plan.bindings := fun id =>
    impl.mem_bindings sound hop
  cases op with
  | map out op operands =>
    cases hin
    have hsize := Call.sizeAt_extent res sound hop out rfl
    refine ⟨backed.holds (bound out (by simp [Op.writes])) (Nat.le_of_eq hsize.symm), ?_⟩
    intro slot hslot
    obtain ⟨operand, hoperand, heq⟩ := List.mem_map.mp hslot
    cases operand with
    | scalar constant => cases heq
    | array id =>
      cases heq
      refine backed.holds (bound id (List.mem_append_left _ (mem_distinct.mpr ?_))) ?_
      · exact List.mem_filterMap.mpr ⟨_, hoperand, rfl⟩
      · rw [← hsize]
        simp only [sizeAt, res.map_operand hbody hoperand, Nat.le_refl]
  | reduce out op input =>
    cases hin
    have hone := Op.sizeAt_reduce_target wf res hbody
    have hsize := Call.sizeAt_extent res sound hop input rfl
    exact ⟨backed.holds (bound out (by simp [Op.writes])) (Nat.le_of_eq hone.symm),
      backed.holds (bound input (by simp [Op.reads])) (Nat.le_of_eq hsize.symm)⟩
  | scan | store | print | call => simp [opIn?] at hin

/-- A kernel has maps only, or it is one reduction. -/
theorem mapsOnly_or_reduce (sound : region.Sound f) (impl : plan.Implements f region) :
    plan.kernel.MapsOnly ∨ ∃ out op input, plan.kernel.body = [.reduce out op input] := by
  rcases sound.fused with ⟨op, hop⟩ | hfused
  · have hone := length_of_map_some impl.ops
    rw [hop, List.length_singleton, List.length_eq_one_iff] at hone
    obtain ⟨kernelOp, hbody⟩ := hone
    cases kernelOp with
    | map out name args => exact .inl fun other ho => ⟨out, name, args, by simpa [hbody] using ho⟩
    | reduce out name input => exact .inr ⟨out, name, input, hbody⟩
  · refine .inl fun kernelOp h => ?_
    obtain ⟨op, hop, hin⟩ := impl.exists_op h
    obtain ⟨kind, hkind, hparallel⟩ := sound.parallel hop
    have hfree := hfused kind hkind
    cases op with
    | map out name operands =>
      cases hin
      exact ⟨_, _, _, rfl⟩
    | reduce =>
      cases hparallel
      cases hfree
    | scan | store | print | call => simp [opIn?] at hin

theorem Backed.exec_run (impl : plan.Implements f region)
    (backed : Backed f shapes plan.bindings handles device) (arith : Arithmetic) (size : Nat) :
    exec (arith.run plan.kernel handles size) device =
      exec (plan.kernel.body.forM (arith.runOp plan.kernel handles size)) device := by
  have hlength : handles.length = plan.kernel.params.length := by
    rw [backed.length, impl.length_params]
  have live : ∀ slot ∈ plan.kernel.params.zip handles, ∃ buffer,
      device.buffers.get? slot.2 = some buffer ∧ buffer.elem = slot.1.elem := by
    rintro ⟨param, handle⟩ hmem
    obtain ⟨i, hi⟩ := List.getElem?_of_mem hmem
    rw [List.getElem?_zip_eq_some] at hi
    have hlt : i < plan.bindings.length := by
      rw [← backed.length]
      exact (List.getElem?_eq_some_iff.mp hi.2).1
    have hid := List.getElem?_eq_getElem hlt
    obtain ⟨decl, buffer, _, hdecl, hbuffer, helem, _, _⟩ := backed.slot hid hi.2
    obtain ⟨_, found, _, _, hfound, hparam⟩ := impl.param hid
    rw [hi.1] at hparam
    rw [hdecl] at hfound
    cases hparam
    cases hfound
    exact ⟨buffer, hbuffer, helem⟩
  rw [Arithmetic.run, if_pos hlength, exec_bind_of_ok (Device.exec_checkBindings live)]

end

/-- The run of a kernel succeeds, and every schedule of the work items leaves the buffers that it
leaves. This holds for any arithmetic; with the standard one the run is that of the device. -/
theorem interleaved_run {f : Func} {p : Partition} {region : Region} {kernel : Kernel}
    {bindings : List ArrayId} {args : List ArrayValue} {table : HostTable} {shapes : List Shape}
    {handles : List Nat} {device : Device} {trace : List Statement} (built : f.Built)
    (hp : f.partition? = some p) (hregion : region ∈ p.regions)
    (hkernel : ofRegion f region = .ok (kernel, bindings))
    (hshapes : Shapes.resolve f args table = .ok shapes)
    (backed : Backed f shapes bindings handles device)
    (schedule : Interleaving (kernel.queues (sizeAt shapes region.space.extentOf)) trace) :
    Arithmetic.standard.run = Device.run ∧ ∀ arith : Arithmetic, ∃ after,
      exec (arith.run kernel handles (sizeAt shapes region.space.extentOf)) device =
        (.ok (), after) ∧
      ∀ handle, (kernel.runAll arith handles (sizeAt shapes region.space.extentOf) trace
        device).cells? handle = after.cells? handle := by
  refine ⟨Arithmetic.run_standard, fun arith => ?_⟩
  obtain ⟨i, hi⟩ := List.getElem?_of_mem hregion
  have sound := ((Func.partition?_sound hp).regions hi).2
  have res := Shapes.resolve_ok hshapes
  have impl : LaunchPlan.Implements f region ⟨kernel, region.space.extentOf, bindings⟩ :=
    ⟨hkernel, rfl⟩
  have ready : ∀ op ∈ kernel.body, kernel.Ready handles _ device op := fun op hop =>
    backed.ready built.wellFormed.toChecked res sound impl hop
  rw [backed.exec_run impl arith]
  rcases mapsOnly_or_reduce sound impl with maps | ⟨out, op, input, hbody⟩
  · exact runAll_of_mapsOnly maps ready schedule
  · have hbody : kernel.body = [.reduce out op input] := hbody
    refine ⟨_, ?_, fun handle => by rw [runAll_of_reduce hbody schedule]⟩
    rw [hbody, exec_forM_cons, exec_runOp_reduce (ready _ (by simp [hbody]))]
    rfl

/-! ## A fused kernel over shared memory

Two maps, the second of which writes what the first reads. Both arguments are the same memory. -/

namespace Sample

def update : Func where
  name := "update"
  arrays := [⟨"a", .f64, 1, .param, .param 0⟩, ⟨"b", .f64, 1, .param, .param 1⟩,
    ⟨"t", .f64, 1, .like 0, .scratch⟩]
  params := [0, 1]
  body := [.map 2 .add [.array 0, .array 1], .map 0 .mul [.array 2, .array 1]]
  returns := none
  serialOnly := false

theorem update_built : update.Built := by
  have arrays := ((Func.Building.empty "update").param "a" .f64 1).param "b" .f64 1
  have body := ((arrays.like "t" .f64 0).push (.map 2 .add [.array 0, .array 1])).push
    (.map 0 .mul [.array 2, .array 1])
  exact ⟨_, body, rfl⟩

def updateRegion : Region where
  index := 0
  first := 0
  stop := 2
  kinds := [.map, .map]
  uses := [⟨0, .readWrite⟩, ⟨1, .read⟩, ⟨2, .readWrite⟩]
  space := ⟨1, 2, .param 0⟩
  afterBarrier := false

def updateKernel : Kernel where
  name := "update_r0"
  region := 0
  rank := 1
  params := [⟨0, .f64, .readWrite⟩, ⟨1, .f64, .read⟩, ⟨2, .f64, .readWrite⟩]
  body := [.map 2 .add [.slot 0, .slot 1], .map 0 .mul [.slot 2, .slot 1]]

def updateArgs : List ArrayValue := [⟨.f64, [2], .shared 1⟩, ⟨.f64, [2], .shared 1⟩]

def updateDevice : Device where
  lastHandle := 2
  buffers := [(1, .shared .f64), (2, .owned .f64 #[Number.zero, Number.zero])]
  pool := [(1, #[Number.zero, Number.zero])]

theorem update_backed : Backed update [[2], [2], [2]] [0, 1, 2] [1, 1, 2] updateDevice where
  length := rfl
  slot := by
    intro slot id handle hid hhandle
    match slot with
    | 0 | 1 | 2 =>
      cases hid
      cases hhandle
      exact ⟨_, _, _, rfl, rfl, rfl, rfl, Nat.le_refl 2⟩
    | slot + 3 => simp at hid

/-- The second item is done before the first has stored anything. -/
def updateTrace : List Statement := updateKernel.statements 1 ++ updateKernel.statements 0

theorem update_schedule : Interleaving (updateKernel.queues 2) updateTrace :=
  .step 1 rfl <| .step 1 rfl <| .step 0 rfl <| .step 0 rfl <| .done (by decide)

end Sample

theorem interleaved_run_sample : Interleaving (Sample.updateKernel.queues 2) Sample.updateTrace ∧
    ∃ after, exec (Device.run Sample.updateKernel [1, 1, 2] 2) Sample.updateDevice =
        (.ok (), after) ∧
      ∀ handle, (Sample.updateKernel.runAll .standard [1, 1, 2] 2 Sample.updateTrace
        Sample.updateDevice).cells? handle = after.cells? handle := by
  have hp : Sample.update.partition? = some ⟨[Sample.updateRegion], [.region 0]⟩ := rfl
  have hkernel : ofRegion Sample.update Sample.updateRegion =
      .ok (Sample.updateKernel, [0, 1, 2]) := rfl
  have hshapes : Shapes.resolve Sample.update Sample.updateArgs [] = .ok [[2], [2], [2]] := rfl
  obtain ⟨hsame, hall⟩ := interleaved_run Sample.update_built hp (List.mem_singleton.mpr rfl)
    hkernel hshapes Sample.update_backed Sample.update_schedule
  refine ⟨Sample.update_schedule, ?_⟩
  rw [← hsame]
  exact hall .standard

end Kernel

end ArrayOffload
