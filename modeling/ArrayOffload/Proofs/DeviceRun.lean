import ArrayOffload.Device.Memory
import ArrayOffload.Proofs.Intact
import ArrayOffload.Proofs.Kernel

/-!
# Work of the device

What transfers and launches do to a device whose buffers stand for the arrays of a call. A kernel
operation loads from and saves to the buffers behind its slots; on an intact call it replaces the
target's elements by those that the operation has as its result.

* `Device.exec_copyIn`, `Device.exec_copyOut`: transfers;
* `Call.Intact.exec_runOp`: one kernel operation;
* `Device.exec_launch`: what a launch does apart from running the kernel.
-/

namespace ArrayOffload

namespace Device

theorem exec_transferTarget {device : Device} {handle length : Nat} {buffer : Buffer}
    {cells : Cells} (hbuffer : device.buffers.get? handle = some buffer)
    (hcells : device.cells? handle = some cells) (hsize : cells.size = length) :
    exec (transferTarget handle length) device = (.ok (buffer, cells), device) := by
  simp only [transferTarget, exec_bind, exec_get, hbuffer, hcells, if_pos hsize, exec_pure]

/-- The device with another count of what it did. -/
def counting (device : Device) (f : Counters → Counters) : Device :=
  { device with counters := f device.counters }

theorem exec_copyIn {device : Device} {handle : Nat} {buffer : Buffer} {old values : Cells}
    (hbuffer : device.buffers.get? handle = some buffer)
    (hcells : device.cells? handle = some old) (hsize : old.size = values.size) :
    exec (copyIn handle values) device =
      (.ok (), (device.withCells handle (values.map buffer.elem.coerce)).counting
        fun c => { c with copyIns := c.copyIns + 1 }) := by
  simp only [copyIn, exec_bind, exec_transferTarget hbuffer hcells hsize, exec_modify, count,
    counting]

theorem exec_copyOut {device : Device} {handle length : Nat} {buffer : Buffer} {cells : Cells}
    (hbuffer : device.buffers.get? handle = some buffer)
    (hcells : device.cells? handle = some cells) (hsize : cells.size = length) :
    exec (copyOut handle length) device =
      (.ok cells, device.counting fun c => { c with copyOuts := c.copyOuts + 1 }) := by
  simp only [copyOut, exec_bind, exec_transferTarget hbuffer hcells hsize, count, exec_modify,
    exec_pure, counting]

/-- Bound buffers that are live and of the right types pass the check. -/
theorem exec_checkBindings {device : Device} {kernel : Kernel} {slots : List (KernelParam × Nat)}
    (live : ∀ slot ∈ slots, ∃ buffer, device.buffers.get? slot.2 = some buffer ∧
      buffer.elem = slot.1.elem) :
    exec (checkBindings kernel slots) device = (.ok (), device) := by
  induction slots with
  | nil => rfl
  | cons slot rest ih =>
    obtain ⟨param, handle⟩ := slot
    obtain ⟨buffer, hbuffer, helem⟩ := live (param, handle) (by simp)
    simp only [checkBindings, exec_bind, exec_get, hbuffer, if_pos helem]
    exact ih fun other ho => live other (by simp [ho])

theorem exec_launch_injected {device : Device} {reason : String}
    (h : device.failLaunch = some reason) (program : Nat) (grid : Shape) (handles : List Nat) :
    exec (launch program grid handles) device =
      (.error (.error (.enqueueFailed reason)), { device with failLaunch := none }) := by
  simp only [launch, takeLaunchFailure, exec_bind, exec_get, h, exec_modify, exec_pure]
  rfl

theorem points_of_count? {device : Device} {grid : Shape} {length : Nat}
    (h : grid.count? = some length) : device.points grid = .ok length := by
  rw [points, Shape.product?_of_count? h]

/-- A launch that is not made to fail runs the kernel over the points of the grid. -/
theorem exec_launch {device after : Device} (h : device.failLaunch = none) {program : Nat}
    {kernel : Kernel} (hprogram : device.programs.get? program = some kernel) {grid : Shape}
    (hrank : grid.length = kernel.rank) (hcount : grid.count? = some grid.size)
    {handles : List Nat} (hrun : exec (run kernel handles grid.size) device = (.ok (), after)) :
    exec (launch program grid handles) device =
      (.ok (), after.counting fun c => { c with launches := c.launches + 1 }) := by
  have hsame : { device with failLaunch := none } = device := by
    rw [← h]
  simp only [launch, takeLaunchFailure, exec_bind, exec_get, h, exec_modify, exec_pure, hsame,
    hprogram, if_pos hrank, exec_ofExcept, points_of_count? hcount, hrun]
  rfl

theorem overwrite_of_size_eq {old values : Cells} (h : values.size = old.size) :
    overwrite old values = values := by
  simp [overwrite, h]

end Device

/-- A region iterates over a declared array. -/
theorem Region.Sound.extentOf_lt {f : Func} {region : Region} (sound : region.Sound f) :
    region.space.extentOf < f.arrays.length := by
  obtain ⟨first, _, hspace⟩ := sound.space
  obtain ⟨_, ⟨decl, hdecl, _⟩, _⟩ := Func.spaceOf?_ok hspace
  exact Func.lt_of_decl? hdecl

namespace Call

/-- The device's elements of an array, none for an array that is not there. -/
def deviceRead (call : Call) (id : ArrayId) : Cells := (call.deviceCells? id).getD #[]

/-- The buffers that stand for some arrays. -/
def Binds (call : Call) (bindings : List ArrayId) (handles : List Nat) : Prop :=
  bindings.map call.handleOf? = handles.map some

namespace Intact

variable {f : Func} {args : List ArrayValue} {shapes : List Shape} {table : HostTable}
  {origin : Device} {call : Call} {region : Region} {plan : LaunchPlan} {handles : List Nat}

theorem deviceRead_of_handle (intact : call.Intact f shapes origin) {id : ArrayId} {handle : Nat}
    (h : call.handleOf? id = some handle) :
    call.machine.device.cells? handle = some (call.deviceRead id) ∧
      (call.deviceRead id).size = sizeAt shapes id := by
  obtain ⟨_, cells, _, _, hcells, hsize⟩ := intact.buffer_of_handle h
  simp [deviceRead, deviceCells?, h, hcells, hsize]

theorem exec_deviceLoad (intact : call.Intact f shapes origin)
    (binds : call.Binds plan.bindings handles) {slot : Nat} {id : ArrayId}
    (hid : plan.bindings[slot]? = some id) {need : Nat} (hneed : need ≤ sizeAt shapes id) :
    exec (Device.load plan.kernel handles slot need) call.machine.device =
      (.ok (call.deviceRead id), call.machine.device) := by
  obtain ⟨handle, hhandle, hof⟩ := get?_of_map_some binds hid
  obtain ⟨hcells, hsize⟩ := intact.deviceRead_of_handle hof
  simp only [Device.load, exec_bind, exec_ofExcept, hhandle, orFault, exec_get, hcells]
  rw [if_pos (hsize ▸ hneed), exec_pure]

theorem exec_deviceOperands (intact : call.Intact f shapes origin)
    (binds : call.Binds plan.bindings handles) {operands : List Operand} {size : Nat}
    (bound : ∀ id, .array id ∈ operands → id ∈ plan.bindings ∧ sizeAt shapes id = size) :
    exec ((operands.map (Kernel.operandIn plan.bindings)).mapM
        (Device.loadOperand plan.kernel handles size)) call.machine.device =
      (.ok (operands.map (Operand.input call.deviceRead)), call.machine.device) := by
  induction operands with
  | nil => rfl
  | cons operand rest ih =>
    have hrest := ih fun id hid => bound id (by simp [hid])
    have hhead : exec (Device.loadOperand plan.kernel handles size
        (Kernel.operandIn plan.bindings operand)) call.machine.device =
          (.ok (operand.input call.deviceRead), call.machine.device) := by
      cases operand with
      | scalar constant => rfl
      | array id =>
        obtain ⟨hmem, hsize⟩ := bound id (by simp)
        simp only [Kernel.operandIn, Device.loadOperand, exec_bind,
          intact.exec_deviceLoad binds (Kernel.get?_slotIn hmem) (Nat.le_of_eq hsize.symm)]
        rfl
    rw [List.map_cons, List.mapM_cons, exec_bind_of_ok hhead, exec_bind_of_ok hrest]
    rfl

end Intact

/-- The grid of a region has one point for each element that its operations go through. -/
theorem sizeAt_extent {f : Func} {args : List ArrayValue} {shapes : List Shape}
    {table : HostTable} {region : Region} (res : Shapes.Resolved f args table shapes)
    (sound : region.Sound f) {op : Op} (hop : op ∈ region.ops f) (id : ArrayId)
    (hid : op.extent? = some id) : sizeAt shapes id = sizeAt shapes region.space.extentOf := by
  obtain ⟨space, hspace, hroot⟩ := sound.roots op hop
  obtain ⟨first, _, hfirst⟩ := sound.space
  obtain ⟨hextent, _, hmine⟩ := Func.spaceOf?_ok hspace
  obtain ⟨_, _, hregion⟩ := Func.spaceOf?_ok hfirst
  rw [hid, Option.some.injEq] at hextent
  subst hextent
  rw [sizeAt, res.get?_eq_of_root (hroot ▸ hmine) hregion, sizeAt]

namespace Intact

variable {f : Func} {args : List ArrayValue} {shapes : List Shape} {table : HostTable}
  {origin : Device} {call : Call} {region : Region} {plan : LaunchPlan} {handles : List Nat}

theorem exec_save (binds : call.Binds plan.bindings handles) {slot : Nat} {id : ArrayId}
    (hid : plan.bindings[slot]? = some id) {handle : Nat} (hhandle : call.handleOf? id = some handle)
    {old values : Cells} (hsize : values.size = old.size) :
    exec (Device.save handles slot old values) call.machine.device =
      (.ok (), call.machine.device.withCells handle values) := by
  obtain ⟨found, hfound, hof⟩ := get?_of_map_some binds hid
  rw [hhandle, Option.some.injEq] at hof
  subst hof
  simp only [Device.save, exec_bind, exec_ofExcept, hfound, orFault, exec_modify,
    Device.overwrite_of_size_eq hsize]

/-- The element type of a slot is that of its array. -/
theorem param_elem (impl : plan.Implements f region) {slot : Nat} {id : ArrayId}
    (hid : plan.bindings[slot]? = some id) :
    ∃ param, plan.kernel.params[slot]? = some param ∧ param.elem = f.elemOf id := by
  obtain ⟨use, decl, _, _, hdecl, hparam⟩ := impl.param hid
  exact ⟨_, hparam, (Func.elemOf_eq hdecl).symm⟩

/-- A kernel operation gives the target the result of the operation that it stands for. -/
theorem exec_runOp (wf : f.Checked) (res : Shapes.Resolved f args table shapes)
    (sound : region.Sound f) (impl : plan.Implements f region)
    (intact : call.Intact f shapes origin) (binds : call.Binds plan.bindings handles) {op : Op}
    (hop : op ∈ region.ops f) {kernelOp : KernelOp}
    (hin : Kernel.opIn? plan.bindings op = some kernelOp) {out : ArrayId} (hout : op.writes = [out])
    {handle : Nat} (hhandle : call.handleOf? out = some handle) :
    exec (Device.runOp plan.kernel handles (sizeAt shapes region.space.extentOf) kernelOp)
        call.machine.device =
      (.ok (), call.machine.device.withCells handle (op.result f shapes call.deviceRead)) := by
  have hbody := Region.mem_body hop
  have bound : ∀ id, id ∈ op.reads ∨ id ∈ op.writes → id ∈ plan.bindings := fun id hid =>
    impl.mem_bindings sound hop (List.mem_append.mpr hid)
  have hslot := Kernel.get?_slotIn (bound out (.inr (by simp [hout])))
  obtain ⟨param, hparam, helem⟩ := param_elem impl hslot
  obtain ⟨_, hold⟩ := intact.deviceRead_of_handle hhandle
  cases op with
  | map target op operands =>
    cases hin
    cases hout
    have hsize := sizeAt_extent res sound hop out rfl
    have hoperands : ∀ id, .array id ∈ operands →
        id ∈ plan.bindings ∧ sizeAt shapes id = sizeAt shapes out := fun id hid =>
      ⟨bound id (.inl (mem_distinct.mpr (List.mem_filterMap.mpr ⟨_, hid, rfl⟩))), by
        simp only [sizeAt, res.map_operand hbody hid]⟩
    have hread : ∀ id, .array id ∈ operands → (call.deviceRead id).size = sizeAt shapes id := by
      intro id hid
      obtain ⟨slot, hslot⟩ := List.getElem?_of_mem (hoperands id hid).1
      obtain ⟨_, _, hof⟩ := get?_of_map_some binds hslot
      exact (intact.deviceRead_of_handle hof).2
    have defined := Op.mapDefined_of_sized wf res hbody hread
    -- the grid covers the target exactly, so no old element is left
    rw [← hsize]
    simp only [Device.runOp, exec_bind, intact.exec_deviceOperands binds hoperands, exec_ofExcept,
      hparam, orFault, defined, if_true, intact.exec_deviceLoad binds hslot (Nat.le_refl _), helem]
    exact exec_save binds hslot hhandle (by simp [Eval.mapCells, hold])
  | reduce target op input =>
    cases hin
    cases hout
    have hsize := sizeAt_extent res sound hop input rfl
    have hone := Op.sizeAt_reduce_target wf res hbody
    have hinput := Kernel.get?_slotIn (bound input (.inl (by simp [Op.reads])))
    obtain ⟨_, _, hof⟩ := get?_of_map_some binds hinput
    have hwhole : (call.deviceRead input).extract 0 (sizeAt shapes input) =
        call.deviceRead input := by
      rw [← (intact.deviceRead_of_handle hof).2, Array.extract_size]
    rw [← hsize]
    simp only [Device.runOp, exec_bind, intact.exec_deviceLoad binds hinput (Nat.le_refl _),
      intact.exec_deviceLoad binds hslot (Nat.le_of_eq hone.symm), exec_ofExcept, hparam, orFault,
      helem, hwhole]
    exact exec_save binds hslot hhandle (by simp [hold, hone])
  | scan | store | print | call => simp [Kernel.opIn?] at hin

/-- A kernel over bound buffers comes to run its operations. -/
theorem exec_run (impl : plan.Implements f region) (intact : call.Intact f shapes origin)
    (binds : call.Binds plan.bindings handles) (size : Nat) :
    exec (Device.run plan.kernel handles size) call.machine.device =
      exec (plan.kernel.body.forM (Device.runOp plan.kernel handles size))
        call.machine.device := by
  have hlength : handles.length = plan.kernel.params.length := by
    rw [length_of_map_some binds, impl.length_params]
  have live : ∀ slot ∈ plan.kernel.params.zip handles, ∃ buffer,
      call.machine.device.buffers.get? slot.2 = some buffer ∧ buffer.elem = slot.1.elem := by
    rintro ⟨param, handle⟩ hmem
    obtain ⟨i, hi⟩ := List.getElem?_of_mem hmem
    rw [List.getElem?_zip_eq_some] at hi
    obtain ⟨id, hid, hof⟩ := get?_of_map_some' binds hi.2
    obtain ⟨found, hfound, helem⟩ := param_elem impl hid
    rw [hi.1, Option.some.injEq] at hfound
    subst hfound
    obtain ⟨buffer, _, hbuffer, hsame, _⟩ := intact.buffer_of_handle hof
    exact ⟨buffer, hbuffer, hsame.trans helem.symm⟩
  rw [Device.run, if_pos hlength, exec_bind_of_ok (Device.exec_checkBindings live)]

end Intact

end Call

end ArrayOffload
