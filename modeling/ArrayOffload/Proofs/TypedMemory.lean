import ArrayOffload.Proofs.Safety

/-!
# Typed memory

Elements travel as doubles whatever their type is, and every write coerces them: operations on the
host to the type of the declaration, kernels to the type of their parameter, transfers to the type
of the buffer. These types are one and the same, so no memory of a call ever has an element that
its array cannot hold. Nothing is asked of the steps, of the order they come in or of what host
functions reply.

* `Call.Typed`: the invariant, with one lemma for each change of a memory;
* `Call.typed_copyIn`, `Call.typed_copyOut`, `Call.typed_launch`, `Call.typed_hostWork`: its parts;
* `Call.typed_step`: one step keeps it, however the step ends;
* `Call.typed_body`: so does a whole call.
-/

namespace ArrayOffload

namespace Call

/-- All elements in the memories of a call are values of their array's type. `origin` is the call
before its first step: which arrays share memory, and the programs, are still as they were. -/
structure Typed (f : Func) (shapes : List Shape) (origin call : Call) : Prop where
  intact : call.Intact f shapes call.machine.device
  programs : call.machine.device.programs = origin.machine.device.programs
  kinds : call.host.map Storage.handle? = origin.host.map Storage.handle?
  copies : ∀ id, call.tracker.isCopied id = true → call.Owns id
  host : ∀ {id : ArrayId} {cells : Cells}, call.cells? id = some cells →
    Settled (f.elemOf id) cells
  device : ∀ {id : ArrayId} {cells : Cells}, call.deviceCells? id = some cells →
    Settled (f.elemOf id) cells

theorem Intact.self {f : Func} {shapes : List Shape} {origin : Device} {call : Call}
    (intact : call.Intact f shapes origin) : call.Intact f shapes call.machine.device :=
  { intact with programs := rfl, failLaunch := rfl, scarce := rfl }

variable {f : Func} {args : List ArrayValue} {shapes : List Shape} {table : HostTable}
  {origin call : Call}

/-! ## Changes of a memory -/

/-- A new buffer is seen by its array only. -/
theorem Intact.deviceCells?_alloc_eq {start : Device} (intact : call.Intact f shapes start)
    {id : ArrayId} (howns : call.Owns id) (h : call.buffers[id]? = some none) (elem : Elem)
    (cells : Cells) (other : ArrayId) :
    (call.alloc id elem cells).deviceCells? other =
      if other = id then some cells else call.deviceCells? other := by
  have hhost : (call.alloc id elem cells).host = call.host := rfl
  split
  · next heq =>
    subst heq
    obtain ⟨own, hs⟩ := howns
    simp [deviceCells?, handleOf?, hhost, hs, buffers_alloc h, Device.cells?, get?_alloc]
  · next hne =>
    have hhandle : (call.alloc id elem cells).handleOf? other = call.handleOf? other := by
      simp only [handleOf?, hhost, buffers_alloc h, if_neg hne]
    cases hkey : call.handleOf? other with
    | none => simp [deviceCells?, hhandle, hkey]
    | some key =>
      obtain ⟨_, held, _, _, hcells, _⟩ := intact.buffer_of_handle hkey
      have hheld : call.deviceCells? other = some held := by simp [deviceCells?, hkey, hcells]
      rw [hheld, intact.deviceCells?_alloc howns h elem cells hheld]

namespace Typed

theorem of_sameMemory {other : Call} (typed : Typed f shapes origin call)
    (same : SameMemory other call) (hbindings : other.tracker.bindings = call.tracker.bindings) :
    Typed f shapes origin other where
  intact := (typed.intact.of_sameMemory same).self
  programs := same.programs.trans typed.programs
  kinds := same.host ▸ typed.kinds
  copies id h := by
    rw [Tracker.isCopied_congr hbindings] at h
    rw [Owns, same.host]
    exact typed.copies id h
  host h := typed.host (same.cells?_eq ▸ h)
  device h := typed.device (same.deviceCells?_eq ▸ h)

theorem track (typed : Typed f shapes origin call) {step : Tracker → ArrayId → Tracker}
    (hlocal : Tracker.Local step) (ids : List ArrayId) :
    Typed f shapes origin { call with tracker := ids.foldl step call.tracker } :=
  typed.of_sameMemory ⟨rfl, rfl, rfl, rfl, rfl, rfl, rfl, rfl⟩ (hlocal.bindings_foldl ids call.tracker)

theorem setHost (typed : Typed f shapes origin call) {id : ArrayId} (howns : call.Owns id)
    {cells : Cells} (hsize : cells.size = sizeAt shapes id)
    (hsettled : Settled (f.elemOf id) cells) : Typed f shapes origin (call.setHost id cells) where
  intact := (typed.intact.setHost howns hsize).self
  programs := typed.programs
  kinds := (handle?_setHost howns cells).trans typed.kinds
  copies other h := (howns.setHost_iff cells other).mpr (typed.copies other h)
  host {other own} h := by
    rw [cells?_setHost howns] at h
    split at h
    · next heq =>
      cases h
      exact heq ▸ hsettled
    · exact typed.host h
  device {other own} h := by
    rw [deviceCells?_setHost howns] at h
    exact typed.device h

theorem setBuffer (typed : Typed f shapes origin call) {id : ArrayId} {handle : Nat}
    (hbuffer : call.buffers[id]? = some (some handle)) {cells : Cells}
    (hsize : cells.size = sizeAt shapes id) (hsettled : Settled (f.elemOf id) cells) :
    Typed f shapes origin (call.setBuffer handle (f.elemOf id) cells) where
  intact := (typed.intact.setBuffer hbuffer hsize).self
  programs := typed.programs
  kinds := typed.kinds
  copies := typed.copies
  host := typed.host
  device {other own} h := by
    rw [typed.intact.deviceCells?_setBuffer hbuffer] at h
    split at h
    · next heq =>
      cases h
      exact heq ▸ hsettled
    · exact typed.device h

/-- Arrays that name the same memory have the same type. -/
theorem setPool (typed : Typed f shapes origin call) {id : ArrayId} {handle : Nat}
    (hs : call.host[id]? = some (.shared handle)) {cells : Cells}
    (hsize : cells.size = sizeAt shapes id) (hsettled : Settled (f.elemOf id) cells) :
    Typed f shapes origin (call.setPool handle cells) := by
  have shares : ∀ {other : ArrayId}, call.sharedHandle? other = some handle →
      Settled (f.elemOf other) cells := by
    intro other h
    have hmine := (typed.intact.shared hs).1
    have hother := (typed.intact.shared (sharedHandle?_eq_some.mp h)).1
    rw [hmine, Option.some.injEq, Buffer.shared.injEq] at hother
    exact hother ▸ hsettled
  refine ⟨(typed.intact.setPool hs hsize).self, typed.programs, typed.kinds, typed.copies,
    fun {other own} h => ?_, fun {other own} h => ?_⟩
  · rw [cells?_setPool] at h
    split at h
    · next hshared =>
      cases h
      exact shares hshared
    · exact typed.host h
  · rw [typed.intact.deviceCells?_setPool hs hsize] at h
    split at h
    · next hshared =>
      cases h
      exact shares hshared
    · exact typed.device h

theorem alloc (typed : Typed f shapes origin call) {id : ArrayId} (howns : call.Owns id)
    (hnone : call.buffers[id]? = some none) {cells : Cells} (hsize : cells.size = sizeAt shapes id)
    (hsettled : Settled (f.elemOf id) cells) :
    Typed f shapes origin (call.alloc id (f.elemOf id) cells) where
  intact := (typed.intact.alloc howns hnone hsize).self
  programs := typed.programs
  kinds := typed.kinds
  copies := typed.copies
  host := typed.host
  device {other own} h := by
    rw [typed.intact.deviceCells?_alloc_eq howns hnone] at h
    split at h
    · next heq =>
      cases h
      exact heq ▸ hsettled
    · exact typed.device h

/-- A write on the host. -/
theorem withCells (typed : Typed f shapes origin call) {id : ArrayId} (hid : id < f.arrays.length)
    {cells : Cells} (hsize : cells.size = sizeAt shapes id)
    (hsettled : Settled (f.elemOf id) cells) : Typed f shapes origin (call.withCells id cells) := by
  obtain ⟨storage, hs⟩ := typed.intact.exists_storage hid
  cases storage with
  | owned own =>
    rw [withCells_of_owns ⟨own, hs⟩]
    exact typed.setHost ⟨own, hs⟩ hsize hsettled
  | shared handle =>
    rw [withCells_of_shared hs]
    exact typed.setPool hs hsize hsettled

/-- A write on the device. -/
theorem deviceWrite (typed : Typed f shapes origin call) {id : ArrayId} {handle : Nat}
    (hhandle : call.handleOf? id = some handle) {cells : Cells}
    (hsize : cells.size = sizeAt shapes id) (hsettled : Settled (f.elemOf id) cells) :
    Typed f shapes origin (call.withDevice (call.machine.device.withCells handle cells)) := by
  unfold handleOf? at hhandle
  split at hhandle
  · cases hhandle
  · have hbuffer := Option.join_eq_some_iff.mp hhandle
    obtain ⟨_, old, hold, _⟩ := typed.intact.buffer hbuffer
    rw [withCells_buffer hold]
    exact typed.setBuffer hbuffer hsize hsettled
  · next hs =>
    cases hhandle
    rw [withCells_shared_buffer (typed.intact.shared hs).1]
    exact typed.setPool hs hsize hsettled

theorem storeAll (typed : Typed f shapes origin call) {stores : List (ArrayId × Cells)}
    (fits : ∀ entry ∈ stores, entry.1 < f.arrays.length ∧ entry.2.size = sizeAt shapes entry.1 ∧
      Settled (f.elemOf entry.1) entry.2) : Typed f shapes origin (call.storeAll stores) := by
  induction stores generalizing call with
  | nil => exact typed
  | cons entry rest ih =>
    obtain ⟨hlt, hsize, hsettled⟩ := fits entry (by simp)
    exact ih (typed.withCells hlt hsize hsettled) fun other ho => fits other (by simp [ho])

theorem settled_read (typed : Typed f shapes origin call) {id : ArrayId}
    (hid : id < f.arrays.length) : Settled (f.elemOf id) (call.read id) :=
  typed.host (typed.intact.sized.cells? hid)

/-- The same arrays are in shared memory as in the beginning. -/
theorem shared_iff (typed : Typed f shapes origin call) {id : ArrayId} {handle : Nat} :
    call.host[id]? = some (.shared handle) ↔ origin.host[id]? = some (.shared handle) := by
  rw [← sharedHandle?_eq_some, ← sharedHandle?_eq_some, sharedHandle?, sharedHandle?,
    ← List.getElem?_map, typed.kinds, List.getElem?_map]

/-- An armed failure of the next launch is no part of a memory. -/
theorem disarm (typed : Typed f shapes origin call) :
    Typed f shapes origin (call.withDevice { call.machine.device with failLaunch := none }) :=
  ⟨{ typed.intact with programs := rfl, failLaunch := rfl }, typed.programs, typed.kinds,
    typed.copies, typed.host, typed.device⟩

end Typed

/-! ## Single actions -/

theorem typed_checkReadable (location : Location) (id : ArrayId) :
    Maintains (Typed f shapes origin) (checkReadable location id) :=
  Maintains.of_state fun call typed => by
    rw [exec_checkReadable]
    exact typed

theorem typed_track {step : Tracker → ArrayId → Tracker} (hlocal : Tracker.Local step)
    (id : ArrayId) : Maintains (Typed f shapes origin) (Call.track (step · id)) :=
  fun _ typed => typed.track hlocal [id]

theorem Typed.allocates : Allocates f shapes (Typed f shapes origin) :=
  ⟨fun typed => ⟨_, typed.intact⟩, fun typed howns hnone =>
    typed.alloc howns hnone (by simp) (Elem.settled_replicate _ _)⟩

/-! ## Transfers -/

/-- The device coerces what comes in, to the type of the buffer. -/
theorem typed_copyIn (res : Shapes.Resolved f args table shapes) {id : ArrayId}
    (hid : id < f.arrays.length) :
    Maintains (Typed f shapes origin) (copyIn f shapes id) := by
  obtain ⟨decl, hdecl⟩ := Func.exists_decl hid
  obtain ⟨shape, hshape⟩ := res.exists_shape hid
  refine (typed_checkReadable .host id).bind fun _ => Maintains.of_state fun call typed => ?_
  simp only [exec_bind, exec_get]
  split
  · next hcopied =>
    have howns := typed.copies id hcopied
    simp only [exec_bind, exec_expect, hdecl, orFault, exec_sizeOf hshape,
      ← Func.elemOf_eq hdecl]
    rcases Typed.allocates.bufferOf_cases typed howns rfl with
      ⟨stop, hexec, _⟩ | ⟨handle, mid, hexec, grows, hbuffer, hmid⟩
    · simp only [hexec]
      exact typed
    · obtain ⟨_, old, hold, holdSize⟩ := hmid.intact.buffer hbuffer
      have hlive : mid.machine.device.cells? handle = some old := by simp [Device.cells?, hold]
      have hread := hmid.intact.sized.size_read hid
      simp only [hexec, exec_load, hmid.intact.sized.cells? hid, orFault, exec_onDevice,
        Device.exec_copyIn hold hlive (holdSize.trans hread.symm), Buffer.elem, mapError_ok,
        countTransfer, exec_modify, exec_record, exec_track]
      have written := hmid.deviceWrite (handleOf?_of_buffer (grows.owns howns) hbuffer)
        ((Array.size_map ..).trans hread) (Elem.settled_map _ (mid.read id))
      exact written.of_sameMemory ⟨rfl, rfl, rfl, rfl, rfl, rfl, rfl, rfl⟩
        (Tracker.local_copyIn.bindings mid.tracker id)
  · exact typed.track Tracker.local_copyIn [id]

/-- The host stores what the device has, which is of the right type already. -/
theorem typed_copyOut (res : Shapes.Resolved f args table shapes) {id : ArrayId}
    (hid : id < f.arrays.length) :
    Maintains (Typed f shapes origin) (copyOut f shapes id) := by
  obtain ⟨decl, hdecl⟩ := Func.exists_decl hid
  obtain ⟨shape, hshape⟩ := res.exists_shape hid
  refine (typed_checkReadable .device id).bind fun _ => Maintains.of_state fun call typed => ?_
  simp only [exec_bind, exec_get]
  split
  · next hcopied =>
    have howns := typed.copies id hcopied
    simp only [exec_bind, exec_expect, hdecl, orFault, exec_sizeOf hshape,
      ← Func.elemOf_eq hdecl]
    rcases Typed.allocates.bufferOf_cases typed howns rfl with
      ⟨stop, hexec, _⟩ | ⟨handle, mid, hexec, grows, hbuffer, hmid⟩
    · simp only [hexec]
      exact typed
    · have hhandle := handleOf?_of_buffer (grows.owns howns) hbuffer
      obtain ⟨_, cells, hold, _, hlive, hsize⟩ := hmid.intact.buffer_of_handle hhandle
      have hsettled : Settled (f.elemOf id) cells := by
        refine hmid.device ?_
        simp only [deviceCells?, hhandle, Option.bind_some, hlive]
      have hcounted : Typed f shapes origin (mid.withDevice (mid.machine.device.counting
          fun c => { c with copyOuts := c.copyOuts + 1 })) :=
        hmid.of_sameMemory ⟨rfl, rfl, rfl, rfl, rfl, rfl, rfl, rfl⟩ rfl
      rcases zeros_cases mid.machine.device (.transfer id) (f.elemOf id) (sizeAt shapes id) with
        ⟨reason, _, hzeros⟩ | ⟨_, hzeros⟩
      · simp only [hexec, exec_get, exec_ofExcept, hzeros]
        exact hmid
      · simp only [hexec, exec_get, exec_ofExcept, hzeros, Array.size_replicate, exec_onDevice,
          Device.exec_copyOut hold hlive hsize, mapError_ok,
          exec_store_sized hcounted.intact.sized hid hsize, countTransfer, exec_modify,
          exec_record, exec_track]
        exact (hcounted.withCells hid hsize hsettled).of_sameMemory
          ⟨rfl, rfl, rfl, rfl, rfl, rfl, rfl, rfl⟩ (Tracker.local_copyOut.bindings _ id)
  · exact typed.track Tracker.local_copyOut [id]

/-! ## Launches -/

section
variable {region : Region} {plan : LaunchPlan} {handles : List Nat}

/-- An operation with a kernel form fills its target, whatever is read. -/
theorem size_result_of_opIn (wf : f.Checked) (res : Shapes.Resolved f args table shapes) {op : Op}
    (hop : op ∈ f.body) {kernelOp : KernelOp} (hin : Kernel.opIn? plan.bindings op = some kernelOp)
    {out : ArrayId} (hout : op.writes = [out]) (read : ArrayId → Cells) :
    (op.result f shapes read).size = sizeAt shapes out := by
  cases op with
  | map target op operands =>
    cases hout
    simp [Op.result, Eval.mapCells]
  | reduce target op input =>
    cases hout
    rw [Op.sizeAt_reduce_target wf res hop]
    rfl
  | scan | store | print | call => simp [Kernel.opIn?] at hin

/-- One kernel operation. It coerces to the type of its parameter, which is that of the array. -/
theorem Typed.runOp (wf : f.Checked) (res : Shapes.Resolved f args table shapes)
    (sound : region.Sound f) (impl : plan.Implements f region)
    (typed : Typed f shapes origin call) (binds : call.Binds plan.bindings handles) {op : Op}
    (hop : op ∈ region.ops f) {kernelOp : KernelOp}
    (hin : Kernel.opIn? plan.bindings op = some kernelOp) :
    ∃ device,
      exec (Device.runOp plan.kernel handles (sizeAt shapes region.space.extentOf) kernelOp)
        call.machine.device = (.ok (), device) ∧
      Typed f shapes origin (call.withDevice device) := by
  have hbody := Region.mem_body hop
  obtain ⟨kind, _, hkind⟩ := sound.parallel hop
  have hparallel : op.parallelKind?.isSome = true := by simp [hkind]
  obtain ⟨out, hout⟩ := Op.exists_target hparallel
  have hbound : out ∈ plan.bindings := impl.mem_bindings sound hop (by simp [hout])
  obtain ⟨handle, _, hhandle⟩ := get?_of_map_some binds (Kernel.get?_slotIn hbound)
  exact ⟨_, typed.intact.exec_runOp wf res sound impl binds hop hin hout hhandle,
    typed.deviceWrite hhandle (size_result_of_opIn wf res hbody hin hout _)
      (Op.settled_result hout)⟩

/-- The operations of a kernel, one after the other. -/
theorem Typed.runOps (wf : f.Checked) (res : Shapes.Resolved f args table shapes)
    (sound : region.Sound f) (impl : plan.Implements f region)
    (typed : Typed f shapes origin call) (binds : call.Binds plan.bindings handles)
    {ops : List Op} (hops : ∀ op ∈ ops, op ∈ region.ops f) {body : List KernelOp}
    (hbody : ops.map (Kernel.opIn? plan.bindings) = body.map some) :
    ∃ device,
      exec (body.forM (Device.runOp plan.kernel handles (sizeAt shapes region.space.extentOf)))
        call.machine.device = (.ok (), device) ∧
      Typed f shapes origin (call.withDevice device) := by
  induction ops generalizing body call with
  | nil =>
    obtain rfl : body = [] := by simpa using hbody.symm
    exact ⟨call.machine.device, rfl, typed⟩
  | cons op rest ih =>
    cases body with
    | nil => simp at hbody
    | cons kernelOp body =>
      simp only [List.map_cons, List.cons.injEq] at hbody
      obtain ⟨device, hrun, hmid⟩ := typed.runOp wf res sound impl binds
        (hops op (by simp)) hbody.1
      -- no operation changes which buffers there are
      obtain ⟨final, hruns, hfinal⟩ := ih hmid binds (fun other ho => hops other (by simp [ho]))
        hbody.2
      refine ⟨final, ?_, hfinal⟩
      rw [exec_forM_cons, hrun]
      exact hruns

theorem typed_launch (wf : f.WellFormed) (res : Shapes.Resolved f args table shapes)
    {signature : Signature} (accepted : signature.Accepts f args) {kernel : CompiledKernel}
    (sound : region.Sound f) (impl : kernel.plan.Implements f region)
    (loaded : origin.machine.device.programs.get? kernel.program = some kernel.plan.kernel) :
    Maintains (Typed f shapes origin) (launch f shapes kernel) := by
  have hslots : (kernel.plan.kernel.params.zip kernel.plan.bindings).map (·.2) =
      kernel.plan.bindings := List.map_snd_zip (Nat.le_of_eq impl.length_params.symm)
  have declared : ∀ slot ∈ kernel.plan.kernel.params.zip kernel.plan.bindings,
      slot.2 < f.arrays.length := fun slot hmem => bindings_declared impl (List.of_mem_zip hmem).2
  obtain ⟨grid, hgrid, hrank, hcount, hsize⟩ := grid_rank wf res accepted sound impl
  refine Maintains.of_state fun call typed => ?_
  rw [Call.launch, exec_bind]
  rcases Typed.allocates.bindSlots_cases res typed declared rfl with
    ⟨stop, after, hexec, hafter, _⟩ | ⟨handles, mid, hexec, grows, binds, hmid, _⟩
  · simp only [hexec]
    exact hafter
  · rw [hslots] at binds
    simp only [hexec, exec_bind, exec_expect, hgrid, orFault, exec_record, exec_onDevice,
      Machine.record]
    cases hfail : mid.machine.device.failLaunch with
    | some reason =>
      simp only [Device.exec_launch_injected hfail, mapError_error]
      exact hmid.disarm.of_sameMemory ⟨rfl, rfl, rfl, rfl, rfl, rfl, rfl, rfl⟩ rfl
    | none =>
      obtain ⟨device, hrun, hdevice⟩ := hmid.runOps wf.toChecked res sound impl binds
        (fun _ h => h) impl.ops
      rw [← hsize, ← hmid.intact.exec_run impl binds] at hrun
      have hprogram : mid.machine.device.programs.get? kernel.program =
          some kernel.plan.kernel := by rw [hmid.programs, loaded]
      simp only [Device.exec_launch hfail hprogram hrank hcount hrun, mapError_ok, exec_modify,
        exec_trackAll Tracker.deviceWrite (fun slot : KernelParam × ArrayId => slot.2)]
      exact hdevice.of_sameMemory ⟨rfl, rfl, rfl, rfl, rfl, rfl, rfl, rfl⟩
        (Tracker.local_deviceWrite.bindings_foldl _ _)

end

/-! ## Work on the host -/

/-- An operation of the body, whatever a host function replies. -/
theorem typed_hostOp (wf : f.Checked) (res : Shapes.Resolved f args table shapes)
    {op : Op} (hop : op ∈ f.body) :
    Maintains (Typed f shapes origin) (hostOp f shapes table op) := by
  refine Maintains.of_state fun call typed => ?_
  have sized := typed.intact.sized
  rw [exec_hostOp wf res sized hop]
  cases heffect : op.effect f shapes table call.read with
  | error stop => exact typed
  | ok effect =>
    have hsaid : Typed f shapes origin ((call.note effect.notes).say effect.lines) :=
      typed.of_sameMemory ⟨rfl, rfl, rfl, rfl, rfl, rfl, rfl, rfl⟩ rfl
    refine hsaid.storeAll fun entry hentry => ?_
    obtain ⟨hlt, hsize⟩ := sized.stores_fit wf res hop heffect entry hentry
    exact ⟨hlt, hsize, Op.settled_of_mem_stores heffect hentry (typed.settled_read hlt)⟩

theorem typed_hostWork (wf : f.Checked) (res : Shapes.Resolved f args table shapes)
    (checked writes : List ArrayId) {ops : List Op} (hops : ∀ op ∈ ops, op ∈ f.body) :
    Maintains (Typed f shapes origin) (hostWork f shapes table checked writes ops) :=
  (Ensures.forM checked fun id _ => typed_checkReadable .host id).bind fun _ =>
    (Ensures.forM ops fun _ hop => typed_hostOp wf res (hops _ hop)).bind fun _ =>
      Ensures.forM writes fun id _ => typed_track Tracker.local_hostWrite id

/-! ## Steps -/

section
variable {signature : Signature} {unit : CompiledUnit} (sound : unit.Sound)
  (res : Shapes.Resolved unit.function args table shapes)
  (accepted : signature.Accepts unit.function args) (loaded : unit.Loaded origin.machine.device)

include sound res accepted loaded

/-- One step, whether it succeeds or stops. -/
theorem typed_step {step : Step} (indexed : step.WellIndexed unit) :
    Maintains (Typed unit.function shapes origin) (Call.step unit shapes table step) := by
  have wf := sound.wellFormed
  cases step with
  | copyIn id => exact typed_copyIn res indexed
  | copyOut id => exact typed_copyOut res indexed
  | launch index =>
    have hmem := List.getElem_mem (l := unit.kernels) indexed
    obtain ⟨region, hregion, impl⟩ := sound.kernels _ hmem
    exact ensures_expect (List.getElem?_eq_getElem indexed)
      (typed_launch wf res accepted (sound.regions hregion) impl (loaded _ hmem))
  | hostRegion index =>
    exact ensures_expect (List.getElem?_eq_getElem indexed)
      (typed_hostWork wf.toChecked res _ _ fun _ => Region.mem_body)
  | hostOp index =>
    have hop := List.getElem_mem (l := unit.function.body) indexed
    refine ensures_expect (List.getElem?_eq_getElem indexed) ?_
    exact (typed_hostWork wf.toChecked res _ _ (by simpa using hop)).congr
      (exec_singleOp _ _ _ _)

theorem typed_steps {steps : List Step} (indexed : ∀ step ∈ steps, step.WellIndexed unit) :
    Maintains (Typed unit.function shapes origin) (steps.forM (Call.step unit shapes table)) :=
  Ensures.forM steps fun step hstep =>
    typed_step sound res accepted loaded (indexed step hstep)

/-- A whole call, and the array that it returns. -/
theorem typed_body (indexed : ∀ step ∈ unit.steps, step.WellIndexed unit) :
    Ensures (Typed unit.function shapes origin) (body unit shapes table args)
      (fun outcome final => Typed unit.function shapes origin final ∧
        outcome.returned = unit.function.returns.bind
          (returnValue unit.function shapes args final))
      fun _ => Typed unit.function shapes origin := by
  refine Ensures.bind (typed_steps sound res accepted loaded indexed) fun _ => ?_
  refine Ensures.get fun call _ => Ensures.bind
    (Ensures.forM _ fun binding _ => typed_checkReadable .host binding.array) fun _ => ?_
  intro after typed
  rw [exec_bind_of_ok (exec_returned sound.wellFormed.toChecked res accepted typed.intact.sized)]
  exact ⟨typed, rfl⟩

end

end Call

end ArrayOffload
