import ArrayOffload.Proofs.DeviceSafety
import ArrayOffload.Proofs.Meaning
import ArrayOffload.Proofs.Planning

/-!
# Calls never fault

A function that passes its check, with arguments that were accepted, is lowered without a fault,
and calls of the unit end with a result or with an error that they can name. Two things are left to
the caller, since the check does not see them: every array in the role of a parameter names a
position that there is, and it has as many elements as the argument at that position, even if it
takes its shape from elsewhere. Without the first, lowering faults; without the second, a call may.

* `Call.Secure`: what every step of a call keeps;
* `Call.secure_step`: one step, with one lemma for each kind;
* `Call.secure_body`: a whole call;
* `Lowering.run_safe`: lowering and calls of checked functions;
* `Func.unmatched_faults`: a checked function whose call faults.
-/

namespace ArrayOffload

namespace Call

/-- What every step keeps: all sizes, a state and perhaps a buffer for each array, memory behind
each buffer and behind the handles in use, and the programs on the device. -/
structure Secure (f : Func) (shapes : List Shape) (programs : HandleTable Kernel)
    (handles : List Nat) (call : Call) : Prop where
  sized : call.Sized f shapes
  covers : call.tracker.Covers f.arrays.length
  bound : ∀ binding ∈ call.tracker.bindings, binding.array < f.arrays.length
  buffers : call.buffers.length = f.arrays.length
  readable : ∀ {id : ArrayId} {handle : Nat}, call.buffers[id]? = some (some handle) →
    call.machine.device.Readable handle
  inUse : ∀ handle ∈ handles, call.machine.device.Readable handle
  programs : call.machine.device.programs = programs

variable {f : Func} {args : List ArrayValue} {shapes : List Shape} {table : HostTable}
  {programs : HandleTable Kernel} {handles : List Nat} {call : Call}

/-! ## Changes of the state -/

namespace Secure

theorem congr (secure : call.Secure f shapes programs handles) {other : Call}
    (hhost : other.host = call.host) (hbuffers : other.buffers = call.buffers)
    (htracker : other.tracker = call.tracker)
    (hdevice : other.machine.device = call.machine.device) :
    other.Secure f shapes programs handles where
  sized := by
    intro id hid
    simpa only [Call.cells?, hhost, hdevice] using secure.sized id hid
  covers := htracker ▸ secure.covers
  bound := htracker ▸ secure.bound
  buffers := hbuffers ▸ secure.buffers
  readable h := hdevice ▸ secure.readable (hbuffers ▸ h)
  inUse := hdevice ▸ secure.inUse
  programs := hdevice ▸ secure.programs

theorem use (secure : call.Secure f shapes programs handles) {handle : Nat}
    (h : call.machine.device.Readable handle) :
    call.Secure f shapes programs (handles ++ [handle]) :=
  ⟨secure.sized, secure.covers, secure.bound, secure.buffers, secure.readable,
    List.forall_mem_append.mpr ⟨secure.inUse, by simpa using h⟩, secure.programs⟩

theorem forget (secure : call.Secure f shapes programs handles) :
    call.Secure f shapes programs [] :=
  ⟨secure.sized, secure.covers, secure.bound, secure.buffers, secure.readable, nofun,
    secure.programs⟩

theorem track (secure : call.Secure f shapes programs handles)
    {step : Tracker → ArrayId → Tracker} (hlocal : Tracker.Local step) (ids : List ArrayId) :
    { call with tracker := ids.foldl step call.tracker }.Secure f shapes programs handles :=
  ⟨secure.sized, hlocal.covers_foldl ids secure.covers,
    hlocal.bindings_foldl ids call.tracker ▸ secure.bound, secure.buffers, secure.readable,
    secure.inUse, secure.programs⟩

theorem withDevice (secure : call.Secure f shapes programs handles) {device : Device}
    (retained : call.machine.device.Retains device) :
    (call.withDevice device).Secure f shapes programs handles where
  sized := by
    intro id hid
    obtain ⟨cells, hcells, hsize⟩ := secure.sized id hid
    cases hs : call.host[id]? with
    | none => simp [Call.cells?, hs] at hcells
    | some storage =>
      cases storage with
      | owned own =>
        refine ⟨cells, ?_, hsize⟩
        simpa [Call.cells?, Call.withDevice, hs] using hcells
      | shared handle =>
        simp only [Call.cells?, hs] at hcells
        obtain ⟨new, hnew, hsame⟩ := retained.pool hcells
        refine ⟨new, ?_, hsame.trans hsize⟩
        simpa [Call.cells?, Call.withDevice, hs, Device.shared?] using hnew
  covers := secure.covers
  bound := secure.bound
  buffers := secure.buffers
  readable h := retained.readable (secure.readable h)
  inUse handle h := retained.readable (secure.inUse handle h)
  programs := retained.programs.trans secure.programs

theorem withCells (secure : call.Secure f shapes programs handles) {id : ArrayId}
    (hid : id < f.arrays.length) {cells : Cells} (hsize : cells.size = sizeAt shapes id) :
    (call.withCells id cells).Secure f shapes programs handles := by
  have hsized := secure.sized.withCells hid hsize
  unfold Call.withCells at hsized ⊢
  split at hsized
  · exact secure
  · exact ⟨hsized, secure.covers, secure.bound, secure.buffers, secure.readable, secure.inUse,
      secure.programs⟩
  · exact ⟨hsized, secure.covers, secure.bound, secure.buffers,
      fun h => Device.Readable.withShared (secure.readable h) _ cells,
      fun handle h => Device.Readable.withShared (secure.inUse handle h) _ cells, secure.programs⟩

theorem storeAll (secure : call.Secure f shapes programs handles)
    {stores : List (ArrayId × Cells)}
    (fits : ∀ entry ∈ stores, entry.1 < f.arrays.length ∧ entry.2.size = sizeAt shapes entry.1) :
    (call.storeAll stores).Secure f shapes programs handles := by
  induction stores generalizing call with
  | nil => exact secure
  | cons entry rest ih =>
    obtain ⟨hlt, hsize⟩ := fits entry (by simp)
    exact ih (secure.withCells hlt hsize) fun other ho => fits other (by simp [ho])

/-- A new buffer can be read. -/
theorem alloc (secure : call.Secure f shapes programs handles) {id : ArrayId}
    (h : call.buffers[id]? = some none) (elem : Elem) (cells : Cells) :
    (call.alloc id elem cells).Secure f shapes programs
      (handles ++ [call.machine.device.lastHandle + 1]) := by
  have hnew := Device.readable_allocated call.machine.device elem cells
  have hmid := secure.withDevice (call.machine.device.retains_allocated elem cells)
  have halloc : (call.alloc id elem cells).Secure f shapes programs handles := by
    refine ⟨hmid.sized, hmid.covers, hmid.bound, ?_, fun {other handle} ho => ?_, hmid.inUse,
      hmid.programs⟩
    · simpa [Call.alloc] using secure.buffers
    · rw [buffers_alloc h] at ho
      split at ho
      · cases ho
        exact hnew
      · exact hmid.readable ho
  exact halloc.use hnew

end Secure

/-! ## Single actions -/

/-- Work that keeps a call secure and stops for reasons that it can name. -/
abbrev Securely {α : Type} (f : Func) (shapes : List Shape) (programs : HandleTable Kernel)
    (handles : List Nat) (work : CallM α) : Prop :=
  Ensures (Secure f shapes programs handles) work (fun _ => Secure f shapes programs handles)
    fun stop _ => stop ≠ .fault

theorem ensures_expect {α β : Type} {found : Option α} {a : α} (h : found = some a)
    {pre : Call → Prop} {next : α → CallM β} {post : β → Call → Prop}
    {fails : Stop OffloadError → Call → Prop} (hnext : Ensures pre (next a) post fails) :
    Ensures pre (expect found >>= next) post fails := by
  intro call hcall
  have hfound : exec (expect found) call = (.ok a, call) := by rw [exec_expect, h, orFault]
  rw [exec_bind_of_ok hfound]
  exact hnext call hcall

theorem ensures_sizeOf {β : Type} (res : Shapes.Resolved f args table shapes) {id : ArrayId}
    (hid : id < f.arrays.length) {pre : Call → Prop} {next : Nat → CallM β}
    {post : β → Call → Prop} {fails : Stop OffloadError → Call → Prop}
    (hnext : Ensures pre (next (sizeAt shapes id)) post fails) :
    Ensures pre (sizeOf shapes id >>= next) post fails := by
  intro call hcall
  obtain ⟨shape, hshape⟩ := res.exists_shape hid
  rw [exec_bind_of_ok (exec_sizeOf hshape)]
  exact hnext call hcall

/-- A check of a declared array passes or is reported. -/
theorem secure_checkReadable {id : ArrayId} (hid : id < f.arrays.length) (location : Location) :
    Securely f shapes programs handles (checkReadable location id) := by
  intro call secure
  rw [exec_checkReadable]
  cases hcheck : call.tracker.checkReadable id location with
  | ok => exact secure
  | error stop =>
    obtain ⟨name, state, rfl⟩ := Tracker.checkReadable_eq_error secure.covers hid hcheck
    nofun

theorem secure_load {id : ArrayId} (hid : id < f.arrays.length) :
    Securely f shapes programs handles (load id) := by
  intro call secure
  rw [exec_load, secure.sized.cells? hid]
  exact secure

/-- A change of counts, output or the log. -/
theorem secure_modify {change : Call → Call}
    (h : ∀ call, (change call).host = call.host ∧ (change call).buffers = call.buffers ∧
      (change call).tracker = call.tracker ∧
      (change call).machine.device = call.machine.device) :
    Securely f shapes programs handles (modify change) := by
  refine Ensures.modify fun call secure => ?_
  obtain ⟨hhost, hbuffers, htracker, hdevice⟩ := h call
  exact secure.congr hhost hbuffers htracker hdevice

theorem secure_record (event : Event) : Securely f shapes programs handles (record event) :=
  secure_modify fun _ => ⟨rfl, rfl, rfl, rfl⟩

theorem secure_countTransfer : Securely f shapes programs handles countTransfer :=
  secure_modify fun _ => ⟨rfl, rfl, rfl, rfl⟩

theorem secure_track {step : Tracker → ArrayId → Tracker} (hlocal : Tracker.Local step)
    (id : ArrayId) : Securely f shapes programs handles (track (step · id)) :=
  fun _ secure => secure.track hlocal [id]

/-- Work of the device that retains everything. -/
theorem secure_onDevice {α : Type} {work : DeviceM α} {good : α → Prop}
    (safe : ∀ call, Secure f shapes programs handles call →
      Device.Safe call.machine.device work good) :
    Ensures (Secure f shapes programs handles) (onDevice work)
      (fun a call => Secure f shapes programs handles call ∧ good a)
      fun stop _ => stop ≠ .fault := by
  refine ensures_onDevice fun call secure => ?_
  refine (safe call secure).weaken (fun _ h => h ▸ .refl _)
    (fun _ _ ⟨retained, hgood⟩ => ⟨secure.withDevice retained, hgood⟩) fun stop _ h => ?_
  cases stop with
  | error cause => nofun
  | fault => exact absurd rfl h.1

/-- The buffer of an array is there, or is allocated, and can be read. -/
theorem secure_bufferOf {id : ArrayId} (hid : id < f.arrays.length) (elem : Elem) (length : Nat) :
    Ensures (Secure f shapes programs handles) (bufferOf id elem length)
      (fun handle => Secure f shapes programs (handles ++ [handle]))
      fun stop _ => stop ≠ .fault := by
  intro call secure
  have hlt : id < call.buffers.length := secure.buffers ▸ hid
  rw [exec_bufferOf]
  cases hbuffer : call.buffers[id]? with
  | none => exact absurd hlt (by simpa using hbuffer)
  | some found =>
    cases found with
    | some handle => exact secure.use (secure.readable hbuffer)
    | none =>
      rcases call.machine.device.zeroed_cases .buffer elem length with
        ⟨reason, _, hzeroed⟩ | ⟨_, hzeroed⟩
      · rw [hzeroed]
        exact Stop.error_ne_fault _
      · rw [hzeroed]
        exact secure.alloc hbuffer elem _

/-- Room on the host is refused, or there is as much as was asked for. -/
theorem ensures_zeros {β : Type} (device : Device) (purpose : Purpose) (elem : Elem) {length : Nat}
    {pre : Call → Prop} {next : Cells → CallM β} {post : β → Call → Prop}
    (hnext : ∀ room : Cells, room.size = length →
      Ensures pre (next room) post fun stop _ => stop ≠ .fault) :
    Ensures pre (MonadExcept.ofExcept (zeros device purpose elem length) >>= next) post
      fun stop _ => stop ≠ .fault := by
  intro call hcall
  rw [exec_bind, exec_ofExcept]
  rcases zeros_cases device purpose elem length with ⟨reason, _, hzeros⟩ | ⟨_, hzeros⟩
  · rw [hzeros]
    exact Stop.error_ne_fault _
  · rw [hzeros]
    exact hnext _ (Array.size_replicate ..) call hcall

/-! ## Transfers -/

theorem secure_copyIn (res : Shapes.Resolved f args table shapes) {id : ArrayId}
    (hid : id < f.arrays.length) : Securely f shapes programs [] (copyIn f shapes id) := by
  obtain ⟨decl, hdecl⟩ := Func.exists_decl hid
  refine (secure_checkReadable hid .host).bind fun _ => Ensures.get fun call _ => ?_
  have tracked : Securely f shapes programs [] (track (·.copyIn id)) :=
    secure_track Tracker.local_copyIn id
  dsimp only
  split
  · refine ensures_expect hdecl (ensures_sizeOf res hid ?_)
    refine (secure_bufferOf hid _ _).bind fun buffer => ?_
    refine (secure_load hid).bind fun cells => ?_
    refine (secure_onDevice fun call _ => Device.safe_copyIn _ buffer cells).bind fun _ => ?_
    refine Ensures.weaken ?_ (fun _ h => h.1.forget) (fun _ _ h => h) fun _ _ h => h
    exact secure_countTransfer.bind fun _ => (secure_record _).bind fun _ => tracked
  · exact tracked

theorem secure_copyOut (res : Shapes.Resolved f args table shapes) {id : ArrayId}
    (hid : id < f.arrays.length) : Securely f shapes programs [] (copyOut f shapes id) := by
  obtain ⟨decl, hdecl⟩ := Func.exists_decl hid
  refine (secure_checkReadable hid .device).bind fun _ => Ensures.get fun call _ => ?_
  have tracked : Securely f shapes programs [] (track (·.copyOut id)) :=
    secure_track Tracker.local_copyOut id
  dsimp only
  split
  · refine ensures_expect hdecl (ensures_sizeOf res hid ?_)
    refine (secure_bufferOf hid _ _).bind fun buffer => Ensures.get fun call _ => ?_
    refine ensures_zeros call.machine.device (.transfer id) _ fun room hroom => ?_
    rw [hroom]
    refine (secure_onDevice fun call _ => Device.safe_copyOut _ buffer _).bind fun cells => ?_
    have stored : Ensures (fun call => Secure f shapes programs ([] ++ [buffer]) call ∧
        cells.size = sizeAt shapes id) (store id cells)
        (fun _ => Secure f shapes programs []) fun stop _ => stop ≠ .fault := by
      rintro call ⟨secure, hsize⟩
      rw [exec_store_sized secure.sized hid hsize]
      exact (secure.withCells hid hsize).forget
    refine stored.bind fun _ => ?_
    exact secure_countTransfer.bind fun _ => (secure_record _).bind fun _ => tracked
  · exact tracked

/-! ## Launches -/

/-- The handle that stands for an array: that of the argument, or that of its own buffer. -/
theorem secure_bound (res : Shapes.Resolved f args table shapes) {id : ArrayId}
    (hid : id < f.arrays.length) (handles : List Nat) :
    Ensures (Secure f shapes programs handles) (do
      match ← expect (← get).host[id]? with
      | .shared handle => return handle
      | .owned _ =>
        let decl ← expect (f.decl? id)
        bufferOf id decl.elem (← sizeOf shapes id))
      (fun handle => Secure f shapes programs (handles ++ [handle]))
      fun stop _ => stop ≠ .fault := by
  obtain ⟨decl, hdecl⟩ := Func.exists_decl hid
  intro call secure
  rw [exec_bind_of_ok (exec_get call)]
  obtain ⟨cells, hcells, _⟩ := secure.sized id hid
  cases hs : call.host[id]? with
  | none => simp [Call.cells?, hs] at hcells
  | some storage =>
    cases storage with
    | shared handle =>
      simp only [Call.cells?, hs] at hcells
      exact secure.use fun _ _ => ⟨cells, hcells⟩
    | owned own =>
      exact ensures_expect hdecl (ensures_sizeOf res hid (secure_bufferOf hid _ _)) call secure

theorem secure_bindSlot (res : Shapes.Resolved f args table shapes) {slot : KernelParam × ArrayId}
    (hid : slot.2 < f.arrays.length) (handles : List Nat) :
    Ensures (Secure f shapes programs handles) (bindSlot f shapes slot)
      (fun handle => Secure f shapes programs (handles ++ [handle]))
      fun stop _ => stop ≠ .fault := by
  obtain ⟨param, id⟩ := slot
  unfold bindSlot
  dsimp only
  split
  · exact (secure_checkReadable hid .device).bind fun _ => secure_bound res hid handles
  · exact secure_bound res hid handles

theorem secure_launch (wf : f.Checked) (res : Shapes.Resolved f args table shapes)
    {region : Region} (sound : region.Sound f) {kernel : CompiledKernel}
    (impl : kernel.plan.Implements f region)
    (loaded : programs.get? kernel.program = some kernel.plan.kernel) :
    Securely f shapes programs [] (launch f shapes kernel) := by
  have declared : ∀ slot ∈ kernel.plan.kernel.params.zip kernel.plan.bindings,
      slot.2 < f.arrays.length := fun slot hslot =>
    bindings_declared impl (List.of_mem_zip hslot).2
  obtain ⟨decl, hdecl⟩ := Func.exists_decl sound.extentOf_lt
  obtain ⟨grid, hgrid⟩ := res.exists_shape sound.extentOf_lt
  have hcount := res.counted hdecl hgrid
  rw [← impl.2] at hgrid
  refine (Ensures.mapM_collect (Secure f shapes programs) _
    (fun slot hslot => secure_bindSlot res (declared slot hslot)) []).bind fun buffers => ?_
  refine Ensures.weaken ?_ (fun _ h => h.2) (fun _ _ h => h) fun _ _ h => h
  refine ensures_expect hgrid ?_
  refine (secure_record _).bind fun _ => ?_
  have safe : ∀ call, Secure f shapes programs ([] ++ buffers) call →
      Device.Safe call.machine.device (Device.launch kernel.program grid buffers)
        fun _ => True := by
    intro call secure
    refine Device.safe_launch (fun found hfound op hop => ?_) secure.inUse hcount
    rw [secure.programs, loaded, Option.some.injEq] at hfound
    subst hfound
    exact impl.slotted sound wf hop
  refine (secure_onDevice safe).bind fun _ => ?_
  refine Ensures.weaken ?_ (fun _ h => h.1.forget) (fun _ _ h => h) fun _ _ h => h
  have counted : Securely f shapes programs []
      (modify fun call => { call with launches := call.launches + 1 }) :=
    secure_modify fun _ => ⟨rfl, rfl, rfl, rfl⟩
  refine counted.bind fun _ => ?_
  exact Ensures.forM _ fun slot _ => secure_track Tracker.local_deviceWrite slot.2

/-! ## Work on the host -/

/-- An operation of the body faults only if a host function does. -/
theorem secure_hostOp (wf : f.Checked) (res : Shapes.Resolved f args table shapes)
    (total : ∀ callee hostFn request, table.find? callee = some hostFn →
      hostFn request ≠ .error .fault) {op : Op} (hop : op ∈ f.body) :
    Securely f shapes programs handles (hostOp f shapes table op) := by
  intro call secure
  rw [exec_hostOp wf res secure.sized hop]
  cases heffect : op.effect f shapes table call.read with
  | error stop =>
    rintro rfl
    obtain ⟨callee, _, _, hostFn, _, hfind, hfault⟩ := Op.effect_fault heffect
    exact total callee hostFn _ hfind hfault
  | ok effect =>
    have hsaid : ((call.note effect.notes).say effect.lines).Secure f shapes programs handles :=
      secure.congr rfl rfl rfl rfl
    exact hsaid.storeAll (secure.sized.stores_fit wf res hop heffect)

theorem secure_hostWork (wf : f.Checked) (res : Shapes.Resolved f args table shapes)
    (total : ∀ callee hostFn request, table.find? callee = some hostFn →
      hostFn request ≠ .error .fault) {checked : List ArrayId}
    (declared : ∀ id ∈ checked, id < f.arrays.length) (writes : List ArrayId) {ops : List Op}
    (hops : ∀ op ∈ ops, op ∈ f.body) :
    Securely f shapes programs handles (hostWork f shapes table checked writes ops) :=
  (Ensures.forM checked fun _ hid => secure_checkReadable (declared _ hid) .host).bind fun _ =>
    (Ensures.forM ops fun _ hop => secure_hostOp wf res total (hops _ hop)).bind fun _ =>
      Ensures.forM writes fun id _ => secure_track Tracker.local_hostWrite id

/-! ## Whole calls -/

section
variable {profile : Profile} {key : UnitKey} {partition : Partition}
  {placed : Placement.Launches} {tracker : Tracker} {draft : Draft} {unit : CompiledUnit}
  (planned : Lowering.Planned profile unit.function key partition placed tracker draft unit)
  (wf : unit.function.Checked) (res : Shapes.Resolved unit.function args table shapes)
  (total : ∀ callee hostFn request, table.find? callee = some hostFn →
    hostFn request ≠ .error .fault)
  (loaded : ∀ kernel ∈ unit.kernels,
    programs.get? kernel.program = some kernel.plan.kernel)

include planned wf res total loaded

/-- One step of a lowered unit. -/
theorem secure_step {step : Step} (indexed : step.WellIndexed unit) :
    Securely unit.function shapes programs [] (Call.step unit shapes table step) := by
  cases step with
  | copyIn id => exact secure_copyIn res indexed
  | copyOut id => exact secure_copyOut res indexed
  | launch index =>
    have hmem := List.getElem_mem (l := unit.kernels) indexed
    obtain ⟨region, hregion, impl⟩ := planned.exists_region hmem
    exact ensures_expect (List.getElem?_eq_getElem indexed)
      (secure_launch wf res (planned.region_sound hregion) impl (loaded _ hmem))
  | hostRegion index =>
    have hregion := List.getElem?_eq_getElem (l := unit.regions) indexed
    have sound := planned.region_sound hregion
    exact ensures_expect hregion (secure_hostWork wf res total
      (fun id hid => wf.region_lt sound (Region.Sound.mem_arrays.mpr (.inl hid)))
      _ fun _ => Region.mem_body)
  | hostOp index =>
    have hop := List.getElem_mem (l := unit.function.body) indexed
    refine ensures_expect (List.getElem?_eq_getElem indexed) ?_
    refine (secure_hostWork wf res total (fun id hid => wf.mem_lt hop hid) _ ?_).congr
      (exec_singleOp _ _ _ _)
    simpa using hop

theorem secure_body (accepted : unit.key.signature.Accepts unit.function args) :
    Ensures (Secure unit.function shapes programs []) (body unit shapes table args)
      (fun _ _ => True) fun stop _ => stop ≠ .fault := by
  refine (Ensures.forM unit.steps fun step hstep =>
    secure_step planned wf res total loaded (planned.indexed step hstep)).bind fun _ => ?_
  refine Ensures.get fun call secure => ?_
  refine Ensures.bind (Ensures.forM _ fun binding hb => ?_) fun _ => ?_
  · exact secure_checkReadable (secure.bound binding (List.mem_filter.mp hb).1) .host
  · intro after hafter
    rw [exec_bind_of_ok (exec_returned wf res accepted hafter.sized)]
    trivial

end

end Call

/-! ## The beginning of a call -/

/-- The array has as many elements as its shape asks for, in its own memory or in the memory it
shares. -/
def ArrayValue.Filled (device : Device) (a : ArrayValue) : Prop :=
  match a.storage with
  | .owned cells => cells.size = a.shape.size
  | .shared handle => ∃ cells, device.shared? handle = some cells ∧ cells.size = a.shape.size

theorem ArrayValue.Live.filled {device : Device} {a : ArrayValue} (live : a.Live device) :
    a.Filled device := by
  unfold Live at live
  unfold Filled
  split
  · next hs =>
    rw [hs] at live
    exact live.1
  · next hs =>
    rw [hs] at live
    exact live.2

/-- An array in the role of a parameter has the size of its argument, even if it does not take its
shape from there. -/
def Func.Matches (f : Func) (args : List ArrayValue) (shapes : List Shape) : Prop :=
  ∀ id decl position arg, f.decl? id = some decl → decl.role = .param position →
    decl.shape ≠ .param → args[position]? = some arg → sizeAt shapes id = arg.shape.size

theorem Func.Matches.size_eq {f : Func} {args : List ArrayValue} {table : HostTable}
    {shapes : List Shape} (h : f.Matches args shapes) (res : Shapes.Resolved f args table shapes)
    {id : ArrayId} {decl : ArrayDecl} {position : Nat} {arg : ArrayValue}
    (hdecl : f.decl? id = some decl) (hrole : decl.role = .param position)
    (harg : args[position]? = some arg) : sizeAt shapes id = arg.shape.size := by
  by_cases hparam : decl.shape = .param
  · obtain ⟨found, hfound, hshape⟩ := res.param hdecl hparam hrole
    rw [harg, Option.some.injEq] at hfound
    simp [sizeAt, hshape, hfound]
  · exact h id decl position arg hdecl hrole hparam harg

theorem Call.Started.secure {unit : CompiledUnit} {table : HostTable} {args : List ArrayValue}
    {machine : Machine} {call : Call} {shapes : List Shape}
    (started : Started unit table args machine call shapes)
    (filled : ∀ arg ∈ args, arg.Filled machine.device)
    (matched : unit.function.Matches args shapes) :
    call.Secure unit.function shapes machine.device.programs [] where
  sized := by
    intro id hid
    obtain ⟨decl, hdecl⟩ := Func.exists_decl hid
    obtain ⟨shape, hshape⟩ := started.resolved.exists_shape hid
    obtain ⟨storage, hstorage, hof⟩ := started.host hdecl hshape
    have hsize : sizeAt shapes id = shape.size := by simp [sizeAt, hshape]
    unfold storageOf at hof
    cases hrole : decl.role with
    | param position =>
      simp only [hrole, orFault_eq_ok, Option.map_eq_some_iff] at hof
      obtain ⟨arg, harg, hsame⟩ := hof
      have hfilled := filled arg (List.mem_of_getElem? harg)
      rw [matched.size_eq started.resolved hdecl hrole harg]
      rw [ArrayValue.Filled, hsame] at hfilled
      cases storage with
      | owned cells => exact ⟨cells, by simp [Call.cells?, hstorage], hfilled⟩
      | shared handle => simpa [Call.cells?, hstorage, started.machine] using hfilled
    | scratch =>
      simp only [hrole] at hof
      rcases zeros_cases call.machine.device (.scratch id) decl.elem shape.size with
        ⟨reason, _, hzeros⟩ | ⟨_, hzeros⟩
      · rw [hzeros] at hof
        cases hof
      · rw [hzeros] at hof
        cases hof
        refine ⟨Array.replicate shape.size (Number.ofCode false 0), ?_, ?_⟩
        · simp [Call.cells?, hstorage]
        · simp [hsize]
  covers := (Tracker.start?_ok started.tracker).1
  bound _ hb := Tracker.array_lt started.tracker hb
  buffers := by simp [started.buffers]
  readable h := absurd h (started.no_buffer _ _)
  inUse := nofun
  programs := by rw [started.machine]

/-! ## Lowering -/

namespace Lowering

variable {profile : Profile} {f : Func} {key : UnitKey} {fingerprint : ContentHash}
  {args : List ArrayValue} {table : HostTable}

theorem run_faultless {outline : Outline} {body : Draft}
    (outlined : Outlined profile f key outline body) (machine : Machine) :
    (exec (run profile f key fingerprint) machine).1 ≠ .error .fault := by
  rcases hexec : exec (run profile f key fingerprint) machine with ⟨stop | unit, after⟩
  · obtain ⟨reason, _, rfl⟩ := run_refused outlined hexec
    simp
  · nofun

/-- A tracker needs a type in the signature for every array in the role of a parameter. -/
theorem position_lt_of_start {signature : Signature} {tracker : Tracker}
    (h : Tracker.start? f signature = some tracker) {id : ArrayId} {decl : ArrayDecl}
    {position : Nat} (hdecl : f.decl? id = some decl) (hrole : decl.role = .param position) :
    position < signature.args.length := by
  obtain ⟨_, hbindings⟩ := Tracker.start?_ok h
  obtain ⟨binding, _, hof, _⟩ := hbindings hdecl
  simp only [Tracker.bindingOf?, hrole, Signature.allocator?, Option.map_map,
    Option.map_eq_some_iff] at hof
  obtain ⟨_, hfound, _⟩ := hof
  exact (List.getElem?_eq_some_iff.mp hfound).1

/-- Take a function that passes its check and arguments that are accepted, on any device. Lowering
faults exactly if an array in the role of a parameter names a position that is not there. Otherwise
a call of the unit ends with a result or with an error that it names, if the arguments hold what
their shapes say and such arrays have the sizes of their arguments. That is so for every array that
takes its shape from its argument. -/
theorem run_safe (valid : f.validate = .ok ())
    (accepting : ∀ kernel, Faultless (profile.accepts kernel))
    (accepted : Signature.ofArgs f args = .ok key.signature) (fingerprint : ContentHash)
    (machine : Machine) :
    ((exec (run profile f key fingerprint) machine).1 = .error .fault ↔
      ∃ id decl position, f.decl? id = some decl ∧ decl.role = .param position ∧
        f.params.length ≤ position) ∧
    ∀ unit lowered, exec (run profile f key fingerprint) machine = (.ok unit, lowered) →
      ∀ (table : HostTable) (later : Machine),
        (∀ callee hostFn request, table.find? callee = some hostFn →
          hostFn request ≠ .error .fault) →
        unit.Loaded later.device → (∀ arg ∈ args, arg.Filled later.device) →
        (∀ shapes, Shapes.resolve f args table = .ok shapes → f.Matches args shapes) →
        (unit.run table args later).result ≠ .error .fault := by
  have checked := Func.check_of_validate valid
  have haccepted := Signature.ofArgs_ok accepted
  have hlength := Signature.length_ofArgs accepted
  refine ⟨⟨fun hfault => ?_, fun ⟨id, decl, position, hdecl, hrole, hbeyond⟩ => ?_⟩,
    fun unit lowered hlowered table later total loaded filled matched hfault => ?_⟩
  · refine Classical.byContradiction fun hnone => ?_
    have wf := Func.checked_of_check checked fun {id decl position} hdecl hrole =>
      Nat.lt_of_not_le fun hbeyond => hnone ⟨id, decl, position, hdecl, hrole, hbeyond⟩
    obtain ⟨outline, body, outlined⟩ := exists_outlined wf haccepted accepting
    exact run_faultless outlined machine hfault
  · have hstart : Tracker.start? f key.signature = none := by
      cases h : Tracker.start? f key.signature with
      | none => rfl
      | some tracker =>
        have hlt := position_lt_of_start h hdecl hrole
        omega
    have houtline : outline? profile f key.signature key.context = none := by
      cases hpartition : f.partition? <;> simp [outline?, hpartition, hstart]
    rw [run, exec_bind, exec_ofExcept, houtline, orFault]
  · obtain ⟨partition, placed, tracker, body, planned⟩ := run_planned hlowered
    have wf := Func.checked_of_check checked fun hdecl hrole =>
      hlength ▸ position_lt_of_start planned.started hdecl hrole
    obtain rfl := planned.function_eq
    rw [← planned.key_eq] at haccepted
    rcases CompiledUnit.cases_of_run_error hfault with hstart | ⟨call, shapes, final, hstart, hbody⟩
    · cases Call.start_rejection wf haccepted hstart
    · have started := Call.start_ok hstart
      have secure := started.secure filled (matched shapes (Call.resolve_of_start hstart))
      exact (Call.secure_body planned wf started.resolved total loaded haccepted).of_error secure
        hbody rfl

end Lowering

/-! ## A function that no builder makes -/

namespace Sample

/-- Parameters with shapes of their own, and two arrays in the role of the first parameter. -/
def pinned : Func where
  name := "pinned"
  arrays := [⟨"a", .f64, 1, .fixed [2], .param 0⟩, ⟨"b", .f64, 1, .like 0, .param 1⟩,
    ⟨"c", .f64, 1, .param, .param 0⟩, ⟨"t", .f64, 1, .like 0, .scratch⟩]
  params := [0, 1]
  body := [.map 3 .add [.array 0, .array 1], .map 1 .mul [.array 2, .array 3]]
  returns := some 3
  serialOnly := false

def pinnedKey (context : DeviceContext) (allocator : Allocator) : UnitKey where
  function := 8
  signature := ⟨[⟨⟨.f64, 1⟩, .copied⟩, ⟨⟨.f64, 1⟩, allocator⟩], some ⟨.f64, 1⟩⟩
  context := context

/-- Arguments of the right sizes, one of them shared. -/
def pinnedArgs : List ArrayValue := [.vector .f64 #[1.5, 2.0], ⟨.f64, [2], .shared 1⟩]

/-- The second argument has one element, where its array has two. -/
def shortArgs : List ArrayValue := [.vector .f64 #[1.0, 2.0], .vector .f64 #[3.0]]

theorem pinned_matches (shapes : List Shape)
    (h : Shapes.resolve pinned pinnedArgs [] = .ok shapes) : pinned.Matches pinnedArgs shapes := by
  intro id decl position arg hdecl hrole hshape harg
  cases h
  have hlt := Func.lt_of_decl? hdecl
  match id, hlt with
  | 0, _ | 1, _ =>
    cases hdecl
    cases hrole
    cases harg
    rfl
  | 2, _ =>
    cases hdecl
    exact absurd rfl hshape
  | 3, _ =>
    cases hdecl
    cases hrole

/-- An array in the role of a parameter, and no parameters. -/
def orphan : Func where
  name := "orphan"
  arrays := [⟨"a", .f64, 1, .param, .param 0⟩]
  params := []
  body := []
  returns := none
  serialOnly := false

end Sample

/-- `Sample.pinned` on a device. Its maps are one kernel. -/
theorem Lowering.run_safe_sample : ∃ unit lowered,
    exec (run .simulated Sample.pinned (Sample.pinnedKey .gpu .shared) .zero) Sample.machine =
      (.ok unit, lowered) ∧ unit.kernels.length = 1 ∧
    (unit.run [] Sample.pinnedArgs lowered).result ≠ .error .fault := by
  have valid : Sample.pinned.validate = .ok () := rfl
  have accepted : Signature.ofArgs Sample.pinned Sample.pinnedArgs =
      .ok (Sample.pinnedKey .gpu .shared).signature := rfl
  have hcheck : passes (fun unit _ => decide (unit.kernels.length = 1))
    (exec (run .simulated Sample.pinned (Sample.pinnedKey .gpu .shared) .zero) Sample.machine) =
      true := by decide +kernel
  obtain ⟨unit, lowered, hlowered, hkernels⟩ := exists_of_passes hcheck
  have filled : ∀ arg ∈ Sample.pinnedArgs, arg.Filled lowered.device := by
    intro arg harg
    have hmem : arg ∈ Sample.args := by
      simp only [Sample.pinnedArgs, List.mem_cons, List.not_mem_nil, or_false] at harg
      rcases harg with rfl | rfl <;> simp [Sample.args]
    exact ((Sample.args_live arg hmem).1.preserved Sample.bounded (run_preserves hlowered)).filled
  have accepting : ∀ kernel, Faultless (Profile.simulated.accepts kernel) := fun _ => .ok ()
  obtain ⟨_, hcalls⟩ := run_safe valid accepting accepted .zero Sample.machine
  exact ⟨unit, lowered, hlowered, of_decide_eq_true hkernels,
    hcalls unit lowered hlowered [] lowered (by simp [HostTable.find?]) (run_loaded hlowered) filled
      Sample.pinned_matches⟩

/-- The computation ended in a fault. -/
def faults {ε α : Type} : Except (Stop ε) α → Bool
  | .error .fault => true
  | _ => false

theorem eq_fault_of_faults {ε α : Type} {r : Except (Stop ε) α} (h : faults r = true) :
    r = .error .fault := by
  rcases r with (cause | _) | a
  · cases h
  · rfl
  · cases h

/-- The check passes `Sample.pinned` and `Sample.orphan`. A call of the first with a short argument
faults, and so does lowering of the second. -/
theorem Func.unmatched_faults :
    Sample.pinned.validate = .ok () ∧
    (∃ unit lowered,
      exec (Lowering.run .simulated Sample.pinned (Sample.pinnedKey .host .copied) .zero)
        Sample.machine = (.ok unit, lowered) ∧
      Signature.ofArgs Sample.pinned Sample.shortArgs = .ok unit.key.signature ∧
      (∀ arg ∈ Sample.shortArgs, arg.Filled lowered.device) ∧
      (unit.run [] Sample.shortArgs lowered).result = .error .fault) ∧
    Sample.orphan.validate = .ok () ∧ Signature.ofArgs Sample.orphan [] = .ok ⟨[], none⟩ ∧
    (exec (Lowering.run .simulated Sample.orphan ⟨9, ⟨[], none⟩, .host⟩ .zero)
      Sample.machine).1 = .error .fault := by
  refine ⟨rfl, ?_, rfl, rfl, rfl⟩
  have hcheck : passes (fun unit lowered => faults (unit.run [] Sample.shortArgs lowered).result)
    (exec (Lowering.run .simulated Sample.pinned (Sample.pinnedKey .host .copied) .zero)
      Sample.machine) = true := by decide +kernel
  obtain ⟨unit, lowered, hlowered, hrun⟩ := exists_of_passes hcheck
  obtain ⟨_, _, _, _, planned⟩ := Lowering.run_planned hlowered
  refine ⟨unit, lowered, hlowered, ?_, ?_, ?_⟩
  · rw [planned.key_eq]
    rfl
  · intro arg harg
    simp only [Sample.shortArgs, List.mem_cons, List.not_mem_nil, or_false] at harg
    rcases harg with rfl | rfl <;> simp [ArrayValue.Filled, ArrayValue.vector, Shape.size]
  · exact eq_fault_of_faults hrun

end ArrayOffload
