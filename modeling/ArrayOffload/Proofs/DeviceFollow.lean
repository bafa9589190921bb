import ArrayOffload.Call.Run
import ArrayOffload.Proofs.DeviceRun
import ArrayOffload.Proofs.HostFollow
import ArrayOffload.Proofs.Residency

/-!
# Work of the device, beside the reference

Between two steps of a call, the copies that its tracker calls valid are those that agree with the
reference. A transfer keeps this while the reference stands still. A launch keeps it while the
reference carries out the operations of the kernel's region. A step that does not end this way has
been refused, for one of three reasons.

* `Call.Tracked`: the tracker tells the truth about the copies;
* `Refusal`: a stale copy, no memory, or an injected failure;
* `Call.Allocates`: invariants that new buffers keep, with what the search for a buffer can do;
* `Call.Tracked.copyIn`, `Call.Tracked.copyOut`: transfers;
* `Call.Tracked.launch`: launches.
-/

namespace ArrayOffload

/-- Why a step of a call can be refused although nothing is wrong with the operations. -/
inductive Refusal (f : Func) (shapes : List Shape) (origin : Device) : Stop OffloadError → Prop
  | stale (name : String) (location : Location) (state : Residency) :
      Refusal f shapes origin (.error (.residency name location state))
  | full {id : ArrayId} {purpose : Purpose} {after : Nat} {reason : String}
      (declared : id < f.arrays.length) (working : ∀ array, purpose ≠ .scratch array)
      (refused : Demand.refusal? origin.scarce ⟨purpose, after, sizeAt shapes id⟩ = some reason) :
      Refusal f shapes origin
        (.error (.device (.allocationFailed (f.elemOf id) (sizeAt shapes id) reason)))
  | injected {reason : String} (planned : origin.failLaunch = some reason) :
      Refusal f shapes origin (.error (.device (.enqueueFailed reason)))

namespace Call

/-- The copies that the tracker calls valid agree with the reference. -/
structure Tracked (f : Func) (shapes : List Shape) (origin : Device) (call : Call) (ref : Memory) :
    Prop where
  covers : call.tracker.Covers f.arrays.length
  copies : ∀ id, call.tracker.isCopied id = true ↔ call.Owns id
  bound : ∀ {id : ArrayId} {decl : ArrayDecl}, f.decl? id = some decl →
    ∃ binding, call.tracker.bindings[id]? = some binding ∧ binding.array = id ∧
      binding.escapes = f.escapes id decl
  coherent : Coherent f shapes origin (call.tracker.Valid .host) (call.tracker.Valid .device)
    call ref

/-- Work of a call beside operations of its reference: they end in the same way, unless the call is
refused. -/
def Follows (f : Func) (shapes : List Shape) (table : HostTable) (origin : Device)
    (work : CallM Unit) (ops : List Op) (call : Call) (ref : Memory) : Prop :=
  match exec work call with
  | (.ok _, after) => ∃ ref', ref.evaluate f shapes table ops = (.ok (), ref') ∧
      Tracked f shapes origin after ref'
  | (.error stop, after) => Refusal f shapes origin stop ∨
      ∃ ref', ref.evaluate f shapes table ops = (.error stop, ref') ∧
        after.machine.device.pool = ref'.pool

theorem Follows.congr {f : Func} {shapes : List Shape} {table : HostTable} {origin : Device}
    {work work' : CallM Unit} {ops : List Op} {call : Call} {ref : Memory}
    (h : Follows f shapes table origin work ops call ref)
    (hwork : exec work' call = exec work call) :
    Follows f shapes table origin work' ops call ref := by
  unfold Follows at h ⊢
  rw [hwork]
  exact h

/-- A call that has at most got more buffers. -/
structure Grows (call after : Call) : Prop where
  host : after.host = call.host
  tracker : after.tracker = call.tracker
  scarce : after.machine.device.scarce = call.machine.device.scarce
  handles : ∀ {id : ArrayId} {handle : Nat}, call.handleOf? id = some handle →
    after.handleOf? id = some handle

theorem Grows.refl (call : Call) : Grows call call := ⟨rfl, rfl, rfl, fun h => h⟩

theorem Grows.trans {call mid after : Call} (first : Grows call mid) (second : Grows mid after) :
    Grows call after :=
  ⟨second.host.trans first.host, second.tracker.trans first.tracker,
    second.scarce.trans first.scarce, fun h => second.handles (first.handles h)⟩

variable {f : Func} {args : List ArrayValue} {shapes : List Shape} {table : HostTable}
  {origin : Device} {onHost onDevice : ArrayId → Prop} {call : Call} {ref : Memory}

/-! ## Buffers -/

/-- A new buffer leaves the handles that are in use. -/
theorem grows_alloc {id : ArrayId} (howns : call.Owns id) (h : call.buffers[id]? = some none)
    (elem : Elem) (cells : Cells) : Grows call (call.alloc id elem cells) := by
  refine ⟨rfl, rfl, rfl, fun {other handle} hhandle => ?_⟩
  have hne : other ≠ id := by
    rintro rfl
    obtain ⟨own, hs⟩ := howns
    simp [handleOf?, hs, h] at hhandle
  have hhost : (call.alloc id elem cells).host = call.host := rfl
  simpa only [handleOf?, hhost, buffers_alloc h, if_neg hne] using hhandle

/-- An invariant of calls that a new buffer of zeros does not break. -/
structure Allocates (f : Func) (shapes : List Shape) (inv : Call → Prop) : Prop where
  intact : ∀ {call : Call}, inv call → ∃ origin, call.Intact f shapes origin
  alloc : ∀ {call : Call} {id : ArrayId}, inv call → call.Owns id →
    call.buffers[id]? = some none →
    inv (call.alloc id (f.elemOf id)
      (Array.replicate (sizeAt shapes id) (Number.ofCode false 0)))

theorem Coherent.allocates : Allocates f shapes fun call =>
    Coherent f shapes origin onHost onDevice call ref :=
  ⟨fun co => ⟨origin, co.intact⟩, fun co howns hnone => co.alloc howns hnone (by simp)⟩

/-- The buffer of an array, found or new, unless memory is refused. -/
theorem Allocates.bufferOf_cases {inv : Call → Prop} (kept : Allocates f shapes inv)
    (h : inv call) {id : ArrayId} (howns : call.Owns id)
    (hscarce : call.machine.device.scarce = origin.scarce) :
    (∃ stop, exec (bufferOf id (f.elemOf id) (sizeAt shapes id)) call = (.error stop, call) ∧
      Refusal f shapes origin stop) ∨
    ∃ handle after, exec (bufferOf id (f.elemOf id) (sizeAt shapes id)) call =
        (.ok handle, after) ∧ Grows call after ∧ after.buffers[id]? = some (some handle) ∧
      inv after := by
  obtain ⟨_, intact⟩ := kept.intact h
  obtain ⟨own, hs⟩ := howns
  have hid := intact.lt_of_storage hs
  rw [exec_bufferOf]
  cases hb : call.buffers[id]? with
  | none =>
    rw [List.getElem?_eq_none_iff, intact.buffers_length] at hb
    exact absurd hid (Nat.not_lt.mpr hb)
  | some found =>
    cases found with
    | some handle => exact .inr ⟨handle, call, rfl, Grows.refl call, hb, h⟩
    | none =>
      rcases call.machine.device.zeroed_cases .buffer (f.elemOf id) (sizeAt shapes id) with
        ⟨reason, hr, hzeroed⟩ | ⟨_, hzeroed⟩
      · rw [hzeroed]
        exact .inl ⟨_, rfl, .full hid (by simp) (hscarce ▸ hr)⟩
      · rw [hzeroed]
        refine .inr ⟨_, call.alloc id (f.elemOf id) _, rfl, grows_alloc ⟨own, hs⟩ hb _ _, ?_,
          kept.alloc h ⟨own, hs⟩ hb⟩
        rw [buffers_alloc hb, if_pos rfl]

theorem Grows.owns {after : Call} (grows : Grows call after) {id : ArrayId}
    (howns : call.Owns id) : after.Owns id := by
  rw [Owns, grows.host]
  exact howns

theorem handleOf?_of_buffer {id : ArrayId} {handle : Nat} (howns : call.Owns id)
    (h : call.buffers[id]? = some (some handle)) : call.handleOf? id = some handle := by
  obtain ⟨own, hs⟩ := howns
  simp [handleOf?, hs, h]

/-! ## Transfers -/

namespace Tracked

/-- A call after a step: its memories agree with the reference where `onHost` and `onDevice` say, and
its tracker calls no more copies valid than those. -/
theorem of_coherent {mid after : Call} {ref' : Memory} {next : Tracker}
    (tracked : Tracked f shapes origin call ref) {onHost onDevice : ArrayId → Prop}
    (co : Coherent f shapes origin onHost onDevice mid ref') (same : SameMemory after mid)
    (hprinted : after.printed = mid.printed)
    (hkinds : mid.host.map Storage.handle? = call.host.map Storage.handle?)
    (hnext : after.tracker = next) (covers : next.Covers f.arrays.length)
    (hbindings : next.bindings = call.tracker.bindings)
    (hhost : ∀ id, call.tracker.isCopied id = true → next.Valid .host id → onHost id)
    (hdevice : ∀ id, call.tracker.isCopied id = true → next.Valid .device id → onDevice id) :
    Tracked f shapes origin after ref' := by
  subst hnext
  have howns : ∀ id, after.Owns id ↔ call.Owns id := by
    intro id
    have h := congrArg (·[id]?) hkinds
    simp only [List.getElem?_map] at h
    rw [owns_iff_map, owns_iff_map, same.host, h]
  refine ⟨covers, fun id => ?_, ?_, ?_⟩
  · rw [Tracker.isCopied_congr hbindings, howns, tracked.copies]
  · rw [hbindings]
    exact tracked.bound
  · refine (co.of_sameMemory same hprinted).weaken (fun id ho => ?_) fun id ho => ?_
    · exact hhost id ((tracked.copies id).mpr ((howns id).mp ho))
    · exact hdevice id ((tracked.copies id).mpr ((howns id).mp ho))

theorem stale (tracked : Tracked f shapes origin call ref) {id : ArrayId}
    (hid : id < f.arrays.length) {location : Location} {stop : Stop OffloadError}
    (h : call.tracker.checkReadable id location = .error stop) :
    Refusal f shapes origin stop := by
  obtain ⟨name, state, rfl⟩ := Tracker.checkReadable_eq_error tracked.covers hid h
  exact .stale name location state

theorem valid (tracked : Tracked f shapes origin call ref) {id : ArrayId}
    (hid : id < f.arrays.length) {location : Location}
    (h : call.tracker.checkReadable id location = .ok ()) : call.tracker.Valid location id :=
  (Tracker.checkReadable_eq_ok_iff tracked.covers hid).mp h

theorem copyIn (res : Shapes.Resolved f args table shapes)
    (tracked : Tracked f shapes origin call ref) {id : ArrayId} (hid : id < f.arrays.length) :
    Follows f shapes table origin (Call.copyIn f shapes id) [] call ref := by
  unfold Follows
  have co := tracked.coherent
  obtain ⟨decl, hdecl⟩ := Func.exists_decl hid
  obtain ⟨shape, hshape⟩ := res.exists_shape hid
  rw [Call.copyIn, exec_bind, exec_checkReadable]
  cases hcheck : call.tracker.checkReadable id .host with
  | error stop => exact .inl (tracked.stale hid hcheck)
  | ok =>
    have hvalid := tracked.valid hid hcheck
    simp only [exec_bind, exec_get]
    by_cases hcopied : call.tracker.isCopied id = true
    · have howns := (tracked.copies id).mp hcopied
      simp only [hcopied, if_true, exec_bind, exec_expect, hdecl, orFault, exec_sizeOf hshape,
        ← Func.elemOf_eq hdecl]
      rcases Coherent.allocates.bufferOf_cases co howns co.intact.scarce with ⟨stop, hexec, hrefused⟩ |
        ⟨handle, mid, hexec, grows, hbuffer, hmid⟩
      · simp only [hexec]
        exact .inl hrefused
      · have hmidOwns := grows.owns howns
        obtain ⟨_, old, hold, holdSize⟩ := hmid.intact.buffer hbuffer
        -- the device coerces what comes in, which changes nothing in an array of that type
        have hcells := hmid.intact.sized.cells? hid
        have hread : ref.cells? id = some (mid.read id) := by
          rw [← hmid.host id hvalid, hcells]
        have hsettled : (mid.read id).map (f.elemOf id).coerce = mid.read id := by
          have hsame : mid.read id = ref.read id := hmid.read_eq hvalid
          rw [hsame]
          exact (hmid.settled_read hmidOwns).map_coerce
        have hlive : mid.machine.device.cells? handle = some old := by simp [Device.cells?, hold]
        have hlength : old.size = (mid.read id).size := by
          rw [holdSize, hmid.intact.sized.size_read hid]
        simp only [hexec, exec_load, hcells, orFault, exec_onDevice,
          Device.exec_copyIn hold hlive hlength, Buffer.elem, hsettled, mapError_ok,
          countTransfer, exec_modify, exec_record, exec_track]
        refine ⟨ref, rfl, tracked.of_coherent (hmid.copyIn hbuffer hread)
          ⟨rfl, rfl, rfl, rfl, rfl, rfl, rfl, rfl⟩ rfl (congrArg _ grows.host)
          (congrArg (Tracker.copyIn · id) grows.tracker) (Tracker.local_copyIn.covers tracked.covers id)
          (Tracker.local_copyIn.bindings _ id) (fun _ _ => Tracker.valid_host_of_copyIn)
          fun _ _ => Tracker.valid_device_of_copyIn⟩
    · -- a shared array has one copy only, so nothing is moved
      simp only [hcopied, Bool.false_eq_true, if_false, exec_track]
      refine ⟨ref, rfl, tracked.of_coherent co ⟨rfl, rfl, rfl, rfl, rfl, rfl, rfl, rfl⟩ rfl rfl rfl
        (Tracker.local_copyIn.covers tracked.covers id) (Tracker.local_copyIn.bindings _ id)
        (fun _ _ => Tracker.valid_host_of_copyIn) fun other hother hv => ?_⟩
      rcases Tracker.valid_device_of_copyIn hv with hbefore | rfl
      · exact hbefore
      · exact absurd hother hcopied

theorem copyOut (res : Shapes.Resolved f args table shapes)
    (tracked : Tracked f shapes origin call ref) {id : ArrayId} (hid : id < f.arrays.length) :
    Follows f shapes table origin (Call.copyOut f shapes id) [] call ref := by
  unfold Follows
  have co := tracked.coherent
  obtain ⟨decl, hdecl⟩ := Func.exists_decl hid
  obtain ⟨shape, hshape⟩ := res.exists_shape hid
  rw [Call.copyOut, exec_bind, exec_checkReadable]
  cases hcheck : call.tracker.checkReadable id .device with
  | error stop => exact .inl (tracked.stale hid hcheck)
  | ok =>
    have hvalid := tracked.valid hid hcheck
    simp only [exec_bind, exec_get]
    by_cases hcopied : call.tracker.isCopied id = true
    · have howns := (tracked.copies id).mp hcopied
      simp only [hcopied, if_true, exec_bind, exec_expect, hdecl, orFault, exec_sizeOf hshape,
        ← Func.elemOf_eq hdecl]
      rcases Coherent.allocates.bufferOf_cases co howns co.intact.scarce with ⟨stop, hexec, hrefused⟩ |
        ⟨handle, mid, hexec, grows, hbuffer, hmid⟩
      · simp only [hexec]
        exact .inl hrefused
      · have hmidOwns := grows.owns howns
        have hhandle := handleOf?_of_buffer hmidOwns hbuffer
        obtain ⟨_, cells, hold, _, hlive, hsize⟩ := hmid.intact.buffer_of_handle hhandle
        have hread : ref.cells? id = some cells := by
          rw [← hmid.device id hvalid, deviceCells?, hhandle]
          exact hlive
        -- the counters of the device are no part of its memory
        have hcounted : Coherent f shapes origin (call.tracker.Valid .host)
            (call.tracker.Valid .device)
            (mid.withDevice (mid.machine.device.counting
              fun c => { c with copyOuts := c.copyOuts + 1 })) ref :=
          hmid.of_sameMemory ⟨rfl, rfl, rfl, rfl, rfl, rfl, rfl, rfl⟩ rfl
        rcases zeros_cases mid.machine.device (.transfer id) (f.elemOf id) (sizeAt shapes id) with
          ⟨reason, hr, hzeros⟩ | ⟨_, hzeros⟩
        · -- the host has no room for what comes out
          simp only [hexec, exec_get, exec_ofExcept, hzeros]
          exact .inl (.full hid (by simp) (hmid.intact.scarce ▸ hr))
        · simp only [hexec, exec_get, exec_ofExcept, hzeros, Array.size_replicate, exec_onDevice,
            Device.exec_copyOut hold hlive hsize, mapError_ok,
            exec_store_sized hcounted.intact.sized hid hsize, countTransfer, exec_modify,
            exec_record, exec_track]
          refine ⟨ref, rfl, tracked.of_coherent (hcounted.copyOut hmidOwns hread)
            ⟨rfl, rfl, rfl, rfl, rfl, rfl, rfl, rfl⟩ rfl
            ((handle?_withCells _ _ _).trans (congrArg _ grows.host))
            (congrArg (Tracker.copyOut · id) ((tracker_withCells _ _ _).trans grows.tracker))
            (Tracker.local_copyOut.covers tracked.covers id) (Tracker.local_copyOut.bindings _ id)
            (fun _ _ => Tracker.valid_host_of_copyOut)
            fun _ _ => Tracker.valid_device_of_copyOut⟩
    · simp only [hcopied, Bool.false_eq_true, if_false, exec_track]
      refine ⟨ref, rfl, tracked.of_coherent co ⟨rfl, rfl, rfl, rfl, rfl, rfl, rfl, rfl⟩ rfl rfl rfl
        (Tracker.local_copyOut.covers tracked.covers id) (Tracker.local_copyOut.bindings _ id)
        (fun other hother hv => ?_) fun _ _ => Tracker.valid_device_of_copyOut⟩
      rcases Tracker.valid_host_of_copyOut hv with hbefore | rfl
      · exact hbefore
      · exact absurd hother hcopied

end Tracked

/-! ## Launches -/

/-- The buffer to bind for an array. -/
def placeOf (f : Func) (shapes : List Shape) (id : ArrayId) : CallM Nat := do
  match ← expect (← get).host[id]? with
  | .shared handle => return handle
  | .owned _ =>
    let decl ← expect (f.decl? id)
    bufferOf id decl.elem (← sizeOf shapes id)

/-- A slot is bound after a check of what the kernel reads. -/
theorem exec_bindSlot (f : Func) (shapes : List Shape) (param : KernelParam) (id : ArrayId)
    (call : Call) :
    exec (bindSlot f shapes (param, id)) call =
      match (if param.access.reads then call.tracker.checkReadable id .device else .ok ()) with
      | .error stop => (.error stop, call)
      | .ok _ => exec (placeOf f shapes id) call := by
  simp only [bindSlot]
  split
  · rw [exec_bind, exec_checkReadable]
    cases call.tracker.checkReadable id .device <;> rfl
  · rfl

theorem Allocates.placeOf_cases {inv : Call → Prop} (kept : Allocates f shapes inv)
    (res : Shapes.Resolved f args table shapes) (h : inv call) {id : ArrayId}
    (hid : id < f.arrays.length) (hscarce : call.machine.device.scarce = origin.scarce) :
    (∃ stop, exec (placeOf f shapes id) call = (.error stop, call) ∧
      Refusal f shapes origin stop) ∨
    ∃ handle after, exec (placeOf f shapes id) call = (.ok handle, after) ∧ Grows call after ∧
      after.handleOf? id = some handle ∧ inv after := by
  obtain ⟨_, intact⟩ := kept.intact h
  obtain ⟨decl, hdecl⟩ := Func.exists_decl hid
  obtain ⟨shape, hshape⟩ := res.exists_shape hid
  obtain ⟨storage, hs⟩ := intact.exists_storage hid
  cases storage with
  | shared handle =>
    refine .inr ⟨handle, call, ?_, Grows.refl call, by simp [handleOf?, hs], h⟩
    simp only [placeOf, exec_bind, exec_get, exec_expect, hs, orFault, exec_pure]
  | owned own =>
    have howns : call.Owns id := ⟨own, hs⟩
    have hexec : exec (placeOf f shapes id) call =
        exec (bufferOf id (f.elemOf id) (sizeAt shapes id)) call := by
      simp only [placeOf, exec_bind, exec_get, exec_expect, hs, orFault, hdecl, exec_sizeOf hshape,
        Func.elemOf_eq hdecl]
    rw [hexec]
    rcases kept.bufferOf_cases h howns hscarce with hrefused |
      ⟨handle, after, hok, grows, hbuffer, hafter⟩
    · exact .inl hrefused
    · exact .inr ⟨handle, after, hok, grows, handleOf?_of_buffer (grows.owns howns) hbuffer, hafter⟩

/-- All slots of a kernel are bound, or one of them is refused. -/
theorem Allocates.bindSlots_cases {inv : Call → Prop} (kept : Allocates f shapes inv)
    (res : Shapes.Resolved f args table shapes) (h : inv call)
    {slots : List (KernelParam × ArrayId)} (declared : ∀ slot ∈ slots, slot.2 < f.arrays.length)
    (hscarce : call.machine.device.scarce = origin.scarce) :
    (∃ stop after, exec (slots.mapM (bindSlot f shapes)) call = (.error stop, after) ∧
      inv after ∧ (call.tracker.Covers f.arrays.length → Refusal f shapes origin stop)) ∨
    ∃ handles after, exec (slots.mapM (bindSlot f shapes)) call = (.ok handles, after) ∧
      Grows call after ∧ after.Binds (slots.map (·.2)) handles ∧ inv after ∧
      (call.tracker.Covers f.arrays.length → ∀ slot ∈ slots, slot.1.access.reads = true →
        call.tracker.Valid .device slot.2) := by
  induction slots generalizing call with
  | nil => exact .inr ⟨[], call, rfl, Grows.refl call, rfl, h, by simp⟩
  | cons slot rest ih =>
    obtain ⟨param, id⟩ := slot
    have hid := declared (param, id) (by simp)
    rw [List.mapM_cons, exec_bind, exec_bindSlot]
    -- a slot that is only written is not checked
    cases hcheck : (if param.access.reads then call.tracker.checkReadable id .device
        else .ok () : Except (Stop OffloadError) Unit) with
    | error stop =>
      refine .inl ⟨stop, call, rfl, h, fun covers => ?_⟩
      split at hcheck
      · obtain ⟨name, state, rfl⟩ := Tracker.checkReadable_eq_error covers hid hcheck
        exact .stale name .device state
      · cases hcheck
    | ok =>
      rcases kept.placeOf_cases res h hid hscarce with ⟨stop, hexec, hrefused⟩ |
        ⟨handle, mid, hexec, grows, hhandle, hmid⟩
      · exact .inl ⟨stop, call, by simp only [hexec], h, fun _ => hrefused⟩
      · rcases ih hmid (fun other ho => declared other (by simp [ho]))
            (grows.scarce.trans hscarce) with
          ⟨stop, after, hstop, hafter, hrefused⟩ | ⟨handles, after, hok, more, binds, hafter, hvalid⟩
        · exact .inl ⟨stop, after, by simp only [hexec, exec_bind, hstop], hafter,
            grows.tracker ▸ hrefused⟩
        · refine .inr ⟨handle :: handles, after, ?_, grows.trans more, ?_, hafter, ?_⟩
          · simp only [hexec, exec_bind, hok, exec_pure]
          · simp only [Binds, List.map_cons, more.handles hhandle]
            exact congrArg _ binds
          · intro covers other ho hreads
            rcases List.mem_cons.mp ho with rfl | ho
            · exact (Tracker.checkReadable_eq_ok_iff covers hid).mp (by simpa [hreads] using hcheck)
            · exact grows.tracker ▸ hvalid (grows.tracker ▸ covers) other ho hreads

end Call

theorem Op.exists_target {op : Op} (h : op.parallelKind?.isSome = true) :
    ∃ out, op.writes = [out] := by
  cases op with
  | map out | reduce out | scan out => exact ⟨out, rfl⟩
  | store | print | call => simp [parallelKind?] at h

namespace Call

variable {f : Func} {args : List ArrayValue} {shapes : List Shape} {table : HostTable}
  {origin : Device} {onHost onDevice : ArrayId → Prop} {call : Call} {ref : Memory}
  {region : Region} {plan : LaunchPlan} {handles : List Nat}

/-- One kernel operation beside the effect of the operation that it stands for. -/
theorem Coherent.runOp (wf : f.Checked) (res : Shapes.Resolved f args table shapes)
    (sound : region.Sound f) (impl : plan.Implements f region)
    (co : Coherent f shapes origin onHost onDevice call ref)
    (binds : call.Binds plan.bindings handles) {op : Op} (hop : op ∈ region.ops f)
    (reads : ∀ id ∈ op.reads, onDevice id) {kernelOp : KernelOp}
    (hin : Kernel.opIn? plan.bindings op = some kernelOp) :
    ∃ device effect,
      exec (Device.runOp plan.kernel handles (sizeAt shapes region.space.extentOf) kernelOp)
        call.machine.device = (.ok (), device) ∧
      op.effect f shapes table ref.read = .ok effect ∧
      Coherent f shapes origin (fun id => onHost id ∧ id ∉ op.writes)
        (fun id => onDevice id ∨ id ∈ op.writes) (call.withDevice device) (ref.apply effect) := by
  have hbody := Region.mem_body hop
  obtain ⟨kind, _, hkind⟩ := sound.parallel hop
  have hparallel : op.parallelKind?.isSome = true := by simp [hkind]
  obtain ⟨out, hout⟩ := Op.exists_target hparallel
  have hbound : out ∈ plan.bindings := by
    rw [impl.bindings_eq, Region.Sound.mem_arrays, sound.mem_writes]
    exact .inr ⟨op, hop, by simp [hout]⟩
  obtain ⟨handle, _, hhandle⟩ := get?_of_map_some binds (Kernel.get?_slotIn hbound)
  have hresult : op.result f shapes call.deviceRead = op.result f shapes ref.read :=
    Op.result_congr fun id hid => by
      simp only [deviceRead, Memory.read, co.device id (reads id hid)]
  have hsize : (op.result f shapes ref.read).size = sizeAt shapes out :=
    Op.size_result wf res (fun _ => co.size_read) hbody hparallel hout
  have hsettled : Settled (f.elemOf out) (op.result f shapes ref.read) :=
    Op.settled_result hout
  refine ⟨call.machine.device.withCells handle (op.result f shapes call.deviceRead),
    _, ?_, Op.effect_parallel hparallel, ?_⟩
  · exact co.intact.exec_runOp wf res sound impl binds hop hin hout hhandle
  · rw [hresult, hout]
    simpa [Memory.apply, Memory.say, Memory.writeAll] using co.deviceWrite hhandle hsize hsettled

/-- The operations of a kernel beside those that they stand for. -/
theorem Coherent.runOps (wf : f.Checked) (res : Shapes.Resolved f args table shapes)
    (sound : region.Sound f) (impl : plan.Implements f region)
    (co : Coherent f shapes origin onHost onDevice call ref)
    (binds : call.Binds plan.bindings handles) {ops : List Op}
    (hops : ∀ op ∈ ops, op ∈ region.ops f) (reads : ∀ op ∈ ops, ∀ id ∈ op.reads, onDevice id)
    {body : List KernelOp} (hbody : ops.map (Kernel.opIn? plan.bindings) = body.map some) :
    ∃ device ref',
      exec (body.forM (Device.runOp plan.kernel handles (sizeAt shapes region.space.extentOf)))
        call.machine.device = (.ok (), device) ∧
      ref.evaluate f shapes table ops = (.ok (), ref') ∧
      Coherent f shapes origin (fun id => onHost id ∧ ∀ op ∈ ops, id ∉ op.writes)
        (fun id => onDevice id ∨ ∃ op ∈ ops, id ∈ op.writes) (call.withDevice device) ref' := by
  -- what is valid where grows and shrinks with each operation, so both sets are generalized
  induction ops generalizing body call ref onHost onDevice with
  | nil =>
    obtain rfl : body = [] := by simpa using hbody.symm
    refine ⟨call.machine.device, ref, rfl, rfl, ?_⟩
    simpa [withDevice] using co
  | cons op rest ih =>
    cases body with
    | nil => simp at hbody
    | cons kernelOp body =>
      simp only [List.map_cons, List.cons.injEq] at hbody
      obtain ⟨device, effect, hrun, heffect, hco⟩ := co.runOp wf res sound impl binds
        (hops op (by simp)) (reads op (by simp)) hbody.1
      obtain ⟨final, ref', hruns, href, hfinal⟩ := ih hco binds
        (fun other ho => hops other (by simp [ho]))
        (fun other ho id hid => .inl (reads other (by simp [ho]) id hid)) hbody.2
      refine ⟨final, ref', ?_, ?_, hfinal.weaken ?_ ?_⟩
      · rw [exec_forM_cons, hrun]
        exact hruns
      · rw [Memory.evaluate, heffect]
        exact href
      · rintro id _ ⟨h, hnone⟩
        exact ⟨⟨h, hnone op (by simp)⟩, fun other ho => hnone other (by simp [ho])⟩
      · rintro id _ (h | ⟨other, ho, h⟩)
        · exact .inl (.inl h)
        · rcases List.mem_cons.mp ho with rfl | ho
          · exact .inl (.inr h)
          · exact .inr ⟨other, ho, h⟩

/-- The grid of a launch has the rank of its kernel, and its points can be counted. -/
theorem grid_rank (wf : f.WellFormed) (res : Shapes.Resolved f args table shapes)
    {signature : Signature} (accepted : signature.Accepts f args) (sound : region.Sound f)
    (impl : plan.Implements f region) :
    ∃ grid, shapes[plan.extentOf]? = some grid ∧ grid.length = plan.kernel.rank ∧
      grid.count? = some grid.size ∧ grid.size = sizeAt shapes region.space.extentOf := by
  obtain ⟨first, _, hspace⟩ := sound.space
  obtain ⟨_, ⟨decl, hdecl, hrank⟩, _⟩ := Func.spaceOf?_ok hspace
  obtain ⟨grid, hgrid⟩ := res.exists_shape (Func.lt_of_decl? hdecl)
  refine ⟨grid, by rw [impl.2, hgrid], ?_, res.counted hdecl hgrid, by simp [sizeAt, hgrid]⟩
  rw [impl.rank_eq, ← hrank]
  exact res.rank wf accepted hdecl hgrid

/-- A kernel is bound to declared arrays only. -/
theorem bindings_declared (impl : plan.Implements f region) {id : ArrayId}
    (hid : id ∈ plan.bindings) : id < f.arrays.length := by
  obtain ⟨slot, hslot⟩ := List.getElem?_of_mem hid
  obtain ⟨_, _, _, _, hdecl, _⟩ := impl.param hslot
  exact Func.lt_of_decl? hdecl

/-- What the operations of a region read is bound to a slot that its kernel reads. -/
theorem exists_read_slot (sound : region.Sound f) (impl : plan.Implements f region) {op : Op}
    (hop : op ∈ region.ops f) {id : ArrayId} (hid : id ∈ op.reads) :
    ∃ slot ∈ plan.kernel.params.zip plan.bindings, slot.1.access.reads = true ∧ slot.2 = id := by
  have hregion : id ∈ region.reads := sound.mem_reads.mpr ⟨op, hop, hid⟩
  rw [← impl.reads_eq, List.mem_map] at hregion
  obtain ⟨slot, hslot, hsame⟩ := hregion
  rw [List.mem_filter] at hslot
  exact ⟨slot, hslot.1, hslot.2, hsame⟩

theorem Tracked.launch (wf : f.WellFormed) (res : Shapes.Resolved f args table shapes)
    {signature : Signature} (accepted : signature.Accepts f args) {kernel : CompiledKernel}
    (sound : region.Sound f) (impl : kernel.plan.Implements f region)
    (loaded : origin.programs.get? kernel.program = some kernel.plan.kernel)
    (tracked : Tracked f shapes origin call ref) :
    Follows f shapes table origin (Call.launch f shapes kernel) (region.ops f) call ref := by
  have hslots : (kernel.plan.kernel.params.zip kernel.plan.bindings).map (·.2) =
      kernel.plan.bindings := List.map_snd_zip (Nat.le_of_eq impl.length_params.symm)
  have declared : ∀ slot ∈ kernel.plan.kernel.params.zip kernel.plan.bindings,
      slot.2 < f.arrays.length := fun slot hmem => bindings_declared impl (List.of_mem_zip hmem).2
  obtain ⟨grid, hgrid, hrank, hcount, hsize⟩ := grid_rank wf res accepted sound impl
  unfold Follows
  rw [Call.launch, exec_bind]
  rcases Coherent.allocates.bindSlots_cases res tracked.coherent declared
      tracked.coherent.intact.scarce with
    ⟨stop, after, hexec, _, hrefused⟩ | ⟨handles, mid, hexec, grows, binds, hmid, hvalid⟩
  · simp only [hexec]
    exact .inl (hrefused tracked.covers)
  · rw [hslots] at binds
    simp only [hexec, exec_bind, exec_expect, hgrid, orFault, exec_record, exec_onDevice]
    have hprogram : mid.machine.device.programs.get? kernel.program = some kernel.plan.kernel := by
      rw [hmid.intact.programs, loaded]
    cases hfail : origin.failLaunch with
    | some reason =>
      have hlaunch := Device.exec_launch_injected (hmid.intact.failLaunch.trans hfail)
        kernel.program grid handles
      simp only [Machine.record, hlaunch, mapError_error, Stop.map]
      exact .inl (.injected hfail)
    | none =>
      have hreads : ∀ op ∈ region.ops f, ∀ id ∈ op.reads, call.tracker.Valid .device id := by
        intro op hop id hid
        obtain ⟨slot, hslot, hread, rfl⟩ := exists_read_slot sound impl hop hid
        exact hvalid tracked.covers slot hslot hread
      obtain ⟨device, ref', hrun, href, hco⟩ := hmid.runOps wf.toChecked res sound impl binds
        (fun _ h => h) hreads impl.ops
      rw [← hsize, ← hmid.intact.exec_run impl binds] at hrun
      have hlaunch := Device.exec_launch (hmid.intact.failLaunch.trans hfail) hprogram hrank hcount
        hrun
      simp only [Machine.record, hlaunch, mapError_ok, exec_modify,
        exec_trackAll Tracker.deviceWrite (fun slot : KernelParam × ArrayId => slot.2),
        impl.writes_eq]
      refine ⟨ref', href, tracked.of_coherent hco ⟨rfl, rfl, rfl, rfl, rfl, rfl, rfl, rfl⟩ rfl
        (congrArg _ grows.host) (congrArg (region.writes.foldl Tracker.deviceWrite) grows.tracker)
        (Tracker.local_deviceWrite.covers_foldl _ tracked.covers)
        (Tracker.local_deviceWrite.bindings_foldl _ _) (fun id hcopied hv => ?_)
        fun id hcopied hv => ?_⟩
      · -- valid on the host afterwards: not written, and valid before
        rcases Tracker.valid_deviceWrites hcopied hv with ⟨_, hloc⟩ | ⟨hnot, hbefore⟩
        · cases hloc
        · exact ⟨hbefore, fun op hop hid => hnot (sound.mem_writes.mpr ⟨op, hop, hid⟩)⟩
      · rcases Tracker.valid_deviceWrites hcopied hv with ⟨hmem, _⟩ | ⟨_, hbefore⟩
        · exact .inr (sound.mem_writes.mp hmem)
        · exact .inl hbefore

end Call

end ArrayOffload
