import ArrayOffload.Proofs.Frame
import ArrayOffload.Proofs.Offloading
import ArrayOffload.Proofs.Opening
import ArrayOffload.Proofs.Shadow

/-!
# Buffers behind stale copies

Where the host's copy of an array is stale, the call has a buffer with the array's elements. So a
copy-out finds its buffer, and changes nothing but the host's copy: the call before it is the call
after it without that copy.

* `Call.Backed`: arrays that only the device has are in buffers of the call;
* `Call.backs_step`: every step keeps this;
* `Call.shadows_copyOut`: the call after a copy-out, beside the call before it.
-/

namespace ArrayOffload

/-! ## Buffers of a call -/

theorem Storage.handle?_emptied (storage : Storage) : storage.emptied.handle? = storage.handle? := by
  cases storage <;> rfl

namespace Call

variable {f : Func} {args : List ArrayValue} {shapes : List Shape} {table : HostTable}
  {bound : List ArrayId} {id : ArrayId} {call after : Call}

/-- The call has copies of its own of the arrays that are copied, and buffers for those in `bound`
and those that only the device has. -/
structure Backed (bound : List ArrayId) (call : Call) : Prop where
  owns : ∀ {id : ArrayId}, call.tracker.isCopied id = true → call.Owns id
  buffer : ∀ {id : ArrayId}, call.tracker.isCopied id = true →
    id ∈ bound ∨ call.tracker.state? id = some .deviceValid →
      ∃ handle, call.buffers[id]? = some (some handle)

namespace Backed

theorem mono (h : Backed bound call) {fewer : List ArrayId} (hsub : fewer ⊆ bound) :
    Backed fewer call :=
  ⟨h.owns, fun hcopied hbound => h.buffer hcopied (hbound.imp_left fun hid => hsub hid)⟩

theorem of_rest (h : Backed bound call) (hrest : after.rest = call.rest) : Backed bound after := by
  have hkinds : ∀ c : Call, c.host.map Storage.handle? = c.rest.host.map Storage.handle? := by
    intro c
    simp only [rest, List.map_map]
    exact List.map_congr_left fun storage _ => storage.handle?_emptied.symm
  have htracker : after.rest.tracker = call.rest.tracker := congrArg (fun c : Call => c.tracker) hrest
  have hbuffers : after.rest.buffers = call.rest.buffers := congrArg (fun c : Call => c.buffers) hrest
  change after.tracker = call.tracker at htracker
  change after.buffers = call.buffers at hbuffers
  have howns : ∀ id, after.Owns id ↔ call.Owns id := by
    intro id
    rw [owns_iff_map, owns_iff_map, ← List.getElem?_map, ← List.getElem?_map, hkinds after, hrest,
      ← hkinds call]
  refine ⟨fun hcopied => (howns _).mpr (h.owns (htracker ▸ hcopied)), fun hcopied hstate => ?_⟩
  rw [htracker] at hcopied hstate
  rw [hbuffers]
  exact h.buffer hcopied hstate

/-- A transition that leaves no array to the device alone. -/
theorem track (h : Backed bound call) {step : Tracker → ArrayId → Tracker}
    (hlocal : Tracker.Local step) (fresh : Tracker.KeepsFresh step) (ids : List ArrayId) :
    Backed bound { call with tracker := ids.foldl step call.tracker } := by
  have hcopied := Tracker.isCopied_congr (hlocal.bindings_foldl ids call.tracker)
  refine ⟨fun h' => h.owns (hcopied ▸ h'), fun h' hstate => ?_⟩
  exact h.buffer (hcopied ▸ h') (hstate.imp_right fresh.foldl)

/-- Arrays that the device writes need buffers. -/
theorem deviceWrites (h : Backed bound call) {ids : List ArrayId} (hids : ∀ id ∈ ids, id ∈ bound) :
    Backed [] { call with tracker := ids.foldl Tracker.deviceWrite call.tracker } := by
  have hcopied := Tracker.isCopied_congr
    (Tracker.local_deviceWrite.bindings_foldl ids call.tracker)
  refine ⟨fun h' => h.owns (hcopied ▸ h'), fun {id} h' hstate => h.buffer (hcopied ▸ h') ?_⟩
  have hstate := hstate.resolve_left List.not_mem_nil
  by_cases hid : id ∈ ids
  · exact .inl (hids id hid)
  · exact .inr ((Tracker.local_deviceWrite.state?_foldl call.tracker hid).symm.trans hstate)

theorem withDevice (h : Backed bound call) (device : Device) :
    Backed bound (call.withDevice device) := ⟨h.owns, h.buffer⟩

/-- A buffer for one more array. -/
theorem cons (h : Backed bound call)
    (hid : call.tracker.isCopied id = true → ∃ handle, call.buffers[id]? = some (some handle)) :
    Backed (id :: bound) call := by
  refine ⟨h.owns, fun {other} hcopied hbound => ?_⟩
  by_cases heq : other = id
  · exact heq ▸ hid (heq ▸ hcopied)
  · exact h.buffer hcopied (hbound.imp_left fun hmem => (List.mem_cons.mp hmem).resolve_left heq)

end Backed

/-- Work that succeeds leaves the call with buffers for these arrays. -/
abbrev Backs {α : Type} (bound more : List ArrayId) (work : CallM α) : Prop :=
  Ensures (Backed bound) work (fun _ => Backed more) fun _ _ => True

theorem backs_of_rest {α : Type} {work : CallM α} (h : KeepsRest work) : Backs bound bound work := by
  intro call hcall
  have hkept := h call.rest call rfl
  rcases hexec : exec work call with ⟨stop | a, after⟩ <;> rw [hexec] at hkept
  · trivial
  · exact hcall.of_rest hkept

theorem backs_checkReadable (location : Location) (id : ArrayId) :
    Backs bound bound (checkReadable location id) := by
  intro call hcall
  rw [exec_checkReadable]
  cases call.tracker.checkReadable id location with
  | ok => exact hcall
  | error stop => trivial

theorem backs_onDevice {α : Type} (work : DeviceM α) : Backs bound bound (onDevice work) := by
  intro call hcall
  rw [exec_onDevice]
  cases (exec work call.machine.device).1 with
  | ok => exact hcall.withDevice _
  | error stop => trivial

theorem backs_bufferOf (id : ArrayId) (elem : Elem) (length : Nat) :
    Backs bound (id :: bound) (bufferOf id elem length) := by
  intro call hcall
  rw [exec_bufferOf]
  cases hb : call.buffers[id]? with
  | none => trivial
  | some found =>
    cases found with
    | some handle => exact hcall.cons fun _ => ⟨handle, hb⟩
    | none =>
      cases call.machine.device.zeroed .buffer elem length with
      | error stop => trivial
      | ok cells =>
        have hset : ∀ other, (call.buffers.set id (some (call.machine.device.lastHandle + 1)))[other]? =
            if other = id then some (some (call.machine.device.lastHandle + 1))
            else call.buffers[other]? := by
          intro other
          obtain ⟨hlt, _⟩ := List.getElem?_eq_some_iff.mp hb
          rw [List.getElem?_set]
          by_cases heq : id = other
          · simp [heq, heq ▸ hlt]
          · simp [heq, Ne.symm heq]
        refine ⟨hcall.owns, fun {other} hcopied hbound => ?_⟩
        by_cases heq : other = id
        · exact ⟨_, (hset other).trans (if_pos heq)⟩
        · obtain ⟨handle, hhandle⟩ := hcall.buffer hcopied
            (hbound.imp_left fun hmem => (List.mem_cons.mp hmem).resolve_left heq)
          exact ⟨handle, (hset other).trans ((if_neg heq).trans hhandle)⟩

/-! ## Steps keep the buffers -/

theorem backs_track {step : Tracker → ArrayId → Tracker} (hlocal : Tracker.Local step)
    (fresh : Tracker.KeepsFresh step) (id : ArrayId) :
    Backs bound bound (Call.track (step · id)) :=
  fun _ hcall => hcall.track hlocal fresh [id]

/-- The end of a transfer: the buffer of the array is not needed any more. -/
theorem backs_counted {step : Tracker → ArrayId → Tracker} (hlocal : Tracker.Local step)
    (fresh : Tracker.KeepsFresh step) (event : Event) (id : ArrayId) :
    Backs bound [] (do countTransfer; record event; Call.track (step · id)) := by
  intro call hcall
  have tracked := (hcall.mono (List.nil_subset _)).track hlocal fresh [id]
  exact ⟨tracked.owns, tracked.buffer⟩

theorem backs_copyIn (f : Func) (shapes : List Shape) (id : ArrayId) :
    Backs [] [] (copyIn f shapes id) := by
  refine (backs_checkReadable .host id).bind fun _ => Ensures.get fun call _ => ?_
  split
  · exact (backs_of_rest (keeps_expect _)).bind fun decl =>
      (backs_of_rest (keeps_sizeOf shapes id)).bind fun length =>
      (backs_bufferOf id decl.elem length).bind fun buffer =>
      (backs_of_rest (keeps_load id)).bind fun cells => (backs_onDevice _).bind fun _ =>
      backs_counted Tracker.local_copyIn Tracker.keepsFresh_copyIn _ id
  · exact backs_track Tracker.local_copyIn Tracker.keepsFresh_copyIn id

theorem backs_copyOut (f : Func) (shapes : List Shape) (id : ArrayId) :
    Backs [] [] (copyOut f shapes id) := by
  refine (backs_checkReadable .device id).bind fun _ => Ensures.get fun call _ => ?_
  split
  · exact (backs_of_rest (keeps_expect _)).bind fun decl =>
      (backs_of_rest (keeps_sizeOf shapes id)).bind fun length =>
      (backs_bufferOf id decl.elem length).bind fun buffer => Ensures.get fun call _ =>
      (backs_of_rest (keeps_zeros call.machine.device _ decl.elem length)).bind fun room =>
      (backs_onDevice _).bind fun cells => (backs_of_rest (keeps_store id cells)).bind fun _ =>
      backs_counted Tracker.local_copyOut Tracker.keepsFresh_copyOut _ id
  · exact backs_track Tracker.local_copyOut Tracker.keepsFresh_copyOut id

theorem backs_bindSlot (f : Func) (shapes : List Shape) (slot : KernelParam × ArrayId) :
    Backs bound (slot.2 :: bound) (bindSlot f shapes slot) := by
  obtain ⟨param, id⟩ := slot
  have placed : Backs bound (id :: bound) (placeOf f shapes id) := by
    intro call hcall
    rcases hs : call.host[id]? with _ | own | handle
    · simp only [placeOf, exec_bind, exec_get, exec_expect, hs, orFault]
    · have work : Backs bound (id :: bound) (do
          let decl ← expect (f.decl? id)
          bufferOf id decl.elem (← sizeOf shapes id)) :=
        (backs_of_rest (keeps_expect _)).bind fun decl =>
          (backs_of_rest (keeps_sizeOf shapes id)).bind fun length => backs_bufferOf _ _ _
      rw [placeOf, exec_bind, exec_get]
      simp only [hs]
      exact work call hcall
    · -- an array in shared memory is not copied, so it needs no buffer
      simp only [placeOf, exec_bind, exec_get, exec_expect, hs, orFault]
      refine hcall.cons fun hcopied => ?_
      obtain ⟨own, howned⟩ := hcall.owns hcopied
      rw [hs] at howned
      cases howned
  unfold bindSlot
  dsimp only
  split
  · exact (backs_checkReadable .device id).bind fun _ => placed
  · exact placed

theorem backs_bindSlots (f : Func) (shapes : List Shape) (slots : List (KernelParam × ArrayId)) :
    Backs bound (slots.map (·.2) ++ bound) (slots.mapM (bindSlot f shapes)) := by
  induction slots generalizing bound with
  | nil => exact Ensures.pure _ fun _ h => h
  | cons slot slots ih =>
    rw [List.mapM_cons]
    refine (backs_bindSlot f shapes slot).bind fun _ => ih.bind fun _ => Ensures.pure _ fun _ h => ?_
    refine h.mono fun id hid => ?_
    simp only [List.map_cons, List.cons_append, List.mem_cons, List.mem_append] at hid ⊢
    tauto

theorem backs_launch (f : Func) (shapes : List Shape) (kernel : CompiledKernel) :
    Backs [] [] (launch f shapes kernel) := by
  refine (backs_bindSlots f shapes _).bind fun buffers =>
    (backs_of_rest (keeps_expect _)).bind fun grid => (backs_of_rest (keeps_record _)).bind fun _ =>
    (backs_onDevice _).bind fun _ => ?_
  intro call hcall
  have hcounted : Backed _ { call with launches := call.launches + 1 } :=
    ⟨hcall.owns, hcall.buffer⟩
  rw [exec_bind, exec_modify]
  simp only [exec_trackAll Tracker.deviceWrite (fun slot : KernelParam × ArrayId => slot.2)]
  refine hcounted.deviceWrites fun id hid => ?_
  obtain ⟨slot, hslot, rfl⟩ := List.mem_map.mp hid
  exact List.mem_append_left _ (List.mem_map_of_mem (List.mem_filter.mp hslot).1)

theorem backs_hostWork (res : Shapes.Resolved f args table shapes) (checked writes : List ArrayId)
    {ops : List Op} (hops : ∀ op ∈ ops, op ∈ f.body) :
    Backs [] [] (hostWork f shapes table checked writes ops) := by
  refine (Ensures.forM _ fun id _ => backs_checkReadable .host id).bind fun _ =>
    (Ensures.forM _ fun op hop => backs_of_rest (keeps_hostOp res (hops op hop))).bind fun _ => ?_
  intro call hcall
  rw [exec_trackAll Tracker.hostWrite (fun id : ArrayId => id), List.map_id']
  exact hcall.track Tracker.local_hostWrite Tracker.keepsFresh_hostWrite writes

theorem backs_step {unit : CompiledUnit} (res : Shapes.Resolved unit.function args table shapes)
    (step : Step) : Backs [] [] (Call.step unit shapes table step) := by
  cases step with
  | copyIn id => exact backs_copyIn _ _ id
  | copyOut id => exact backs_copyOut _ _ id
  | launch index =>
    exact (backs_of_rest (keeps_expect _)).bind fun kernel => backs_launch _ _ kernel
  | hostRegion index =>
    exact (backs_of_rest (keeps_expect _)).bind fun region =>
      backs_hostWork res _ _ fun _ => Region.mem_body
  | hostOp index =>
    intro call hcall
    cases hop : unit.function.body[index]? with
    | none => simp only [Call.step, hop, exec_bind, exec_expect, orFault]
    | some op =>
      simp only [Call.step, hop, exec_bind, exec_expect, orFault, exec_singleOp]
      exact backs_hostWork res _ _ (by simpa using List.mem_of_getElem? hop) call hcall

theorem Started.backed {unit : CompiledUnit} {machine : Machine}
    (started : Started unit table args machine call shapes) (wf : unit.function.WellFormed)
    (accepted : unit.key.signature.Accepts unit.function args) : Backed [] call := by
  refine ⟨fun {id} => (started.copies wf accepted id).mp, fun _ hbound => ?_⟩
  rcases hbound with hmem | hstate
  · cases hmem
  · exact absurd hstate (Tracker.start?_fresh started.tracker _)

end Call

/-! ## A copy-out and the call before it -/

/-- A copy-out leaves the device as it is, but for the count. -/
theorem Device.alike_copyOut (handle length : Nat) (device : Device) :
    (exec (copyOut handle length) device).2.Alike device := by
  have htarget : (exec (transferTarget handle length) device).2 = device := by
    simp only [transferTarget, exec_bind, exec_get]
    split
    · split <;> rfl
    · rfl
  rw [copyOut, exec_bind]
  rcases hexec : exec (transferTarget handle length) device with ⟨stop | target, mid⟩
  · rw [hexec] at htarget
    exact ⟨device.counters, by rw [← htarget]⟩
  · rw [hexec] at htarget
    subst htarget
    exact ⟨mid.counters, rfl⟩

theorem Tracker.withState_state {tracker : Tracker} {id : ArrayId} {state : Residency}
    (h : tracker.state? id = some state) : tracker.withState id state = tracker := by
  obtain ⟨hlt, hget⟩ := List.getElem?_eq_some_iff.mp h
  rw [withState, ← hget, List.set_getElem_self]

theorem Tracker.withState_withState (tracker : Tracker) (id : ArrayId) (first second : Residency) :
    (tracker.withState id first).withState id second = tracker.withState id second := by
  simp only [withState, List.set_set]

namespace Call

variable {f : Func} {shapes : List Shape} {id : ArrayId} {call after : Call}

/-- A copy-out from a buffer that is there changes the host's copy and the tracker. -/
theorem copyOut_ok (backed : Backed [] call) (hcopied : call.tracker.isCopied id = true)
    (hstate : call.tracker.state? id = some .deviceValid)
    (hexec : exec (copyOut f shapes id) call = (.ok (), after)) :
    (∃ cells, ∀ array, after.host[array]? =
        if array = id then some (.owned cells) else call.host[array]?) ∧
      after.buffers = call.buffers ∧ after.machine.device.Alike call.machine.device ∧
      after.tracker = call.tracker.copyOut id := by
  obtain ⟨own, hs⟩ := backed.owns hcopied
  obtain ⟨handle, hb⟩ := backed.buffer hcopied (.inr hstate)
  simp only [copyOut, exec_bind_eq_ok, exec_checkReadable, exec_get, Prod.mk.injEq] at hexec
  obtain ⟨_, _, ⟨_, rfl⟩, _, _, ⟨hsame, rfl⟩, hexec⟩ := hexec
  cases hsame
  simp only [hcopied, if_true, exec_bind_eq_ok, exec_expect, Prod.mk.injEq] at hexec
  obtain ⟨decl, _, ⟨_, rfl⟩, length, mid, hsize, hexec⟩ := hexec
  have unchanged : Keeps (fun call : Call => call) Failure (sizeOf shapes id) := keeps_sizeOf _ _
  obtain rfl : mid = call := (unchanged call).of_ok rfl hsize
  obtain ⟨buffer, _, hbuffer, _, _, hgot, room, roomy, hroom, cells, moved, hmoved, _, stored,
    hstored, hexec⟩ := hexec
  rw [exec_bufferOf, hb] at hbuffer
  cases hbuffer
  cases hgot
  rw [exec_ofExcept] at hroom
  obtain rfl : mid = roomy := congrArg Prod.snd hroom
  rw [exec_onDevice] at hmoved
  obtain rfl : mid.withDevice (exec (Device.copyOut handle room.size) mid.machine.device).2 =
    moved := congrArg Prod.snd hmoved
  have howns : (mid.withDevice
      (exec (Device.copyOut handle room.size) mid.machine.device).2).Owns id := ⟨own, hs⟩
  rw [exec_store, withCells_of_owns howns] at hstored
  split at hstored
  · cases hstored
  · split at hstored
    · cases hstored
      obtain ⟨_, _, hcounted, _, _, hrecorded, htracked⟩ := hexec
      cases hcounted
      cases hrecorded
      cases htracked
      exact ⟨⟨cells, host_setHost howns cells⟩, rfl, Device.alike_copyOut handle room.size _, rfl⟩
    · cases hstored

/-- After a copy-out, the call beside itself before it. -/
theorem shadows_copyOut (backed : Backed [] call) (hcopied : call.tracker.isCopied id = true)
    (hstate : call.tracker.state? id = some .deviceValid)
    (hexec : exec (copyOut f shapes id) call = (.ok (), after)) : Shadows id after call := by
  obtain ⟨⟨cells, hhost⟩, hbuffers, hdevice, htracker⟩ := copyOut_ok backed hcopied hstate hexec
  obtain ⟨own, hs⟩ := backed.owns hcopied
  rw [Tracker.copyOut, if_pos hstate] at htracker
  refine ⟨fun {array} hne => ?_, ?_, hbuffers.symm, hdevice, ?_, ?_⟩
  · rw [hhost, if_neg hne]
  · rw [hhost, if_pos rfl, hs]
    rfl
  · rw [htracker, Tracker.withState_withState, Tracker.withState_state hstate]
  · rw [htracker, Tracker.state?_withState, if_pos rfl, hstate]
    rfl

end Call

end ArrayOffload
