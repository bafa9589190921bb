import ArrayOffload.Proofs.Frame
import ArrayOffload.Proofs.Persistence

/-!
# What a call gives back

A call allocates buffers when it first needs them. At any moment the live buffers of the device are
those from before the call and those that the call holds, so giving the latter back restores the
former. This holds for every list of steps, and wherever the call stops.

* `Call.Holds`: the invariant;
* `Call.preserves_step`: one step keeps it, whether the step succeeds or not;
* `Call.Holds.close`: what is left after the call has given its buffers back;
* `CompiledUnit.run_restores`: calls restore the device, and failed calls the arguments.
-/

namespace ArrayOffload

namespace Call

/-- The reasons for which a step can stop. -/
inductive StepStop : Stop OffloadError → Prop
  | stale (array : String) (location : Location) (state : Residency) :
      StepStop (.error (.residency array location state))
  | failed {stop : Stop OffloadError} : Failure stop → StepStop stop

/-- The buffers that a call has to give back. -/
def held (call : Call) : List Nat := call.buffers.filterMap id

/-- The device has the programs and buffers that it had at first, and the buffers that the call
holds. -/
structure Holds (origin : Device) (call : Call) : Prop where
  programs : call.machine.device.programs = origin.programs
  bounded : call.machine.device.Bounded
  live : call.machine.device.buffers.keys.filter (· ∉ call.held) = origin.buffers.keys
  handles : origin.lastHandle ≤ call.machine.device.lastHandle

/-- All that the invariant looks at. -/
def holdings (call : Call) : List (Option Nat) × List Nat × HandleTable Kernel × Nat :=
  (call.buffers, call.machine.device.handles)

variable {origin : Device} {call : Call}

theorem Holds.of_holdings {other : Call} (h : Holds origin call)
    (hsame : other.holdings = call.holdings) : Holds origin other := by
  simp only [holdings, Device.handles, Prod.mk.injEq] at hsame
  obtain ⟨hbuffers, hkeys, hprograms, hlast⟩ := hsame
  refine ⟨hprograms.trans h.programs, ?_, ?_, hlast ▸ h.handles⟩
  · unfold Device.Bounded
    rw [hkeys, hlast]
    exact h.bounded
  · rw [held, hbuffers, hkeys]
    exact h.live

/-- The work keeps the invariant, whether it succeeds or stops. -/
abbrev Preserves {α : Type} (origin : Device) (work : CallM α) : Prop :=
  Ensures (Holds origin) work (fun _ => Holds origin) fun stop call =>
    Holds origin call ∧ StepStop stop

theorem preserves_of_keeps {α : Type} {work : CallM α} (h : Keeps holdings Failure work) :
    Preserves origin work := by
  intro call hcall
  have hkept := h call.holdings call rfl
  rcases hexec : exec work call with ⟨stop | a, after⟩ <;> rw [hexec] at hkept
  · exact ⟨hcall.of_holdings hkept.1, .failed hkept.2⟩
  · exact hcall.of_holdings hkept

theorem preserves_of_rest {α : Type} {work : CallM α} (h : KeepsRest work) :
    Preserves origin work :=
  preserves_of_keeps (h.mono fun _ _ hrest => congrArg (fun call => call.holdings) hrest)

theorem preserves_expect {α : Type} (found : Option α) : Preserves origin (expect found) :=
  preserves_of_keeps (keeps_expect found)

/-! ## Single actions -/

theorem preserves_checkReadable (location : Location) (id : ArrayId) :
    Preserves origin (checkReadable location id) := by
  intro call hcall
  rw [exec_checkReadable]
  cases hcheck : call.tracker.checkReadable id location with
  | ok => exact hcall
  | error stop =>
    refine ⟨hcall, ?_⟩
    unfold Tracker.checkReadable at hcheck
    split at hcheck
    · split at hcheck
      · cases hcheck
      · cases hcheck
        exact .stale _ _ _
    · cases hcheck
      exact .failed .fault

theorem preserves_onDevice {α : Type} {work : DeviceM α}
    (h : Keeps Device.handles (fun _ => True) work) : Preserves origin (onDevice work) := by
  refine preserves_of_keeps fun v => ensures_onDevice fun call hcall =>
    (h call.machine.device.handles).weaken (fun _ hd => hd ▸ rfl) (fun _ device hkept => ?_)
      fun stop device hkept => ⟨?_, .ofDevice stop⟩
  · exact (congrArg (Prod.mk call.buffers) hkept).trans hcall
  · exact (congrArg (Prod.mk call.buffers) hkept.1).trans hcall

theorem mem_held {handle : Nat} : handle ∈ call.held ↔ some handle ∈ call.buffers := by
  simp [held]

/-- A first buffer for an array adds to what there is. -/
theorem mem_set_buffer {buffers : List (Option Nat)} {id : ArrayId} (h : buffers[id]? = some none)
    (handle other : Nat) :
    some other ∈ buffers.set id (some handle) ↔ some other ∈ buffers ∨ other = handle := by
  obtain ⟨hlt, hnone⟩ := List.getElem?_eq_some_iff.mp h
  constructor
  · intro hmem
    rcases List.mem_or_eq_of_mem_set hmem with hold | hnew
    · exact .inl hold
    · exact .inr (Option.some.inj hnew)
  · rintro (hold | rfl)
    · obtain ⟨i, hi⟩ := List.getElem?_of_mem hold
      have hne : id ≠ i := by
        rintro rfl
        rw [h] at hi
        cases hi
      exact List.mem_of_getElem? ((List.getElem?_set_ne hne).trans hi)
    · exact List.mem_set hlt _

/-- A new buffer has a handle that was never given out, so what was live before stays apart. -/
theorem Holds.allocated (h : Holds origin call) {id : ArrayId} (hb : call.buffers[id]? = some none)
    (elem : Elem) (cells : Cells) :
    Holds origin
      { call.withDevice (call.machine.device.allocated elem cells) with
        buffers := call.buffers.set id (some (call.machine.device.lastHandle + 1)) } := by
  have hnew : call.machine.device.lastHandle + 1 ∉ call.machine.device.buffers.keys :=
    fun hmem => absurd (h.bounded _ hmem) (by omega)
  have hkeys : (call.machine.device.allocated elem cells).buffers.keys =
      call.machine.device.buffers.keys ++ [call.machine.device.lastHandle + 1] :=
    HandleTable.keys_set_of_not_mem _ hnew
  refine ⟨h.programs, ?_, ?_, Nat.le_succ_of_le h.handles⟩
  · intro key hkey
    change key ∈ (call.machine.device.allocated elem cells).buffers.keys at hkey
    rw [hkeys] at hkey
    rcases List.mem_append.mp hkey with hold | hfresh
    · exact Nat.le_succ_of_le (h.bounded key hold)
    · exact Nat.le_of_eq (List.mem_singleton.mp hfresh)
  · -- the new handle joins both the live ones and those that the call holds
    change (call.machine.device.allocated elem cells).buffers.keys.filter _ = _
    rw [hkeys, List.filter_append, ← h.live]
    refine (congr (congrArg _ (List.filter_congr fun key hkey => ?_)) ?_).trans (List.append_nil _)
    · have hne : key ≠ call.machine.device.lastHandle + 1 := fun heq => hnew (heq ▸ hkey)
      simp [mem_held, mem_set_buffer hb, hne]
    · simp [mem_held, mem_set_buffer hb]

theorem preserves_bufferOf (id : ArrayId) (elem : Elem) (length : Nat) :
    Preserves origin (bufferOf id elem length) := by
  intro call hcall
  rw [exec_bufferOf]
  cases hb : call.buffers[id]? with
  | none => exact ⟨hcall, .failed .fault⟩
  | some found =>
    cases found with
    | some handle => exact hcall
    | none =>
      cases call.machine.device.zeroed .buffer elem length with
      | error stop => exact ⟨hcall, .failed (.ofDevice stop)⟩
      | ok cells => exact hcall.allocated hb elem cells

/-! ## Steps -/

/-- The end of a transfer changes counts, the log and the tracker only. -/
theorem preserves_counted (event : Event) (step : Tracker → Tracker) :
    Preserves origin (do countTransfer; record event; track step) := by
  intro call hcall
  exact hcall.of_holdings rfl

theorem preserves_copyIn (f : Func) (shapes : List Shape) (id : ArrayId) :
    Preserves origin (copyIn f shapes id) := by
  refine (preserves_checkReadable .host id).bind fun _ => Ensures.get fun call _ => ?_
  split
  · exact (preserves_expect _).bind fun decl =>
      (preserves_of_keeps (keeps_sizeOf shapes id)).bind fun length =>
      (preserves_bufferOf id decl.elem length).bind fun buffer =>
      (preserves_of_keeps (keeps_load id)).bind fun cells =>
      (preserves_onDevice (Device.keepsHandles_copyIn buffer cells)).bind fun _ =>
      preserves_counted _ _
  · exact fun call hcall => hcall.of_holdings rfl

theorem preserves_copyOut (f : Func) (shapes : List Shape) (id : ArrayId) :
    Preserves origin (copyOut f shapes id) := by
  refine (preserves_checkReadable .device id).bind fun _ => Ensures.get fun call _ => ?_
  split
  · exact (preserves_expect _).bind fun decl =>
      (preserves_of_keeps (keeps_sizeOf shapes id)).bind fun length =>
      (preserves_bufferOf id decl.elem length).bind fun buffer => Ensures.get fun call _ =>
      (preserves_of_keeps (keeps_zeros call.machine.device _ decl.elem length)).bind fun room =>
      (preserves_onDevice (Device.keepsHandles_copyOut buffer room.size)).bind fun cells =>
      (preserves_of_rest (keeps_store id cells)).bind fun _ => preserves_counted _ _
  · exact fun call hcall => hcall.of_holdings rfl

theorem preserves_bindSlot (f : Func) (shapes : List Shape) (slot : KernelParam × ArrayId) :
    Preserves origin (bindSlot f shapes slot) := by
  obtain ⟨param, id⟩ := slot
  have bound : Preserves origin (placeOf f shapes id) := by
    refine Ensures.get fun call _ => (preserves_expect _).bind fun storage => ?_
    cases storage with
    | shared handle => exact fun call hcall => hcall
    | owned cells =>
      exact (preserves_expect _).bind fun decl =>
        (preserves_of_keeps (keeps_sizeOf shapes id)).bind fun length =>
        preserves_bufferOf id decl.elem length
  unfold bindSlot
  dsimp only
  split
  · exact (preserves_checkReadable .device id).bind fun _ => bound
  · exact bound

theorem preserves_trackAll {α : Type} (step : Tracker → ArrayId → Tracker) (idOf : α → ArrayId)
    (xs : List α) : Preserves origin (xs.forM fun x => track (step · (idOf x))) :=
  Ensures.forM xs fun _ _ _ hcall => hcall.of_holdings rfl

theorem preserves_launch (f : Func) (shapes : List Shape) (kernel : CompiledKernel) :
    Preserves origin (launch f shapes kernel) := by
  refine (Ensures.mapM _ fun slot _ => preserves_bindSlot f shapes slot).bind fun buffers =>
    (preserves_expect _).bind fun grid => (preserves_of_rest (keeps_record _)).bind fun _ =>
    (preserves_onDevice (Device.keepsHandles_launch _ _ _)).bind fun _ => Ensures.bind ?_ fun _ =>
    preserves_trackAll Tracker.deviceWrite (fun slot : KernelParam × ArrayId => slot.2) _
  exact fun call hcall => hcall.of_holdings rfl

section
variable {unit : CompiledUnit} {args : List ArrayValue} {shapes : List Shape} {table : HostTable}
  (res : Shapes.Resolved unit.function args table shapes)

include res

theorem preserves_hostOps {ops : List Op} (hops : ∀ op ∈ ops, op ∈ unit.function.body) :
    Preserves origin (ops.forM (hostOp unit.function shapes table)) :=
  Ensures.forM ops fun op hop => preserves_of_rest (keeps_hostOp res (hops op hop))

theorem preserves_step (step : Step) : Preserves origin (Call.step unit shapes table step) := by
  cases step with
  | copyIn id => exact preserves_copyIn _ _ id
  | copyOut id => exact preserves_copyOut _ _ id
  | launch index => exact (preserves_expect _).bind fun kernel => preserves_launch _ _ kernel
  | hostRegion index =>
    exact (preserves_expect _).bind fun region =>
      (Ensures.forM _ fun id _ => preserves_checkReadable .host id).bind fun _ =>
      (preserves_hostOps res fun _ => Region.mem_body).bind fun _ =>
      preserves_trackAll Tracker.hostWrite (fun id : ArrayId => id) _
  | hostOp index =>
    -- host operations are known to keep the rest for operations of the body only
    intro call hcall
    cases hop : unit.function.body[index]? with
    | none =>
      rw [Call.step, hop, exec_bind, exec_expect, orFault]
      exact ⟨hcall, .failed .fault⟩
    | some op =>
      rw [Call.step, hop, exec_bind, exec_expect, orFault]
      have hmem := List.mem_of_getElem? hop
      have single : Preserves origin (singleOp unit.function shapes table op) :=
        (Ensures.forM _ fun id _ => preserves_checkReadable .host id).bind fun _ =>
          (preserves_of_rest (keeps_hostOp res hmem)).bind fun _ =>
          preserves_trackAll Tracker.hostWrite (fun id : ArrayId => id) _
      exact single call hcall

theorem holds_steps (steps : List Step) :
    Maintains (Holds origin) (steps.forM (Call.step unit shapes table)) :=
  (Ensures.forM steps fun step _ => preserves_step res step).weaken (fun _ h => h)
    (fun _ _ h => h) fun _ _ h => h.1

/-- A whole call keeps the invariant, however it ends. -/
theorem preserves_body : Preserves origin (Call.body unit shapes table args) := by
  refine (Ensures.forM _ fun step _ => preserves_step res step).bind fun _ =>
    Ensures.get fun call _ => Ensures.bind ?_ fun _ =>
    (preserves_of_keeps (keeps_returned _ _ _)).bind fun result =>
    Ensures.get fun final _ => Ensures.pure _ fun _ h => h
  exact Ensures.forM _ fun binding _ => preserves_checkReadable .host binding.array

end

/-! ## The end of a call -/

theorem started_holds {unit : CompiledUnit} {table : HostTable} {args : List ArrayValue}
    {machine : Machine} {shapes : List Shape} (started : Started unit table args machine call shapes)
    (bounded : machine.device.Bounded) : Holds machine.device call := by
  have hheld : call.held = [] := by simp [held, started.buffers]
  refine ⟨?_, ?_, ?_, Nat.le_of_eq (by rw [started.machine])⟩
  · rw [started.machine]
  · rw [started.machine]
    exact bounded
  · rw [hheld, started.machine]
    simp

theorem releases_keys (handles : List Nat) (device : Device) :
    (handles.foldl Device.release device).buffers.keys =
        device.buffers.keys.filter (· ∉ handles) ∧
      (handles.foldl Device.release device).programs = device.programs ∧
      (handles.foldl Device.release device).lastHandle = device.lastHandle := by
  induction handles generalizing device with
  | nil => exact ⟨(List.filter_eq_self.mpr fun _ _ => by simp).symm, rfl, rfl⟩
  | cons handle rest ih =>
    have hone : (device.release handle).buffers.keys = device.buffers.keys.filter (· ≠ handle) ∧
        (device.release handle).programs = device.programs ∧
        (device.release handle).lastHandle = device.lastHandle := by
      unfold Device.release
      split
      · exact ⟨HandleTable.keys_erase _ _, rfl, rfl⟩
      · next habsent =>
        refine ⟨(List.filter_eq_self.mpr fun key hkey => ?_).symm, rfl, rfl⟩
        rw [HandleTable.contains_iff] at habsent
        simpa using fun heq : key = handle => habsent (heq ▸ hkey)
    obtain ⟨hkeys, hprograms, hlast⟩ := ih (device.release handle)
    refine ⟨?_, hprograms.trans hone.2.1, hlast.trans hone.2.2⟩
    rw [List.foldl_cons, hkeys, hone.1, List.filter_filter]
    refine List.filter_congr fun key _ => ?_
    simp [Bool.and_comm]

/-- After a call has given its buffers back, the device has what it had before. -/
theorem Holds.close (h : Holds origin call) :
    call.close.device.buffers.keys = origin.buffers.keys ∧
      call.close.device.programs = origin.programs ∧ call.close.device.Bounded := by
  obtain ⟨hkeys, hprograms, hlast⟩ := releases_keys call.held call.machine.device
  refine ⟨hkeys.trans h.live, hprograms.trans h.programs, fun key hkey => ?_⟩
  change key ∈ (call.held.foldl Device.release call.machine.device).buffers.keys at hkey
  change key ≤ (call.held.foldl Device.release call.machine.device).lastHandle
  rw [hkeys] at hkey
  rw [hlast]
  exact h.bounded key (List.mem_filter.mp hkey).1

end Call

/-- Whatever a call does, the device keeps its programs, and handles are never given out again. -/
theorem CompiledUnit.run_programs (unit : CompiledUnit) (table : HostTable)
    (args : List ArrayValue) (machine : Machine) (bounded : machine.device.Bounded) :
    (unit.run table args machine).machine.device.programs = machine.device.programs ∧
      machine.device.lastHandle ≤ (unit.run table args machine).machine.device.lastHandle ∧
      (unit.run table args machine).machine.device.Bounded := by
  have hclosed : ∀ {call : Call}, Call.Holds machine.device call →
      call.close.device.programs = machine.device.programs ∧
        machine.device.lastHandle ≤ call.close.device.lastHandle ∧ call.close.device.Bounded := by
    intro call holds
    obtain ⟨_, hprograms, hbounded⟩ := holds.close
    obtain ⟨_, _, hlast⟩ := Call.releases_keys call.held call.machine.device
    exact ⟨hprograms, Nat.le_trans holds.handles (Nat.le_of_eq hlast.symm), hbounded⟩
  cases hstart : Call.start unit table args machine with
  | error stop =>
    rw [run_of_rejected hstart]
    exact ⟨rfl, Nat.le_refl _, bounded⟩
  | ok opened =>
    obtain ⟨call, shapes⟩ := opened
    have started := Call.start_ok hstart
    have preserved := Call.preserves_body started.resolved call (Call.started_holds started bounded)
    rcases hbody : exec (Call.body unit shapes table args) call with ⟨stop | outcome, final⟩
    · rw [hbody] at preserved
      rw [run_of_error hstart hbody]
      exact hclosed preserved.1
    · rw [hbody] at preserved
      rw [run_of_ok hstart hbody]
      exact hclosed preserved

/-- What a caller can tell about an array without its values. -/
def ArrayValue.outline (a : ArrayValue) : Elem × Shape × Allocator := (a.elem, a.shape, a.allocator)

theorem ArrayValue.outline_withCells (a : ArrayValue) (cells : Cells) :
    (a.withCells cells).outline = a.outline := by
  obtain ⟨elem, shape, storage⟩ := a
  cases storage <;> rfl

theorem Call.outline_commit (ids : List ArrayId) (host : List Storage) (args : List ArrayValue) :
    (commit ids host args).map ArrayValue.outline = args.map ArrayValue.outline := by
  fun_induction commit ids host args with
  | case1 host id ids arg args cells hid ih => simp [ArrayValue.outline_withCells, ih]
  | case2 host id ids arg args hid ih => simp [ih]
  | case3 => rfl

/-- Calls restore the device, whatever the steps of the unit are and however the call ends. A failed
call leaves the arguments alone, and one that fails before its first step leaves everything alone.
Shapes that do not fit and missing callees are reported before the first step only. -/
theorem CompiledUnit.run_restores (unit : CompiledUnit) (table : HostTable)
    (args : List ArrayValue) (machine : Machine) (bounded : machine.device.Bounded) :
    ((unit.run table args machine).machine.device.buffers.keys = machine.device.buffers.keys ∧
      (unit.run table args machine).machine.device.programs = machine.device.programs ∧
      (unit.run table args machine).machine.device.Bounded) ∧
    (∀ stop, (unit.run table args machine).result = .error stop →
      (unit.run table args machine).args = args) ∧
    (∀ stop, Call.start unit table args machine = .error stop →
      unit.run table args machine = ⟨.error stop, args, machine⟩) ∧
    (∀ outcome, (unit.run table args machine).result = .ok outcome →
      (unit.run table args machine).args.map ArrayValue.outline = args.map ArrayValue.outline) ∧
    (∀ function cause,
      (unit.run table args machine).result = .error (.error (.arguments function cause)) →
      Call.start unit table args machine = .error (.error (.arguments function cause))) ∧
    ∀ callee, (unit.run table args machine).result = .error (.error (.unresolvedCall callee)) →
      Call.start unit table args machine = .error (.error (.unresolvedCall callee)) := by
  -- a call fails before its first step, or for a reason that only steps have
  have hlate : ∀ stop, (unit.run table args machine).result = .error stop →
      Call.start unit table args machine = .error stop ∨ Call.StepStop stop := by
    intro stop hstop
    rcases cases_of_run_error hstop with hstart | ⟨call, shapes, final, hstart, hbody⟩
    · exact .inl hstart
    · have started := Call.start_ok hstart
      exact .inr ((Call.preserves_body started.resolved).of_error
        (Call.started_holds started bounded) hbody).2
  refine ⟨?_, ?_, fun stop hstart => run_of_rejected hstart, ?_, ?_, ?_⟩
  · cases hstart : Call.start unit table args machine with
    | error stop =>
      rw [run_of_rejected hstart]
      exact ⟨rfl, rfl, bounded⟩
    | ok opened =>
      obtain ⟨call, shapes⟩ := opened
      have started := Call.start_ok hstart
      have preserved := Call.preserves_body started.resolved call
        (Call.started_holds started bounded)
      rcases hbody : exec (Call.body unit shapes table args) call with ⟨stop | outcome, final⟩
      · rw [hbody] at preserved
        rw [run_of_error hstart hbody]
        exact preserved.1.close
      · rw [hbody] at preserved
        rw [run_of_ok hstart hbody]
        exact preserved.close
  · intro stop hstop
    rcases cases_of_run_error hstop with hstart | ⟨call, shapes, final, hstart, hbody⟩
    · rw [run_of_rejected hstart]
    · rw [run_of_error hstart hbody]
  · intro outcome hok
    obtain ⟨call, shapes, final, hstart, hbody⟩ := exists_of_run_ok hok
    rw [run_of_ok hstart hbody]
    exact Call.outline_commit _ _ _
  · intro function cause hstop
    rcases hlate _ hstop with hstart | hstep
    · exact hstart
    · cases hstep with
      | failed hfailure => cases hfailure
  · intro callee hstop
    rcases hlate _ hstop with hstart | hstep
    · exact hstart
    · cases hstep with
      | failed hfailure => cases hfailure

/-- The reason that a device gives for a launch that it did not take. -/
def Sample.refusal? {α : Type} : Except (Stop OffloadError) α → Option String
  | .error (.error (.device (.enqueueFailed reason))) => some reason
  | _ => none

theorem Sample.eq_of_refusal? {α : Type} {r : Except (Stop OffloadError) α} {reason : String}
    (h : refusal? r = some reason) : r = .error (.error (.device (.enqueueFailed reason))) := by
  unfold refusal? at h
  split at h
  · cases h
    rfl
  · cases h

/-- A launch of `Sample.blend` that is made to fail ends the call after it got buffers of its own.
Only the buffer of the shared arguments is left. -/
theorem CompiledUnit.run_restores_sample : ∃ unit lowered reason,
    Sample.lower .gpu Sample.machine = (.ok unit, lowered) ∧
    let machine := { lowered with device := { lowered.device with failLaunch := some "busy" } }
    machine.device.Bounded ∧
    (unit.run Sample.table Sample.args machine).result =
      .error (.error (.device (.enqueueFailed reason))) ∧
    (unit.run Sample.table Sample.args machine).machine.device.buffers.keys = [1] ∧
    (unit.run Sample.table Sample.args machine).args = Sample.args := by
  obtain ⟨unit, lowered, hlowered, hcheck⟩ := Sample.lower_of_check .gpu Sample.machine
    (fun unit lowered => decide (lowered.device.buffers.keys = [1]) &&
      (Sample.refusal? (unit.run Sample.table Sample.args { lowered with
        device := { lowered.device with failLaunch := some "busy" } }).result).isSome)
    (by decide +kernel)
  simp only [Bool.and_eq_true, decide_eq_true_eq] at hcheck
  obtain ⟨hkeys, hfailed⟩ := hcheck
  obtain ⟨reason, hreason⟩ := Option.isSome_iff_exists.mp hfailed
  have hresult := Sample.eq_of_refusal? hreason
  have bounded : lowered.device.Bounded :=
    (Lowering.run_preserves hlowered).bounded Sample.bounded
  obtain ⟨⟨hbuffers, _, _⟩, hargs, _⟩ := run_restores unit Sample.table Sample.args
    { lowered with device := { lowered.device with failLaunch := some "busy" } } bounded
  exact ⟨unit, lowered, reason, hlowered, bounded, hresult, hbuffers.trans hkeys, hargs _ hresult⟩

end ArrayOffload
