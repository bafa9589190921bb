import ArrayOffload.Proofs.Reference
import ArrayOffload.Proofs.Schedule

/-!
# Calls that differ in a stale copy

Two calls that differ only in the host's copy of one array, which one of them has and the other lacks,
do the same in every step that leaves the array alone on the host. So far as they go, neither the
device nor the host can tell them apart.

* `Mirrors`: two works that end in the same way and in related states;
* `Device.Alike`: devices that differ in what they have counted;
* `Call.Shadows`: a call that lacks the host's copy of an array, beside one that has it;
* `Call.shadows_step`: steps in which the array is idle;
* `Call.Shadows.checks_stop`: the first check of the copy that is missing.
-/

namespace ArrayOffload

/-- From related states, the works end in the same way and in related states. -/
def Mirrors {σ ε α : Type} (rel : σ → σ → Prop) (work other : ExceptT ε (StateM σ) α) : Prop :=
  ∀ s t, rel s t → (exec work s).1 = (exec other t).1 ∧ rel (exec work s).2 (exec other t).2

namespace Mirrors

variable {σ ε α β : Type} {rel : σ → σ → Prop}

theorem pure (a : α) : Mirrors rel (Pure.pure a : ExceptT ε (StateM σ) α) (Pure.pure a) :=
  fun _ _ h => ⟨rfl, h⟩

theorem ofExcept (r : Except ε α) :
    Mirrors rel (MonadExcept.ofExcept r : ExceptT ε (StateM σ) α) (MonadExcept.ofExcept r) := by
  intro s t h
  rw [exec_ofExcept, exec_ofExcept]
  exact ⟨rfl, h⟩

theorem throw (e : ε) :
    Mirrors rel (throw e : ExceptT ε (StateM σ) α) (MonadExcept.throw e) :=
  fun _ _ h => ⟨rfl, h⟩

theorem modify {f : σ → σ} (h : ∀ s t, rel s t → rel (f s) (f t)) :
    Mirrors rel (modify f : ExceptT ε (StateM σ) PUnit) (modify f) :=
  fun s t hst => ⟨rfl, h s t hst⟩

theorem bind {work other : ExceptT ε (StateM σ) α} {next later : α → ExceptT ε (StateM σ) β}
    (first : Mirrors rel work other) (second : ∀ a, Mirrors rel (next a) (later a)) :
    Mirrors rel (work >>= next) (other >>= later) := by
  intro s t h
  obtain ⟨hresult, hrel⟩ := first s t h
  rw [exec_bind, exec_bind]
  rcases hs : exec work s with ⟨e | a, s'⟩ <;> rcases ht : exec other t with ⟨e' | a', t'⟩ <;>
    rw [hs, ht] at hresult hrel <;> cases hresult
  · exact ⟨rfl, hrel⟩
  · exact second a s' t' hrel

/-- A look at the state. -/
theorem get {next later : σ → ExceptT ε (StateM σ) β}
    (h : ∀ s t, rel s t → Mirrors rel (next s) (later t)) :
    Mirrors rel (MonadState.get >>= next) (MonadState.get >>= later) := by
  intro s t hst
  rw [exec_bind, exec_bind, exec_get, exec_get]
  exact h s t hst s t hst

theorem forM {f : α → ExceptT ε (StateM σ) PUnit} (xs : List α)
    (round : ∀ x ∈ xs, Mirrors rel (f x) (f x)) : Mirrors rel (xs.forM f) (xs.forM f) := by
  induction xs with
  | nil => exact pure _
  | cons x xs ih => exact (round x (by simp)).bind fun _ => ih fun y hy => round y (by simp [hy])

theorem mapM {f : α → ExceptT ε (StateM σ) β} (xs : List α)
    (round : ∀ x ∈ xs, Mirrors rel (f x) (f x)) : Mirrors rel (xs.mapM f) (xs.mapM f) := by
  induction xs with
  | nil => exact pure _
  | cons x xs ih =>
    rw [List.mapM_cons]
    exact (round x (by simp)).bind fun _ => (ih fun y hy => round y (by simp [hy])).bind
      fun _ => pure _

/-- Work that succeeds is mirrored by work that succeeds. -/
theorem of_ok {work other : ExceptT ε (StateM σ) α} (h : Mirrors rel work other) {s s' t : σ} {a : α}
    (hst : rel s t) (hexec : exec work s = (.ok a, s')) :
    ∃ t', exec other t = (.ok a, t') ∧ rel s' t' := by
  obtain ⟨hresult, hrel⟩ := h s t hst
  rcases ht : exec other t with ⟨result, t'⟩
  rw [hexec, ht] at hresult hrel
  exact ⟨t', Prod.ext hresult.symm rfl, hrel⟩

end Mirrors

/-! ## The device -/

namespace Device

/-- Devices that differ in what they have counted. -/
def Alike (device other : Device) : Prop :=
  ∃ counters, other = { device with counters }

/-- Work that does not look at what was counted. -/
abbrev Uncounted {α : Type} (work : DeviceM α) : Prop := Mirrors Alike work work

theorem alike_withCells {device other : Device} (h : device.Alike other) (handle : Nat)
    (cells : Cells) : (device.withCells handle cells).Alike (other.withCells handle cells) := by
  obtain ⟨counters, rfl⟩ := h
  refine ⟨counters, ?_⟩
  unfold withCells
  dsimp only
  split <;> rfl

theorem uncounted_count (f : Counters → Counters) : Uncounted (count f) :=
  Mirrors.modify fun _ _ ⟨_, h⟩ => h ▸ ⟨_, rfl⟩

theorem uncounted_load (kernel : Kernel) (bindings : List Nat) (slot need : Nat) :
    Uncounted (load kernel bindings slot need) := by
  refine (Mirrors.ofExcept _).bind fun handle => Mirrors.get fun device other h => ?_
  obtain ⟨counters, rfl⟩ := h
  refine Mirrors.bind (Mirrors.ofExcept _) fun cells => ?_
  split
  · exact Mirrors.pure _
  · exact Mirrors.throw _

theorem uncounted_save (bindings : List Nat) (slot : Nat) (old values : Cells) :
    Uncounted (save bindings slot old values) :=
  (Mirrors.ofExcept _).bind fun handle => Mirrors.modify fun _ _ h => alike_withCells h handle _

theorem uncounted_loadOperand (kernel : Kernel) (bindings : List Nat) (size : Nat)
    (operand : KernelOperand) : Uncounted (loadOperand kernel bindings size operand) := by
  cases operand with
  | slot index => exact (uncounted_load _ _ _ _).bind fun cells => Mirrors.pure _
  | scalar constant => exact Mirrors.pure _

theorem uncounted_runOp (kernel : Kernel) (bindings : List Nat) (size : Nat) (op : KernelOp) :
    Uncounted (runOp kernel bindings size op) := by
  cases op with
  | map out op args =>
    refine (Mirrors.mapM args fun a _ => uncounted_loadOperand _ _ _ a).bind fun inputs =>
      (Mirrors.ofExcept _).bind fun param => ?_
    split
    · exact (uncounted_load _ _ _ _).bind fun old => uncounted_save _ _ _ _
    · exact Mirrors.throw _
  | reduce out op input =>
    exact (uncounted_load _ _ _ _).bind fun values => (uncounted_load _ _ _ _).bind fun old =>
      (Mirrors.ofExcept _).bind fun param => uncounted_save _ _ _ _

theorem uncounted_checkBindings (kernel : Kernel) (slots : List (KernelParam × Nat)) :
    Uncounted (checkBindings kernel slots) := by
  induction slots with
  | nil => exact Mirrors.pure _
  | cons slot rest ih =>
    obtain ⟨param, handle⟩ := slot
    refine Mirrors.get fun device other h => ?_
    obtain ⟨counters, rfl⟩ := h
    dsimp only
    split
    · exact Mirrors.throw _
    · split
      · exact ih
      · exact Mirrors.throw _

theorem uncounted_run (kernel : Kernel) (bindings : List Nat) (size : Nat) :
    Uncounted (run kernel bindings size) := by
  unfold run
  split
  · exact (uncounted_checkBindings _ _).bind fun _ =>
      Mirrors.forM _ fun op _ => uncounted_runOp _ _ _ op
  · exact Mirrors.throw _

theorem uncounted_launch (program : Nat) (grid : Shape) (bindings : List Nat) :
    Uncounted (launch program grid bindings) := by
  have htake : Uncounted takeLaunchFailure := by
    refine Mirrors.get fun device other h => ?_
    obtain ⟨counters, rfl⟩ := h
    exact (Mirrors.modify fun _ _ ⟨_, h⟩ => h ▸ ⟨_, rfl⟩).bind fun _ => Mirrors.pure _
  refine htake.bind fun failure => ?_
  cases failure with
  | some reason => exact Mirrors.throw _
  | none =>
    refine Mirrors.get fun device other h => ?_
    obtain ⟨counters, rfl⟩ := h
    dsimp only
    split
    · exact Mirrors.throw _
    · split
      · refine Mirrors.get fun device other h => ?_
        obtain ⟨counters, rfl⟩ := h
        exact (Mirrors.ofExcept (device.points grid)).bind fun size =>
          (uncounted_run _ _ size).bind fun _ => uncounted_count _
      · exact Mirrors.throw _

theorem uncounted_transferTarget (handle length : Nat) :
    Uncounted (transferTarget handle length) := by
  refine Mirrors.get fun device other h => ?_
  obtain ⟨counters, rfl⟩ := h
  have hcells : ({ device with counters } : Device).cells? handle = device.cells? handle := rfl
  dsimp only
  rw [hcells]
  split
  · split
    · exact Mirrors.pure _
    · exact Mirrors.throw _
  · exact Mirrors.throw _

theorem uncounted_copyIn (handle : Nat) (values : Cells) : Uncounted (copyIn handle values) :=
  (uncounted_transferTarget _ _).bind fun _ =>
    (Mirrors.modify fun _ _ h => alike_withCells h handle _).bind fun _ => uncounted_count _

theorem uncounted_copyOut (handle length : Nat) : Uncounted (copyOut handle length) :=
  (uncounted_transferTarget _ _).bind fun _ =>
    (uncounted_count _).bind fun _ => Mirrors.pure _

end Device

/-! ## Trackers -/

namespace Tracker

variable {tracker : Tracker} {id other : ArrayId}

theorem withState_comm (h : other ≠ id) (state late : Residency) :
    (tracker.withState id state).withState other late =
      (tracker.withState other late).withState id state := by
  simp only [withState, List.set_comm _ _ h.symm]

/-- A transition of another array does not see the state of this one. -/
def Apart (step : Tracker → ArrayId → Tracker) : Prop :=
  ∀ (tracker : Tracker) {id other : ArrayId} (state : Residency), other ≠ id →
    step (tracker.withState id state) other = (step tracker other).withState id state

theorem apart_copyIn : Apart copyIn := by
  intro tracker id other state h
  unfold copyIn
  rw [state?_withState, if_neg h, withState_comm h]
  split <;> rfl

theorem apart_copyOut : Apart copyOut := by
  intro tracker id other state h
  unfold copyOut
  rw [state?_withState, if_neg h, withState_comm h]
  split <;> rfl

theorem apart_hostWrite : Apart hostWrite := by
  intro tracker id other state h
  unfold hostWrite
  rw [withState_comm h]
  exact (apply_ite (withState · id state) _ _ _).symm

theorem apart_deviceWrite : Apart deviceWrite := by
  intro tracker id other state h
  unfold deviceWrite
  rw [withState_comm h]
  exact (apply_ite (withState · id state) _ _ _).symm

theorem checkReadable_withState (h : other ≠ id) (state : Residency) (location : Location) :
    (tracker.withState id state).checkReadable other location =
      tracker.checkReadable other location := by
  unfold checkReadable
  rw [state?_withState, if_neg h]
  rfl

end Tracker

/-! ## Calls -/

namespace Call

/-- `other` lacks the host's copy of an array that `call` has; the device has it in both. -/
structure Shadows (id : ArrayId) (call other : Call) : Prop where
  host : ∀ {array : ArrayId}, array ≠ id → other.host[array]? = call.host[array]?
  kind : other.host[id]?.map Storage.handle? = call.host[id]?.map Storage.handle?
  buffers : other.buffers = call.buffers
  device : call.machine.device.Alike other.machine.device
  tracker : other.tracker = call.tracker.withState id .deviceValid
  fresh : call.tracker.state? id = some .bothValid

/-- Work that does not tell such calls apart. -/
abbrev Shadowed {α : Type} (id : ArrayId) (work : CallM α) : Prop := Mirrors (Shadows id) work work

variable {f : Func} {shapes : List Shape} {table : HostTable} {id array : ArrayId}
  {call other : Call}

namespace Shadows

/-- A change of the log, the output or the counts. -/
theorem congr (h : Shadows id call other) {call' other' : Call} (hcall : call'.host = call.host)
    (hother : other'.host = other.host) (hbuffers : call'.buffers = call.buffers)
    (hbuffers' : other'.buffers = other.buffers)
    (hdevice : call'.machine.device = call.machine.device)
    (hdevice' : other'.machine.device = other.machine.device)
    (htracker : call'.tracker = call.tracker) (htracker' : other'.tracker = other.tracker) :
    Shadows id call' other' where
  host hne := by rw [hcall, hother, h.host hne]
  kind := by rw [hcall, hother, h.kind]
  buffers := by rw [hbuffers, hbuffers', h.buffers]
  device := by
    rw [hdevice, hdevice']
    exact h.device
  tracker := by rw [htracker, htracker', h.tracker]
  fresh := htracker ▸ h.fresh

theorem cells?_eq (h : Shadows id call other) (hne : array ≠ id) :
    other.cells? array = call.cells? array := by
  obtain ⟨counters, hdevice⟩ := h.device
  simp only [Call.cells?, h.host hne, Device.shared?, hdevice]

/-- Both calls find the same memory left. -/
theorem zeros_eq (h : Shadows id call other) (purpose : Purpose) (elem : Elem) (length : Nat) :
    zeros other.machine.device purpose elem length =
      zeros call.machine.device purpose elem length := by
  obtain ⟨counters, hdevice⟩ := h.device
  rw [hdevice]
  rfl

theorem withDevice (h : Shadows id call other) {device device' : Device}
    (hdevice : device.Alike device') :
    Shadows id (call.withDevice device) (other.withDevice device') :=
  ⟨h.host, h.kind, h.buffers, hdevice, h.tracker, h.fresh⟩

theorem setHost (h : Shadows id call other) (hne : array ≠ id) (hcall : call.Owns array)
    (cells : Cells) : Shadows id (call.setHost array cells) (other.setHost array cells) := by
  have hother : other.Owns array := by
    rw [Owns, h.host hne]
    exact hcall
  refine ⟨fun {key} hkey => ?_, ?_, h.buffers, h.device, h.tracker, h.fresh⟩
  · rw [host_setHost hcall, host_setHost hother, h.host hkey]
  · rw [host_setHost hcall, host_setHost hother, if_neg hne.symm, if_neg hne.symm, h.kind]

theorem withCells (h : Shadows id call other) (hne : array ≠ id) (cells : Cells) :
    Shadows id (call.withCells array cells) (other.withCells array cells) := by
  have hhost := h.host hne
  rcases hs : call.host[array]? with _ | own | handle
  · rw [hs] at hhost
    simpa only [Call.withCells, hs, hhost] using h
  · rw [hs] at hhost
    rw [withCells_of_owns ⟨own, hs⟩, withCells_of_owns ⟨own, hhost⟩]
    exact h.setHost hne ⟨own, hs⟩ cells
  · rw [hs] at hhost
    rw [withCells_of_shared hs, withCells_of_shared hhost]
    obtain ⟨counters, hdevice⟩ := h.device
    refine h.withDevice ⟨counters, ?_⟩
    rw [hdevice]

theorem track (h : Shadows id call other) {step : Tracker → ArrayId → Tracker}
    (apart : Tracker.Apart step) (hlocal : Tracker.Local step) (hne : array ≠ id) :
    Shadows id { call with tracker := step call.tracker array }
      { other with tracker := step other.tracker array } := by
  refine ⟨h.host, h.kind, h.buffers, h.device, ?_, ?_⟩
  · rw [h.tracker]
    exact apart call.tracker .deviceValid hne
  · exact (hlocal.state?_of_ne call.tracker hne.symm).trans h.fresh

end Shadows

/-! ## Single actions -/

theorem shadowed_expect {α : Type} (found : Option α) : Shadowed id (expect found) :=
  Mirrors.ofExcept _

theorem shadowed_sizeOf (shapes : List Shape) (array : ArrayId) :
    Shadowed id (sizeOf shapes array) :=
  (shadowed_expect _).bind fun _ => Mirrors.pure _

theorem shadowed_modify {change : Call → Call}
    (h : ∀ call, (change call).host = call.host ∧ (change call).buffers = call.buffers ∧
      (change call).machine.device = call.machine.device ∧
      (change call).tracker = call.tracker) : Shadowed id (modify change) := by
  refine Mirrors.modify fun call other hshadow => ?_
  obtain ⟨hhost, hbuffers, hdevice, htracker⟩ := h call
  obtain ⟨hhost', hbuffers', hdevice', htracker'⟩ := h other
  exact hshadow.congr hhost hhost' hbuffers hbuffers' hdevice hdevice' htracker htracker'

theorem shadowed_record (event : Event) : Shadowed id (record event) :=
  shadowed_modify fun _ => ⟨rfl, rfl, rfl, rfl⟩

theorem shadowed_countTransfer : Shadowed id countTransfer :=
  shadowed_modify fun _ => ⟨rfl, rfl, rfl, rfl⟩

theorem shadowed_track {step : Tracker → ArrayId → Tracker} (apart : Tracker.Apart step)
    (hlocal : Tracker.Local step) (hne : array ≠ id) :
    Shadowed id (Call.track (step · array)) :=
  Mirrors.modify fun _ _ h => h.track apart hlocal hne

/-- The device's copy is there in both calls. -/
theorem shadowed_checkReadable {location : Location} (h : array ≠ id ∨ location = .device) :
    Shadowed id (checkReadable location array) := by
  intro call other hshadow
  rw [exec_checkReadable, exec_checkReadable, hshadow.tracker]
  refine ⟨?_, hshadow⟩
  by_cases hne : array = id
  · subst hne
    obtain rfl := h.resolve_left (by simp)
    have hstate : (call.tracker.withState array .deviceValid).state? array =
        some .deviceValid := by
      rw [Tracker.state?_withState, if_pos rfl, hshadow.fresh]
      rfl
    have hbindings : (call.tracker.withState array .deviceValid).bindings[array]? =
        call.tracker.bindings[array]? := rfl
    simp only [Tracker.checkReadable, hstate, hshadow.fresh, hbindings]
    cases call.tracker.bindings[array]? <;> rfl
  · rw [Tracker.checkReadable_withState hne]

theorem shadowed_load (hne : array ≠ id) : Shadowed id (load array) := by
  intro call other hshadow
  rw [exec_load, exec_load, hshadow.cells?_eq hne]
  exact ⟨rfl, hshadow⟩

theorem shadowed_store (hne : array ≠ id) (cells : Cells) : Shadowed id (store array cells) := by
  refine (shadowed_load hne).bind fun old => ?_
  split
  · exact Mirrors.modify fun _ _ h => h.withCells hne cells
  · exact Mirrors.throw _

theorem shadowed_storeAt (hne : array ≠ id) (index : Nat) (value : Float) :
    Shadowed id (storeAt array index value) := by
  refine (shadowed_load hne).bind fun old => ?_
  split
  · exact Mirrors.modify fun _ _ h => h.withCells hne _
  · exact Mirrors.throw _

theorem shadowed_onDevice {α : Type} {work : DeviceM α} (h : Device.Uncounted work) :
    Shadowed id (onDevice work) := by
  intro call other hshadow
  obtain ⟨hresult, halike⟩ := h _ _ hshadow.device
  rw [exec_onDevice, exec_onDevice, hresult]
  exact ⟨rfl, hshadow.withDevice halike⟩

theorem shadowed_bufferOf (array : ArrayId) (elem : Elem) (length : Nat) :
    Shadowed id (bufferOf array elem length) := by
  have halloc : Device.Uncounted (Device.alloc elem length) := by
    intro device other h
    obtain ⟨counters, rfl⟩ := h
    have hzeroed : ({ device with counters } : Device).zeroed .buffer elem length =
        device.zeroed .buffer elem length := rfl
    rw [Device.exec_alloc, Device.exec_alloc, hzeroed]
    cases device.zeroed .buffer elem length with
    | error stop => exact ⟨rfl, counters, rfl⟩
    | ok cells => exact ⟨rfl, _, rfl⟩
  refine Mirrors.get fun call other h => ?_
  rw [h.buffers]
  refine (shadowed_expect _).bind fun found => ?_
  cases found with
  | some handle => exact Mirrors.pure _
  | none =>
    refine (shadowed_onDevice halloc).bind fun handle => Mirrors.bind ?_ fun _ => Mirrors.pure _
    refine Mirrors.modify fun call other h => ?_
    exact ⟨h.host, h.kind, by simp only [h.buffers], h.device, h.tracker, h.fresh⟩

/-! ## Transfers and launches -/

theorem shadowed_copyIn (f : Func) (shapes : List Shape) (hne : array ≠ id) :
    Shadowed id (copyIn f shapes array) := by
  have tracked : Shadowed id (Call.track (·.copyIn array)) :=
    shadowed_track Tracker.apart_copyIn Tracker.local_copyIn hne
  refine (shadowed_checkReadable (.inl hne)).bind fun _ => Mirrors.get fun call other h => ?_
  have hcopied : other.tracker.isCopied array = call.tracker.isCopied array := by
    rw [h.tracker]
    rfl
  rw [hcopied]
  dsimp only
  split
  · exact (shadowed_expect _).bind fun decl => (shadowed_sizeOf _ _).bind fun length =>
      (shadowed_bufferOf _ _ _).bind fun buffer => (shadowed_load hne).bind fun cells =>
      (shadowed_onDevice (Device.uncounted_copyIn _ _)).bind fun _ =>
      shadowed_countTransfer.bind fun _ => (shadowed_record _).bind fun _ => tracked
  · exact tracked

theorem shadowed_copyOut (f : Func) (shapes : List Shape) (hne : array ≠ id) :
    Shadowed id (copyOut f shapes array) := by
  have tracked : Shadowed id (Call.track (·.copyOut array)) :=
    shadowed_track Tracker.apart_copyOut Tracker.local_copyOut hne
  refine (shadowed_checkReadable (.inl hne)).bind fun _ => Mirrors.get fun call other h => ?_
  have hcopied : other.tracker.isCopied array = call.tracker.isCopied array := by
    rw [h.tracker]
    rfl
  rw [hcopied]
  dsimp only
  split
  · refine (shadowed_expect _).bind fun decl => (shadowed_sizeOf _ _).bind fun length =>
      (shadowed_bufferOf _ _ _).bind fun buffer => Mirrors.get fun call other h => ?_
    rw [h.zeros_eq]
    exact (Mirrors.ofExcept _).bind fun room =>
      (shadowed_onDevice (Device.uncounted_copyOut _ _)).bind fun cells =>
      (shadowed_store hne _).bind fun _ => shadowed_countTransfer.bind fun _ =>
      (shadowed_record _).bind fun _ => tracked
  · exact tracked

/-- A kernel may read the array, since it is valid on the device. -/
theorem shadowed_bindSlot (f : Func) (shapes : List Shape) (slot : KernelParam × ArrayId) :
    Shadowed id (bindSlot f shapes slot) := by
  obtain ⟨param, array⟩ := slot
  have placed : Shadowed id (placeOf f shapes array) := by
    refine Mirrors.get fun call other h => ?_
    have hkind : other.host[array]?.map Storage.handle? = call.host[array]?.map Storage.handle? := by
      by_cases hne : array = id
      · exact hne ▸ h.kind
      · rw [h.host hne]
    have bound : Shadowed id (do
        let decl ← expect (f.decl? array)
        bufferOf array decl.elem (← sizeOf shapes array)) :=
      (shadowed_expect _).bind fun decl => (shadowed_sizeOf _ _).bind fun length =>
        shadowed_bufferOf _ _ _
    rcases hs : call.host[array]? with _ | own | handle <;>
      rcases ht : other.host[array]? with _ | own' | handle' <;>
      rw [hs, ht] at hkind <;> simp [Storage.handle?] at hkind
    · exact Mirrors.bind (shadowed_expect none) fun storage => by
        cases storage with
        | owned => exact bound
        | shared => exact Mirrors.pure _
    · exact bound
    · subst hkind
      exact Mirrors.pure _
  unfold bindSlot
  dsimp only
  split
  · exact (shadowed_checkReadable (.inr rfl)).bind fun _ => placed
  · exact placed

theorem shadowed_launch (shapes : List Shape) {kernel : CompiledKernel} {region : Region}
    (impl : kernel.plan.Implements f region) (hid : id ∉ region.writes) :
    Shadowed id (launch f shapes kernel) := by
  refine (Mirrors.mapM _ fun slot _ => shadowed_bindSlot f shapes slot).bind fun buffers =>
    (shadowed_expect _).bind fun grid => (shadowed_record _).bind fun _ =>
    (shadowed_onDevice (Device.uncounted_launch _ _ _)).bind fun _ => Mirrors.bind ?_ fun _ => ?_
  · exact shadowed_modify fun _ => ⟨rfl, rfl, rfl, rfl⟩
  · refine Mirrors.forM _ fun slot hslot => ?_
    refine shadowed_track Tracker.apart_deviceWrite Tracker.local_deviceWrite fun heq => hid ?_
    rw [← impl.writes_eq, ← heq]
    exact List.mem_map_of_mem hslot

/-! ## Work on the host -/

theorem shadowed_loadOperand {operand : Operand} (hne : ∀ array, operand = .array array → array ≠ id) :
    Shadowed id (loadOperand operand) := by
  cases operand with
  | array array => exact (shadowed_load (hne array rfl)).bind fun _ => Mirrors.pure _
  | scalar constant => exact Mirrors.pure _

theorem shadowed_named (f : Func) (hne : array ≠ id) : Shadowed id (named f array) :=
  (shadowed_expect _).bind fun _ => (shadowed_load hne).bind fun _ => Mirrors.pure _

theorem shadowed_callHost (f : Func) (table : HostTable) (callee : String)
    {reads writes : List ArrayId} (hreads : id ∉ reads) (hwrites : id ∉ writes) :
    Shadowed id (callHost f table callee reads writes) := by
  have ne : ∀ {array : ArrayId} {arrays : List ArrayId}, id ∉ arrays → array ∈ arrays →
      array ≠ id := fun hnot hmem heq => hnot (heq ▸ hmem)
  unfold callHost
  split
  · exact Mirrors.throw _
  · refine (Mirrors.mapM reads fun array h => shadowed_named f (ne hreads h)).bind fun inputs =>
      (Mirrors.mapM writes fun array h => shadowed_named f (ne hwrites h)).bind fun outputs => ?_
    split
    · exact Mirrors.throw _
    · refine Mirrors.bind (shadowed_modify fun _ => ⟨rfl, rfl, rfl, rfl⟩) fun _ =>
        Mirrors.forM _ fun entry hentry => ?_
      refine (shadowed_expect _).bind fun decl => shadowed_store (ne hwrites ?_) _
      exact (List.of_mem_zip hentry).1

theorem shadowed_hostOp (f : Func) (shapes : List Shape) (table : HostTable) {op : Op}
    (h : op.touches id = false) : Shadowed id (hostOp f shapes table op) := by
  simp only [Op.touches, Bool.or_eq_false_iff, decide_eq_false_iff_not] at h
  obtain ⟨hreads, hwrites⟩ := h
  cases op with
  | map out op args =>
    refine (Mirrors.mapM args fun operand hoperand => shadowed_loadOperand ?_).bind fun inputs =>
      (shadowed_expect _).bind fun decl => (shadowed_sizeOf _ _).bind fun size =>
      (shadowed_expect _).bind fun cells => shadowed_store ?_ _
    · rintro array rfl rfl
      exact hreads (mem_distinct.mpr (List.mem_filterMap.mpr ⟨_, hoperand, rfl⟩))
    · rintro rfl
      simp [Op.writes] at hwrites
  | reduce out op input =>
    refine (shadowed_load ?_).bind fun values => (shadowed_expect _).bind fun decl =>
      shadowed_storeAt ?_ _ _
    · rintro rfl
      simp [Op.reads] at hreads
    · rintro rfl
      simp [Op.writes] at hwrites
  | scan out op input =>
    refine (shadowed_load ?_).bind fun values => (shadowed_expect _).bind fun decl =>
      shadowed_store ?_ _
    · rintro rfl
      simp [Op.reads] at hreads
    · rintro rfl
      simp [Op.writes] at hwrites
  | store array index constant =>
    refine (shadowed_expect _).bind fun decl => shadowed_storeAt ?_ _ _
    rintro rfl
    simp [Op.writes] at hwrites
  | print arrays =>
    refine Mirrors.forM arrays fun array harray => ?_
    refine (shadowed_expect _).bind fun decl => (shadowed_load ?_).bind fun values =>
      (shadowed_record _).bind fun _ => shadowed_modify fun _ => ⟨rfl, rfl, rfl, rfl⟩
    rintro rfl
    exact hreads (mem_distinct.mpr harray)
  | call callee reads writes =>
    refine shadowed_callHost f table callee (fun hmem => hreads ?_) fun hmem => hwrites ?_
    · exact mem_distinct.mpr hmem
    · exact mem_distinct.mpr hmem

theorem shadowed_hostWork (shapes : List Shape) (table : HostTable) {checked writes : List ArrayId}
    {ops : List Op} (hchecked : id ∉ checked) (hwrites : id ∉ writes)
    (hops : ∀ op ∈ ops, op.touches id = false) :
    Shadowed id (hostWork f shapes table checked writes ops) := by
  have ne : ∀ {array : ArrayId} {arrays : List ArrayId}, id ∉ arrays → array ∈ arrays →
      array ≠ id := fun hnot hmem heq => hnot (heq ▸ hmem)
  exact (Mirrors.forM checked fun _ h => shadowed_checkReadable (.inl (ne hchecked h))).bind
    fun _ => (Mirrors.forM ops fun op h => shadowed_hostOp f shapes table (hops op h)).bind
    fun _ => Mirrors.forM writes fun _ h =>
      shadowed_track Tracker.apart_hostWrite Tracker.local_hostWrite (ne hwrites h)

end Call

/-! ## Steps -/

/-- In this step the array stays where it is, on the host and on the device. A launch may read it. -/
def CompiledUnit.Idle (unit : CompiledUnit) (id : ArrayId) (step : Step) : Prop :=
  unit.touchedOnHost id step = false ∧ unit.writtenOnDevice id step = false ∧
    step ≠ .copyIn id ∧ step ≠ .copyOut id

theorem Region.touches_eq_false {region : Region} {id : ArrayId} :
    region.touches id = false ↔ id ∉ region.reads ∧ id ∉ region.writes := by
  simp only [touches, List.any_eq_false, decide_eq_true_eq, reads, writes, List.mem_map,
    List.mem_filter, not_exists, not_and]
  constructor
  · exact fun h => ⟨fun use huse => h use huse.1, fun use huse => h use huse.1⟩
  · rintro ⟨hreads, hwrites⟩ use huse
    cases haccess : use.access with
    | read | readWrite => exact hreads use ⟨huse, by rw [haccess]; rfl⟩
    | write => exact hwrites use ⟨huse, by rw [haccess]; rfl⟩

namespace Call

variable {id : ArrayId} {call other : Call} {unit : CompiledUnit}

theorem shadowed_expect_bind {α β : Type} {found : Option α} {next : α → CallM β}
    (h : ∀ a, found = some a → Shadowed id (next a)) : Shadowed id (expect found >>= next) := by
  cases found with
  | none => exact fun _ _ hshadow => ⟨rfl, hshadow⟩
  | some a => exact h a rfl

/-- A step in which the array is idle does not tell the calls apart. -/
theorem shadowed_step (sound : unit.Sound) (shapes : List Shape) (table : HostTable) {step : Step}
    (idle : unit.Idle id step) : Shadowed id (Call.step unit shapes table step) := by
  obtain ⟨htouched, hwritten, hin, hout⟩ := idle
  cases step with
  | copyIn array => exact shadowed_copyIn _ _ fun heq => hin (heq ▸ rfl)
  | copyOut array => exact shadowed_copyOut _ _ fun heq => hout (heq ▸ rfl)
  | launch index =>
    refine shadowed_expect_bind fun kernel hkernel => ?_
    obtain ⟨region, hregion, impl⟩ := sound.kernels kernel (List.mem_of_getElem? hkernel)
    refine shadowed_launch shapes impl ?_
    rw [← CompiledUnit.launchWrites_eq hkernel hregion]
    simpa [CompiledUnit.writtenOnDevice] using hwritten
  | hostRegion index =>
    refine shadowed_expect_bind fun region hregion => ?_
    rw [CompiledUnit.touchedOnHost, hregion, Option.any_some, Region.touches_eq_false] at htouched
    refine shadowed_hostWork shapes table htouched.1 htouched.2 fun op hop => ?_
    have region_sound := sound.regions hregion
    rw [Op.touches, Bool.or_eq_false_iff, decide_eq_false_iff_not, decide_eq_false_iff_not]
    exact ⟨fun h => htouched.1 (region_sound.mem_reads.mpr ⟨op, hop, h⟩),
      fun h => htouched.2 (region_sound.mem_writes.mpr ⟨op, hop, h⟩)⟩
  | hostOp index =>
    refine shadowed_expect_bind fun op hop => ?_
    rw [CompiledUnit.touchedOnHost, hop, Option.any_some] at htouched
    have hnot : id ∉ op.reads ∧ id ∉ op.writes := by
      simpa [Op.touches] using htouched
    have work : Shadowed id
        (hostWork unit.function shapes table (op.reads ++ op.writes) op.writes [op]) :=
      shadowed_hostWork shapes table (by simp [hnot]) hnot.2 (by simpa using htouched)
    intro call other hshadow
    rw [exec_singleOp, exec_singleOp]
    exact work call other hshadow

/-! ## The copy that is missing -/

/-- Checks that pass where the host's copy is there stop where it is missing. -/
theorem Shadows.checks_stop (h : Shadows id call other) {binding : Binding}
    (hbinding : call.tracker.bindings[id]? = some binding) {ids : List ArrayId} (hid : id ∈ ids)
    {after : Call} (hok : exec (ids.forM (checkReadable .host)) call = (.ok (), after)) :
    exec (ids.forM (checkReadable .host)) other =
      (.error (.error (.residency binding.name .host .deviceValid)), other) := by
  have hbindings : (call.tracker.withState id .deviceValid).bindings[id]? = some binding := hbinding
  have hstate : (call.tracker.withState id .deviceValid).state? id = some .deviceValid := by
    rw [Tracker.state?_withState, if_pos rfl, h.fresh]
    rfl
  induction ids with
  | nil => cases hid
  | cons array rest ih =>
    rw [exec_forM_cons, exec_checkReadable, h.tracker]
    by_cases hne : array = id
    · subst hne
      simp only [Tracker.checkReadable, hstate, hbindings]
      rfl
    · rw [Tracker.checkReadable_withState hne]
      rw [exec_forM_cons, exec_checkReadable] at hok
      cases hcheck : call.tracker.checkReadable array .host with
      | error stop =>
        rw [hcheck] at hok
        cases hok
      | ok =>
        rw [hcheck] at hok
        exact ih ((List.mem_cons.mp hid).resolve_left (Ne.symm hne)) hok

/-- Work that checks the copy first succeeds where it is there and stops where it is missing. -/
theorem Shadows.work_stops (h : Shadows id call other) {binding : Binding}
    (hbinding : call.tracker.bindings[id]? = some binding) {ids : List ArrayId} (hid : id ∈ ids)
    {α : Type} {next later : Unit → CallM α} {a : α} {after : Call}
    (hok : exec (ids.forM (checkReadable .host) >>= next) call = (.ok a, after)) :
    exec (ids.forM (checkReadable .host) >>= later) other =
      (.error (.error (.residency binding.name .host .deviceValid)), other) := by
  obtain ⟨_, mid, hchecks, _⟩ := exec_bind_eq_ok.mp hok
  rw [exec_bind, h.checks_stop hbinding hid hchecks]

/-- A use of the array on the host stops, unless it is a region that only writes it. -/
theorem Shadows.step_stops (h : Shadows id call other) {binding : Binding}
    (hbinding : call.tracker.bindings[id]? = some binding) {shapes : List Shape} {table : HostTable}
    {step : Step} (htouched : unit.touchedOnHost id step = true)
    (hreads : ∀ {index : Nat} {region : Region}, step = .hostRegion index →
      unit.regions[index]? = some region → id ∈ region.reads)
    {after : Call} (hok : exec (Call.step unit shapes table step) call = (.ok (), after)) :
    exec (Call.step unit shapes table step) other =
      (.error (.error (.residency binding.name .host .deviceValid)), other) := by
  cases step with
  | copyIn | copyOut | launch => cases htouched
  | hostRegion index =>
    cases hregion : unit.regions[index]? with
    | none => simp [CompiledUnit.touchedOnHost, hregion] at htouched
    | some region =>
      simp only [Call.step, hregion] at hok ⊢
      exact h.work_stops hbinding (hreads rfl hregion) hok
  | hostOp index =>
    cases hop : unit.function.body[index]? with
    | none => simp [CompiledUnit.touchedOnHost, hop] at htouched
    | some op =>
      have hid : id ∈ op.reads ++ op.writes := by
        simpa [CompiledUnit.touchedOnHost, hop, Op.touches] using htouched
      simp only [Call.step, hop] at hok ⊢
      exact h.work_stops hbinding hid hok

end Call

end ArrayOffload
