import ArrayOffload.Proofs.DeviceSafety
import ArrayOffload.Proofs.Frame
import ArrayOffload.Proofs.ShaderText

/-!
# What work of the device writes

Transfers and launches write elements and nothing else: buffers stay live, with the element type and
the length they were allocated with, and no handle is given out or taken back. A launch writes the
buffers that are bound to the targets of its kernel's operations. It may stop after some of these
operations, and then has written some of these buffers.

* `Device.extent?`: the element type and the length of a live buffer;
* `Device.Changes`: a later device, with other elements in some buffers;
* `Device.Targets`: the buffers that a launch may write;
* `Device.changes_copyIn`, `Device.changes_copyOut`, `Device.changes_launch`: the single actions.
-/

namespace ArrayOffload.Device

/-- The element type and the length of a live buffer. -/
def extent? (device : Device) (handle : Nat) : Option (Elem × Nat) :=
  (device.buffers.get? handle).bind fun buffer =>
    (device.cells? handle).map fun cells => (buffer.elem, cells.size)

/-- From one device to a later one, only the elements of some buffers are new. -/
structure Changes (targets : Nat → Prop) (device later : Device) : Prop where
  lastHandle : later.lastHandle = device.lastHandle
  programs : later.programs = device.programs
  live : later.buffers.keys = device.buffers.keys
  allocations : later.counters.allocations = device.counters.allocations
  releases : later.counters.releases = device.counters.releases
  extents : ∀ handle, later.extent? handle = device.extent? handle
  cells : ∀ handle, ¬ targets handle → later.cells? handle = device.cells? handle
  shared : ∀ handle, ¬ targets handle → later.shared? handle = device.shared? handle

namespace Changes

variable {targets : Nat → Prop} {device middle later : Device}

theorem of_memory (hbuffers : later.buffers = device.buffers) (hpool : later.pool = device.pool)
    (hprograms : later.programs = device.programs)
    (hlast : later.lastHandle = device.lastHandle)
    (hallocations : later.counters.allocations = device.counters.allocations)
    (hreleases : later.counters.releases = device.counters.releases) :
    Changes targets device later := by
  have hcells : ∀ handle, later.cells? handle = device.cells? handle := fun handle => by
    simp only [Device.cells?, hbuffers, hpool]
  exact
    { lastHandle := hlast
      programs := hprograms
      live := by rw [hbuffers]
      allocations := hallocations
      releases := hreleases
      extents := fun handle => by simp only [extent?, hbuffers, hcells]
      cells := fun handle _ => hcells handle
      shared := fun handle _ => by simp only [shared?, hpool] }

theorem refl (device : Device) : Changes targets device device := of_memory rfl rfl rfl rfl rfl rfl

theorem trans (first : Changes targets device middle) (second : Changes targets middle later) :
    Changes targets device later where
  lastHandle := second.lastHandle.trans first.lastHandle
  programs := second.programs.trans first.programs
  live := second.live.trans first.live
  allocations := second.allocations.trans first.allocations
  releases := second.releases.trans first.releases
  extents handle := (second.extents handle).trans (first.extents handle)
  cells handle h := (second.cells handle h).trans (first.cells handle h)
  shared handle h := (second.shared handle h).trans (first.shared handle h)

theorem mono {more : Nat → Prop} (h : Changes targets device later)
    (hmore : ∀ handle, targets handle → more handle) : Changes more device later :=
  { h with
    cells := fun handle hother => h.cells handle fun ht => hother (hmore handle ht)
    shared := fun handle hother => h.shared handle fun ht => hother (hmore handle ht) }

end Changes

variable {targets : Nat → Prop} {device origin : Device} {handle : Nat}

theorem elem_withCells (device : Device) (handle other : Nat) (cells : Cells) :
    ((device.withCells handle cells).buffers.get? other).map Buffer.elem =
      (device.buffers.get? other).map Buffer.elem := by
  unfold withCells
  split
  · rfl
  · next elem old hget =>
    dsimp only
    rw [HandleTable.get?_set]
    split
    · next hsame =>
      rw [hsame, hget]
      rfl
    · rfl
  · rfl

theorem extent?_eq (device : Device) (handle : Nat) :
    device.extent? handle = ((device.buffers.get? handle).map Buffer.elem).bind fun elem =>
      (device.cells? handle).map fun cells => (elem, cells.size) := by
  unfold extent?
  cases device.buffers.get? handle <;> rfl

theorem shared?_withCells_of_ne (device : Device) (cells : Cells) {handle other : Nat}
    (h : other ≠ handle) : (device.withCells handle cells).shared? other = device.shared? other := by
  unfold withCells
  split
  · rfl
  · rfl
  · exact (HandleTable.get?_set _ _ _ _).trans (if_neg h)

/-- As many elements as there were. -/
theorem changes_withCells {old cells : Cells} (h : device.cells? handle = some old)
    (hsize : cells.size = old.size) (htarget : targets handle) :
    Changes targets device (device.withCells handle cells) := by
  have hbooks := device.books_withCells handle cells
  have hcells := cells?_withCells h cells
  have hcounters : (device.withCells handle cells).counters = device.counters := by
    unfold withCells
    split <;> rfl
  exact
    { lastHandle := congrArg Books.lastHandle hbooks
      programs := congrArg Books.programs hbooks
      live := congrArg Books.live hbooks
      allocations := by rw [hcounters]
      releases := by rw [hcounters]
      extents := fun other => by
        rw [extent?_eq, extent?_eq, elem_withCells, hcells]
        split
        · next hsame => simp only [hsame, h, Option.map_some, hsize]
        · rfl
      cells := fun other hother => by
        rw [hcells, if_neg]
        rintro rfl
        exact hother htarget
      shared := fun other hother => by
        refine device.shared?_withCells_of_ne cells ?_
        rintro rfl
        exact hother htarget }

/-- Shared memory, written by the host. -/
theorem changes_withShared {old cells : Cells} (h : device.shared? handle = some old)
    (hsize : cells.size = old.size) (htarget : targets handle) :
    Changes targets device (device.withShared handle cells) := by
  have hpool : ∀ other, (device.withShared handle cells).pool.get? other =
      if other = handle then some cells else device.pool.get? other := fun other =>
    HandleTable.get?_set device.pool handle other cells
  have hne : ∀ other, ¬ targets other → other ≠ handle := by
    rintro other hother rfl
    exact hother htarget
  have hcells : ∀ other, other ≠ handle →
      (device.withShared handle cells).cells? other = device.cells? other := fun other hother => by
    simp only [cells?, hpool, if_neg hother]
    rfl
  exact
    { lastHandle := rfl
      programs := rfl
      live := rfl
      allocations := rfl
      releases := rfl
      extents := fun other => by
        by_cases hother : other = handle
        · subst hother
          have hbuffers : (device.withShared other cells).buffers = device.buffers := rfl
          unfold shared? at h
          simp only [extent?, cells?, hbuffers, hpool, if_pos, h]
          rcases device.buffers.get? other with _ | ⟨elem, own⟩ | elem
          · rfl
          · rfl
          · simp [hsize]
        · rw [extent?, hcells other hother]
          rfl
      cells := fun other hother => hcells other (hne other hother)
      shared := fun other hother => (hpool other).trans (if_neg (hne other hother)) }

/-! ## Allocation -/

/-- The device with a new buffer in shared memory. -/
def allocatedShared (device : Device) (elem : Elem) (cells : Cells) : Device :=
  { device with
    lastHandle := device.lastHandle + 1
    buffers := device.buffers.set (device.lastHandle + 1) (.shared elem)
    pool := device.pool.set (device.lastHandle + 1) cells
    counters := { device.counters with allocations := device.counters.allocations + 1 } }

theorem exec_allocShared (profile : Profile) (elem : Elem) (length : Nat) (device : Device) :
    exec (allocShared profile elem length) device =
      if profile.sharedMemory then
        match device.zeroed .buffer elem length with
        | .error stop => (.error stop, device)
        | .ok cells => (.ok (device.lastHandle + 1), device.allocatedShared elem cells)
      else (.error (.error (.unsupported "shared allocations")), device) := by
  unfold allocShared
  split
  · simp only [exec_bind, exec_get, exec_ofExcept]
    cases device.zeroed .buffer elem length <;> rfl
  · rfl

theorem zeroed_ne_fault (device : Device) (purpose : Purpose) (elem : Elem) (length : Nat) :
    device.zeroed purpose elem length ≠ .error .fault := by
  unfold zeroed
  split <;> simp

/-! ## Transfers -/

theorem changes_fail {α : Type} (cause : DeviceError) :
    Maintains (Changes targets origin) (fail cause : DeviceM α) := fun _ h => h

theorem changes_count (f : Counters → Counters) (hallocations : ∀ c, (f c).allocations = c.allocations)
    (hreleases : ∀ c, (f c).releases = c.releases) :
    Maintains (Changes targets origin) (count f) := fun _ h =>
  h.trans (.of_memory rfl rfl rfl rfl (hallocations _) (hreleases _))

theorem changes_copyIn (htarget : targets handle) (values : Cells) :
    Maintains (Changes targets origin) (copyIn handle values) := by
  refine ((ensures_transferTarget _ handle values.size).weaken (fun _ h => h) (fun _ _ h => h)
    fun _ _ h => h.2).bind fun (buffer, cells) => ?_
  refine Ensures.bind (Ensures.modify fun device ⟨changes, hcells, hsize⟩ => ?_)
    fun _ => changes_count _ (fun _ => rfl) fun _ => rfl
  exact changes.trans (changes_withCells hcells (by simp [hsize]) htarget)

theorem changes_copyOut (handle length : Nat) :
    Maintains (Changes targets origin) (copyOut handle length) := by
  refine ((ensures_transferTarget _ handle length).weaken (fun _ h => h) (fun _ _ h => h)
    fun _ _ h => h.2).bind fun (buffer, cells) => ?_
  rintro device ⟨changes, -, -⟩
  exact changes.trans (.of_memory rfl rfl rfl rfl rfl rfl)

/-! ## Launches -/

section
variable {kernel : Kernel} {bindings : List Nat} {slot need size : Nat}

/-- What a slot is bound to, and that its buffer has so many elements. -/
def Loaded (bindings : List Nat) (slot need : Nat) (cells : Cells) (device : Device) : Prop :=
  ∃ handle, bindings[slot]? = some handle ∧ device.cells? handle = some cells ∧ need ≤ cells.size

theorem ensures_orFault {α : Type} (inv : Device → Prop) (found : Option α) :
    Ensures inv (MonadExcept.ofExcept (orFault found) : DeviceM α)
      (fun a device => inv device ∧ found = some a) fun _ => inv := by
  intro device hdevice
  rw [exec_ofExcept]
  cases found with
  | none => exact hdevice
  | some a => exact ⟨hdevice, rfl⟩

theorem ensures_load (inv : Device → Prop) :
    Ensures inv (load kernel bindings slot need)
      (fun cells device => inv device ∧ Loaded bindings slot need cells device) fun _ => inv := by
  intro device hdevice
  simp only [load, exec_bind, exec_ofExcept, exec_get]
  cases hslot : bindings[slot]? with
  | none => exact hdevice
  | some handle =>
    cases hcells : device.cells? handle with
    | none =>
      simp only [orFault, hcells]
      exact hdevice
    | some cells =>
      by_cases hneed : need ≤ cells.size
      · simp only [orFault, hcells, if_pos hneed]
        exact ⟨hdevice, handle, hslot, hcells, hneed⟩
      · simp only [orFault, hcells, if_neg hneed]
        exact hdevice

theorem changes_save {old values : Cells} (htarget : ∀ handle, bindings[slot]? = some handle →
    targets handle) (hfits : values.size ≤ need) :
    Ensures (fun device => Changes targets origin device ∧ Loaded bindings slot need old device)
      (save bindings slot old values) (fun _ => Changes targets origin)
      fun _ => Changes targets origin := by
  rintro device ⟨changes, handle, hslot, hcells, hneed⟩
  rw [exec_save hslot]
  exact changes.trans
    (changes_withCells hcells (size_overwrite (hfits.trans hneed)) (htarget handle hslot))

theorem changes_loadOperand (arg : KernelOperand) :
    Maintains (Changes targets origin) (loadOperand kernel bindings size arg) := by
  cases arg with
  | scalar constant => exact fun _ h => h
  | slot slot => exact (ensures_load _).bind fun cells => Ensures.pure _ fun _ h => h.1

/-- An operation writes its target only. -/
theorem changes_runOp {op : KernelOp}
    (htarget : ∀ handle, bindings[op.out]? = some handle → targets handle) :
    Maintains (Changes targets origin) (runOp kernel bindings size op) := by
  cases op with
  | map out op args =>
    refine (Ensures.mapM args fun arg _ => changes_loadOperand arg).bind fun inputs =>
      (ensures_orFault _ _).bind fun param => ?_
    split
    · refine (((ensures_load _).weaken (fun _ h => h.1) (fun _ _ h => h) fun _ _ h => h).bind
        fun old => changes_save htarget ?_)
      simp [Eval.mapCells]
    · exact fun _ h => h.1
  | reduce out op input =>
    refine (ensures_load _).bind fun values => ?_
    refine ((ensures_load _).weaken (fun _ h => h.1) (fun _ _ h => h) fun _ _ h => h).bind
      fun old => ?_
    refine (((ensures_orFault _ _).weaken (fun _ h => h) (fun _ _ h => h) fun _ _ h => h.1).bind
      fun param => ?_)
    exact (changes_save htarget (by simp)).weaken (fun _ h => h.1) (fun _ _ h => h) fun _ _ h => h

theorem changes_checkBindings (slots : List (KernelParam × Nat)) :
    Maintains (Changes targets origin) (checkBindings kernel slots) := by
  induction slots with
  | nil => exact fun _ h => h
  | cons slot rest ih =>
    obtain ⟨param, handle⟩ := slot
    refine Ensures.get fun device _ => ?_
    split
    · exact changes_fail _
    · split
      · exact ih
      · exact changes_fail _

theorem changes_run
    (htarget : ∀ op ∈ kernel.body, ∀ handle, bindings[op.out]? = some handle → targets handle) :
    Maintains (Changes targets origin) (run kernel bindings size) := by
  unfold run
  split
  · exact (changes_checkBindings _).bind fun _ =>
      Ensures.forM kernel.body fun op hop => changes_runOp (htarget op hop)
  · exact changes_fail _

/-- The buffer is bound to the target of an operation of the program. -/
def Targets (device : Device) (program : Nat) (bindings : List Nat) (handle : Nat) : Prop :=
  ∃ kernel op, device.programs.get? program = some kernel ∧ op ∈ kernel.body ∧
    bindings[op.out]? = some handle

/-- A launch writes its targets, however it ends. -/
theorem changes_launch (device : Device) (program : Nat) (grid : Shape) (bindings : List Nat) :
    Changes (device.Targets program bindings) device
      (exec (launch program grid bindings) device).2 := by
  have htaken : Maintains (Changes (device.Targets program bindings) device) takeLaunchFailure :=
    fun _ h => h.trans (.of_memory rfl rfl rfl rfl rfl rfl)
  refine Maintains.state (htaken.bind fun failure => ?_) (.refl device)
  cases failure with
  | some reason => exact changes_fail _
  | none =>
    refine Ensures.get fun now hnow => ?_
    cases hprogram : now.programs.get? program with
    | none => exact changes_fail _
    | some kernel =>
      rw [hnow.programs] at hprogram
      dsimp only
      split
      · refine Ensures.get fun here _ => ?_
        refine Maintains.bind (.ofExcept _) fun size => Maintains.bind
          (changes_run fun op hop handle hslot => ?_) fun _ =>
            changes_count _ (fun _ => rfl) fun _ => rfl
        exact ⟨kernel, op, hprogram, hop, hslot⟩
      · exact changes_fail _

end

end ArrayOffload.Device
