import ArrayOffload.Proofs.HostEffect
import ArrayOffload.Proofs.WorkItems

/-!
# Work of the device never faults

A device checks handles, lengths and element types before it uses them, and reports what is wrong.
What it does not check are the slots of a kernel and the memory behind a shared buffer. With a
kernel whose slots are there, and bound buffers whose memory is there, no work of the device ends in
a fault.

* `Device.Readable`: the memory behind a shared buffer is there;
* `Device.Retains`: what was readable stays readable, and shared memory keeps its sizes;
* `Device.safe_copyIn`, `Device.safe_copyOut`, `Device.safe_launch`: the single actions.
-/

namespace ArrayOffload.Device

/-! ## What work of the device retains -/

/-- If the buffer is shared, its memory is there. -/
def Readable (device : Device) (handle : Nat) : Prop :=
  ∀ elem, device.buffers.get? handle = some (.shared elem) →
    ∃ cells, device.pool.get? handle = some cells

/-- From one device to a later one: programs stay, shared memory keeps its sizes, and what could be
read can still be read. -/
structure Retains (device later : Device) : Prop where
  programs : later.programs = device.programs
  pool : ∀ {handle : Nat} {cells : Cells}, device.pool.get? handle = some cells →
    ∃ new, later.pool.get? handle = some new ∧ new.size = cells.size
  readable : ∀ {handle : Nat}, device.Readable handle → later.Readable handle

namespace Retains

variable {device middle later : Device}

theorem of_memory (hprograms : later.programs = device.programs)
    (hbuffers : later.buffers = device.buffers) (hpool : later.pool = device.pool) :
    device.Retains later where
  programs := hprograms
  pool h := ⟨_, hpool ▸ h, rfl⟩
  readable h elem hshared := hpool ▸ h elem (hbuffers ▸ hshared)

theorem refl (device : Device) : device.Retains device := of_memory rfl rfl rfl

theorem trans (first : device.Retains middle) (second : middle.Retains later) :
    device.Retains later where
  programs := second.programs.trans first.programs
  pool h := by
    obtain ⟨cells, hcells, hsize⟩ := first.pool h
    obtain ⟨new, hnew, hsame⟩ := second.pool hcells
    exact ⟨new, hnew, hsame.trans hsize⟩
  readable h := second.readable (first.readable h)

end Retains

variable {device : Device} {handle : Nat}

theorem Readable.cells? {buffer : Buffer} (h : device.Readable handle)
    (hbuffer : device.buffers.get? handle = some buffer) :
    ∃ cells, device.cells? handle = some cells := by
  cases buffer with
  | owned elem cells => exact ⟨cells, by simp [Device.cells?, hbuffer]⟩
  | shared elem =>
    obtain ⟨cells, hcells⟩ := h elem hbuffer
    exact ⟨cells, by simp [Device.cells?, hbuffer, hcells]⟩

/-- Replacing elements by as many others retains everything. -/
theorem retains_withCells {old cells : Cells} (h : device.cells? handle = some old)
    (hsize : cells.size = old.size) : device.Retains (device.withCells handle cells) := by
  unfold Device.cells? at h
  cases hb : device.buffers.get? handle with
  | none => simp [hb] at h
  | some buffer =>
    cases buffer with
    | owned elem own =>
      simp only [withCells, hb]
      refine ⟨rfl, fun hp => ⟨_, hp, rfl⟩, fun {other} hr found hshared => ?_⟩
      rw [HandleTable.get?_set] at hshared
      split at hshared
      · cases hshared
      · exact hr found hshared
    | shared elem =>
      simp only [hb] at h
      simp only [withCells, hb]
      refine ⟨rfl, fun {other found} hp => ?_, fun {other} hr found hshared => ?_⟩
      · rw [HandleTable.get?_set]
        split
        · next hsame =>
          rw [hsame, h, Option.some.injEq] at hp
          exact ⟨cells, rfl, hp ▸ hsize⟩
        · exact ⟨found, hp, rfl⟩
      · obtain ⟨kept, hkept⟩ := hr found hshared
        rw [HandleTable.get?_set]
        split
        · exact ⟨cells, rfl⟩
        · exact ⟨kept, hkept⟩

theorem retains_allocated (device : Device) (elem : Elem) (cells : Cells) :
    device.Retains (device.allocated elem cells) := by
  refine ⟨rfl, fun hp => ⟨_, hp, rfl⟩, fun {other} hr found hshared => ?_⟩
  simp only [allocated, HandleTable.get?_set] at hshared
  split at hshared
  · cases hshared
  · exact hr found hshared

theorem Readable.withShared (h : device.Readable handle) (key : Nat) (cells : Cells) :
    (device.withShared key cells).Readable handle := by
  intro elem hshared
  obtain ⟨kept, hkept⟩ := h elem hshared
  simp only [Device.withShared, HandleTable.get?_set]
  split
  · exact ⟨cells, rfl⟩
  · exact ⟨kept, hkept⟩

theorem readable_allocated (device : Device) (elem : Elem) (cells : Cells) :
    (device.allocated elem cells).Readable (device.lastHandle + 1) := by
  intro found hshared
  simp only [allocated, HandleTable.get?_set, if_true] at hshared
  cases hshared

/-! ## Transfers -/

/-- The work retains what there was at first, and stops for reasons that it can name. -/
abbrev Safe {α : Type} (origin : Device) (work : DeviceM α) (post : α → Prop) : Prop :=
  Ensures origin.Retains work (fun a device => origin.Retains device ∧ post a)
    fun stop device => stop ≠ .fault ∧ origin.Retains device

/-- Nothing was lost when the work was reported to fail. -/
theorem safe_fail {α : Type} {origin : Device} {pre : Device → Prop}
    (h : ∀ device, pre device → origin.Retains device) (cause : DeviceError)
    (post : α → Device → Prop) :
    Ensures pre (fail cause : DeviceM α) post
      fun stop device => stop ≠ .fault ∧ origin.Retains device :=
  fun device hd => ⟨Stop.error_ne_fault cause, h device hd⟩

theorem safe_count (origin : Device) (change : Counters → Counters) :
    Safe origin (count change) fun _ => True :=
  fun _ retained => ⟨retained.trans (.of_memory rfl rfl rfl), trivial⟩

/-- A transfer finds its buffer, with as many elements as the host has, and changes nothing. -/
theorem ensures_transferTarget (inv : Device → Prop) (handle length : Nat) :
    Ensures inv (transferTarget handle length)
      (fun target device => inv device ∧ device.cells? handle = some target.2 ∧
        target.2.size = length) fun stop device => stop ≠ .fault ∧ inv device := by
  intro device hdevice
  rw [transferTarget, exec_bind_of_ok (exec_get device)]
  cases device.buffers.get? handle with
  | none => exact ⟨Stop.error_ne_fault _, hdevice⟩
  | some buffer =>
    cases hcells : device.cells? handle with
    | none => exact ⟨Stop.error_ne_fault _, hdevice⟩
    | some cells =>
      by_cases hsize : cells.size = length
      · simp only [if_pos hsize]
        exact ⟨hdevice, hcells, hsize⟩
      · simp only [if_neg hsize]
        exact ⟨Stop.error_ne_fault _, hdevice⟩

theorem safe_copyIn (origin : Device) (handle : Nat) (values : Cells) :
    Safe origin (copyIn handle values) fun _ => True := by
  refine (ensures_transferTarget origin.Retains handle values.size).bind fun (buffer, cells) => ?_
  refine Ensures.bind (Ensures.modify fun device ⟨retained, hcells, hsize⟩ => ?_)
    fun _ => safe_count origin _
  exact retained.trans (retains_withCells hcells (by simp [hsize]))

theorem safe_copyOut (origin : Device) (handle length : Nat) :
    Safe origin (copyOut handle length) fun cells => cells.size = length := by
  refine (ensures_transferTarget origin.Retains handle length).bind fun (buffer, cells) => ?_
  rintro device ⟨retained, -, hsize⟩
  exact ⟨retained.trans (.of_memory rfl rfl rfl), hsize⟩

/-! ## Launches -/

/-- All bound buffers have their memory, and nothing was lost since the origin. -/
def Supports (origin : Device) (handles : List Nat) (device : Device) : Prop :=
  origin.Retains device ∧ ∀ handle ∈ handles, ∃ cells, device.cells? handle = some cells

section
variable {origin : Device} {kernel : Kernel} {handles : List Nat} {slot need size : Nat}

/-- A slot that there is gives its elements, or too few of them are reported. -/
theorem safe_load (hslot : slot < handles.length) :
    Ensures (Supports origin handles) (load kernel handles slot need)
      (fun cells device => Supports origin handles device ∧ need ≤ cells.size ∧
        device.cells? handles[slot] = some cells)
      fun stop device => stop ≠ .fault ∧ origin.Retains device := by
  intro device supports
  obtain ⟨cells, hcells⟩ := supports.2 _ (List.getElem_mem hslot)
  have hhandle := List.getElem?_eq_getElem hslot
  by_cases hneed : need ≤ cells.size
  · rw [exec_load hhandle hcells hneed]
    exact ⟨supports, hneed, hcells⟩
  · simp only [load, exec_bind, exec_ofExcept, hhandle, orFault, exec_get, hcells, if_neg hneed]
    exact ⟨Stop.error_ne_fault _, supports.1⟩

theorem safe_loadOperand {arg : KernelOperand}
    (hslot : ∀ slot, arg = .slot slot → slot < handles.length) :
    Ensures (Supports origin handles) (loadOperand kernel handles size arg)
      (fun input device => Supports origin handles device ∧ input.covers size = true)
      fun stop device => stop ≠ .fault ∧ origin.Retains device := by
  cases arg with
  | scalar constant => exact Ensures.pure _ fun device supports => ⟨supports, rfl⟩
  | slot slot =>
    refine (safe_load (hslot slot rfl)).bind fun cells => ?_
    refine Ensures.pure _ fun device ⟨supports, hneed, _⟩ => ⟨supports, ?_⟩
    simpa [Eval.Input.covers] using hneed

/-- A saved result has as many elements as there were, whatever part of them is new. -/
theorem safe_save (hslot : slot < handles.length) {old values : Cells}
    (hfits : need ≤ old.size → values.size ≤ old.size) :
    Ensures (fun device => Supports origin handles device ∧ need ≤ old.size ∧
        device.cells? handles[slot] = some old) (save handles slot old values)
      (fun _ => Supports origin handles)
      fun stop device => stop ≠ .fault ∧ origin.Retains device := by
  rintro device ⟨supports, hneed, hold⟩
  rw [exec_save (List.getElem?_eq_getElem hslot)]
  have hsize := size_overwrite (hfits hneed)
  refine ⟨supports.1.trans (retains_withCells hold hsize), fun other ho => ?_⟩
  rw [cells?_withCells hold]
  split
  · exact ⟨_, rfl⟩
  · exact supports.2 other ho

/-- An operation whose slots are there runs or reports what is wrong. -/
theorem safe_runOp {op : KernelOp} (slotted : kernel.Slotted op)
    (hlength : handles.length = kernel.params.length) (hbytes : size * 8 ≤ Shape.byteLimit) :
    Ensures (Supports origin handles) (runOp kernel handles size op)
      (fun _ => Supports origin handles)
      fun stop device => stop ≠ .fault ∧ origin.Retains device := by
  cases op with
  | map out op args =>
    obtain ⟨hout, harity, hslots⟩ := slotted
    have hparam := List.getElem?_eq_getElem hout
    rw [← hlength] at hout hslots
    refine (Ensures.mapM_forall args fun arg harg => safe_loadOperand fun slot hs =>
      hslots slot (hs ▸ harg)).bind fun inputs => ?_
    rintro device ⟨hinputs, supports, hcovers⟩
    simp only [hparam, orFault, exec_bind_of_ok (exec_ofExcept _ _),
      Eval.mapDefined_of_covers hbytes (hinputs.trans harity) hcovers, if_true]
    refine ((safe_load hout).bind fun old => ?_) device supports
    exact safe_save hout fun hneed => by simpa [Eval.mapCells] using hneed
  | reduce out op input =>
    obtain ⟨hout, hinput⟩ := slotted
    have hparam := List.getElem?_eq_getElem hout
    rw [← hlength] at hout hinput
    refine (safe_load hinput).bind fun values device hloaded => ?_
    refine ((safe_load hout).bind fun old mid hmid => ?_) device hloaded.1
    simp only [hparam, orFault, exec_bind_of_ok (exec_ofExcept _ _)]
    exact safe_save hout (by simp) mid hmid

/-- The check of the bindings changes nothing, and passes only live buffers. -/
theorem safe_checkBindings (retained : origin.Retains device) (slots : List (KernelParam × Nat)) :
    Ensures (· = device) (checkBindings kernel slots)
      (fun _ after => after = device ∧
        ∀ slot ∈ slots, ∃ buffer, device.buffers.get? slot.2 = some buffer)
      fun stop after => stop ≠ .fault ∧ origin.Retains after := by
  induction slots with
  | nil => exact Ensures.pure _ fun _ h => ⟨h, nofun⟩
  | cons slot rest ih =>
    obtain ⟨param, handle⟩ := slot
    refine Ensures.get fun now hsame => ?_
    rw [hsame]
    cases hbuffer : device.buffers.get? handle with
    | none => exact safe_fail (fun _ h => h ▸ retained) _ _
    | some buffer =>
      dsimp only
      split
      · refine ih.weaken (fun _ h => h) (fun _ _ ⟨h, live⟩ => ⟨h, ?_⟩) fun _ _ h => h
        exact List.forall_mem_cons.mpr ⟨⟨buffer, hbuffer⟩, live⟩
      · exact safe_fail (fun _ h => h ▸ retained) _ _

theorem safe_run (slotted : ∀ op ∈ kernel.body, kernel.Slotted op)
    (readable : ∀ handle ∈ handles, origin.Readable handle)
    (hbytes : size * 8 ≤ Shape.byteLimit) :
    Safe origin (run kernel handles size) fun _ => True := by
  rw [run]
  split
  · next hlength =>
    intro device retained
    refine ((safe_checkBindings retained _).bind fun _ => ?_) device rfl
    refine (Ensures.forM kernel.body fun op hop =>
      safe_runOp (slotted op hop) hlength hbytes).weaken ?_
      (fun _ _ supports => ⟨supports.1, trivial⟩) fun _ _ h => h
    rintro _ ⟨rfl, live⟩
    refine ⟨retained, fun handle hmem => ?_⟩
    obtain ⟨i, hi⟩ := List.getElem?_of_mem hmem
    have hlt : i < kernel.params.length := hlength ▸ (List.getElem?_eq_some_iff.mp hi).1
    have hzip : (kernel.params.zip handles)[i]? = some (kernel.params[i], handle) :=
      List.getElem?_zip_eq_some.mpr ⟨List.getElem?_eq_getElem hlt, hi⟩
    obtain ⟨buffer, hbuffer⟩ := live _ (List.mem_of_getElem? hzip)
    exact (retained.readable (readable handle hmem)).cells? hbuffer
  · exact safe_fail (fun _ retained => retained) _ _

/-- A launch of a program whose slots are there, on buffers whose memory is there, over points that
can be counted. -/
theorem safe_launch {program : Nat}
    (slotted : ∀ kernel, origin.programs.get? program = some kernel →
      ∀ op ∈ kernel.body, kernel.Slotted op)
    (readable : ∀ handle ∈ handles, origin.Readable handle) {grid : Shape} {length : Nat}
    (hcount : grid.count? = some length) :
    Safe origin (launch program grid handles) fun _ => True := by
  have taken : Safe origin takeLaunchFailure fun _ => True :=
    fun device retained => ⟨retained.trans (.of_memory rfl rfl rfl), trivial⟩
  refine taken.bind fun failure => ?_
  cases failure with
  | some reason => exact safe_fail (fun _ h => h.1) _ _
  | none =>
    refine Ensures.get fun device ⟨retained, _⟩ => ?_
    cases hprogram : device.programs.get? program with
    | none => exact safe_fail (fun _ h => h.1) _ _
    | some kernel =>
      dsimp only
      split
      · refine Ensures.get fun now _ => ?_
        rw [points_of_count? hcount]
        have hrun := safe_run (slotted kernel (retained.programs ▸ hprogram)) readable
          (Shape.bytes_of_count? hcount)
        refine (hrun.weaken (fun _ h => h.1) (fun _ _ h => h.1) fun _ _ h => h).bind fun _ => ?_
        exact safe_count origin _
      · exact safe_fail (fun _ h => h.1) _ _

end

end ArrayOffload.Device
