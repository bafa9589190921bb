import ArrayOffload.Call.State
import ArrayOffload.Proofs.Exec
import ArrayOffload.Proofs.HandleTable

/-!
# Single actions of a call

One equation for each action that the steps of a call are made of, and what replacing the elements
of one array does to the others. Arrays in shared memory may name the same memory; arrays of the
call's own never do.

* `Call.exec_load`, `Call.exec_store`, `Call.exec_bufferOf`, ...: the actions;
* `Call.Sized`: every array has as many elements as its shape asks for;
* `Call.Sized.withCells`: replacing elements by as many others keeps that.
-/

namespace ArrayOffload

/-- The number of elements of an array under some shapes. -/
def sizeAt (shapes : List Shape) (id : ArrayId) : Nat := (shapes[id]?.map Shape.size).getD 0

namespace Call

@[simp]
theorem exec_expect {α : Type} (found : Option α) (call : Call) :
    exec (expect found) call = (orFault found, call) := by
  simp [expect]

@[simp]
theorem exec_load (id : ArrayId) (call : Call) :
    exec (load id) call = (orFault (call.cells? id), call) := by
  simp [load, exec_bind]

@[simp]
theorem exec_record (event : Event) (call : Call) :
    exec (record event) call = (.ok (), { call with machine := call.machine.record event }) := rfl

@[simp]
theorem exec_track (f : Tracker → Tracker) (call : Call) :
    exec (track f) call = (.ok (), { call with tracker := f call.tracker }) := rfl

theorem exec_trackAll {α : Type} (step : Tracker → ArrayId → Tracker) (idOf : α → ArrayId)
    (xs : List α) (call : Call) :
    exec (xs.forM fun x => track (step · (idOf x))) call =
      (.ok (), { call with tracker := (xs.map idOf).foldl step call.tracker }) := by
  induction xs generalizing call with
  | nil => rfl
  | cons x rest ih =>
    rw [exec_forM_cons, exec_track]
    exact ih _

@[simp]
theorem exec_checkReadable (location : Location) (id : ArrayId) (call : Call) :
    exec (checkReadable location id) call = (call.tracker.checkReadable id location, call) := by
  simp [checkReadable, exec_bind]

theorem exec_store (id : ArrayId) (cells : Cells) (call : Call) :
    exec (store id cells) call =
      match call.cells? id with
      | none => (.error .fault, call)
      | some old =>
        if cells.size = old.size then (.ok (), call.withCells id cells)
        else (.error .fault, call) := by
  simp only [store, exec_bind, exec_load]
  cases call.cells? id with
  | none => rfl
  | some old =>
    simp only [orFault]
    split <;> rfl

theorem exec_storeAt (id : ArrayId) (index : Nat) (value : Float) (call : Call) :
    exec (storeAt id index value) call =
      match call.cells? id with
      | none => (.error .fault, call)
      | some old =>
        if index < old.size then (.ok (), call.withCells id (old.setIfInBounds index value))
        else (.error .fault, call) := by
  simp only [storeAt, exec_bind, exec_load]
  cases call.cells? id with
  | none => rfl
  | some old =>
    simp only [orFault]
    split <;> rfl

/-- The call after work of the device. -/
def withDevice (call : Call) (device : Device) : Call :=
  { call with machine := { call.machine with device } }

theorem exec_onMachine {α : Type} (work : MachineM α) (call : Call) :
    exec (onMachine work) call =
      ((exec work call.machine).1, { call with machine := (exec work call.machine).2 }) := by
  rcases h : exec work call.machine with ⟨result, machine⟩
  have hrun : work.run.run call.machine = (result, machine) := h
  simp only [onMachine, exec_bind, exec_get, hrun, exec_set, exec_ofExcept]

theorem exec_machine_onDevice {α : Type} (work : DeviceM α) (machine : Machine) :
    exec (MachineM.onDevice work) machine =
      ((exec work machine.device).1.mapError (Stop.map OffloadError.device),
        { machine with device := (exec work machine.device).2 }) := by
  rcases h : exec work machine.device with ⟨result, device⟩
  have hrun : work.run.run machine.device = (result, device) := h
  simp only [MachineM.onDevice, exec_bind, exec_get, hrun, exec_set, exec_ofExcept]

theorem exec_onDevice {α : Type} (work : DeviceM α) (call : Call) :
    exec (onDevice work) call =
      ((exec work call.machine.device).1.mapError (Stop.map OffloadError.device),
        call.withDevice (exec work call.machine.device).2) := by
  rw [onDevice, exec_onMachine, exec_machine_onDevice]
  rfl

end Call

/-- The device with a new buffer. -/
def Device.allocated (device : Device) (elem : Elem) (cells : Cells) : Device :=
  { device with
    lastHandle := device.lastHandle + 1
    buffers := device.buffers.set (device.lastHandle + 1) (.owned elem cells)
    counters := { device.counters with allocations := device.counters.allocations + 1 } }

/-- Zeros are refused, or there are as many as were asked for. -/
theorem Device.zeroed_cases (device : Device) (purpose : Purpose) (elem : Elem) (length : Nat) :
    (∃ reason, Demand.refusal? device.scarce ⟨purpose, device.lastHandle, length⟩ = some reason ∧
      device.zeroed purpose elem length =
        .error (.error (.allocationFailed elem length reason))) ∨
    (refusal? length = none ∧
      device.zeroed purpose elem length =
        .ok (Array.replicate length (Number.ofCode false 0))) := by
  unfold zeroed
  cases hr : Demand.refusal? device.scarce ⟨purpose, device.lastHandle, length⟩ with
  | some reason => exact .inl ⟨reason, rfl, rfl⟩
  | none => exact .inr ⟨(Option.or_eq_none_iff.mp hr).1, rfl⟩

theorem Call.zeros_cases (device : Device) (purpose : Purpose) (elem : Elem) (length : Nat) :
    (∃ reason, Demand.refusal? device.scarce ⟨purpose, device.lastHandle, length⟩ = some reason ∧
      zeros device purpose elem length =
        .error (.error (.device (.allocationFailed elem length reason)))) ∨
    (refusal? length = none ∧
      zeros device purpose elem length =
        .ok (Array.replicate length (Number.ofCode false 0))) := by
  unfold zeros
  rcases device.zeroed_cases purpose elem length with ⟨reason, hr, hzeroed⟩ | ⟨hr, hzeroed⟩
  · rw [hzeroed]
    exact .inl ⟨reason, hr, rfl⟩
  · rw [hzeroed]
    exact .inr ⟨hr, rfl⟩

theorem Device.exec_alloc (elem : Elem) (length : Nat) (device : Device) :
    exec (Device.alloc elem length) device =
      match device.zeroed .buffer elem length with
      | .error stop => (.error stop, device)
      | .ok cells => (.ok (device.lastHandle + 1), device.allocated elem cells) := by
  simp only [alloc, exec_bind, exec_get, exec_ofExcept]
  cases device.zeroed .buffer elem length <;> rfl

namespace Call

theorem exec_bufferOf (id : ArrayId) (elem : Elem) (length : Nat) (call : Call) :
    exec (bufferOf id elem length) call =
      match call.buffers[id]? with
      | none => (.error .fault, call)
      | some (some handle) => (.ok handle, call)
      | some none =>
        match call.machine.device.zeroed .buffer elem length with
        | .error stop => (.error (stop.map .device), call)
        | .ok cells =>
          (.ok (call.machine.device.lastHandle + 1),
            { call.withDevice (call.machine.device.allocated elem cells) with
              buffers := call.buffers.set id (some (call.machine.device.lastHandle + 1)) }) := by
  simp only [bufferOf, exec_bind, exec_get, exec_expect]
  cases call.buffers[id]? with
  | none => rfl
  | some found =>
    cases found with
    | some handle => rfl
    | none =>
      simp only [orFault, exec_bind, exec_onDevice, Device.exec_alloc]
      cases call.machine.device.zeroed .buffer elem length <;> rfl

/-! ## Elements of arrays -/

/-- The host's elements of an array, none for an array that is not there. -/
def read (call : Call) (id : ArrayId) : Cells := (call.cells? id).getD #[]

/-- Every array has as many elements as its shape asks for. -/
def Sized (f : Func) (shapes : List Shape) (call : Call) : Prop :=
  ∀ id, id < f.arrays.length → ∃ cells, call.cells? id = some cells ∧ cells.size = sizeAt shapes id

theorem Sized.cells? {f : Func} {shapes : List Shape} {call : Call} (sized : call.Sized f shapes)
    {id : ArrayId} (h : id < f.arrays.length) : call.cells? id = some (call.read id) := by
  obtain ⟨cells, hc, _⟩ := sized id h
  simp [read, hc]

theorem Sized.size_read {f : Func} {shapes : List Shape} {call : Call}
    (sized : call.Sized f shapes) {id : ArrayId} (h : id < f.arrays.length) :
    (call.read id).size = sizeAt shapes id := by
  obtain ⟨cells, hc, hsize⟩ := sized id h
  simp [read, hc, hsize]

theorem cells?_withCells_owned {call : Call} {id other : ArrayId} {old cells : Cells}
    (h : call.host[id]? = some (.owned old)) :
    (call.withCells id cells).cells? other =
      if other = id then some cells else call.cells? other := by
  simp only [withCells, h, Call.cells?]
  have hlt := (List.getElem?_eq_some_iff.mp h).1
  by_cases ho : other = id
  · subst ho
    simp [List.getElem?_set_self hlt]
  · simp [List.getElem?_set_ne (Ne.symm ho), ho]

theorem cells?_withCells_shared {call : Call} {id : ArrayId} {handle : Nat}
    (h : call.host[id]? = some (.shared handle)) (cells : Cells) (other : ArrayId) :
    (call.host[other]? = some (.shared handle) ∧
      (call.withCells id cells).cells? other = some cells) ∨
    (call.host[other]? ≠ some (.shared handle) ∧
      (call.withCells id cells).cells? other = call.cells? other) := by
  simp only [withCells, h, Call.cells?, Device.shared?, Device.withShared, HandleTable.get?_set]
  cases ho : call.host[other]? with
  | none => simp
  | some storage =>
    cases storage with
    | owned own => simp
    | shared key =>
      by_cases hk : key = handle
      · simp [hk]
      · simp [hk]

/-- Replacing elements by as many others keeps all sizes, also those of arrays that name the same
shared memory. -/
theorem Sized.withCells {f : Func} {shapes : List Shape} {call : Call}
    (sized : call.Sized f shapes) {id : ArrayId} (h : id < f.arrays.length) {cells : Cells}
    (hsize : cells.size = sizeAt shapes id) : (call.withCells id cells).Sized f shapes := by
  intro other ho
  obtain ⟨old, hold, holdSize⟩ := sized other ho
  cases hs : call.host[id]? with
  | none =>
    obtain ⟨_, hid, _⟩ := sized id h
    simp [Call.cells?, hs] at hid
  | some storage =>
    cases storage with
    | owned own =>
      rw [cells?_withCells_owned hs]
      split
      · next heq => exact ⟨cells, rfl, heq ▸ hsize⟩
      · exact ⟨old, hold, holdSize⟩
    | shared handle =>
      rcases cells?_withCells_shared hs cells other with ⟨halias, hnew⟩ | ⟨_, hsame⟩
      · refine ⟨cells, hnew, ?_⟩
        obtain ⟨mine, hmine, hmineSize⟩ := sized id h
        simp only [Call.cells?, hs] at hmine
        simp only [Call.cells?, halias] at hold
        rw [hmine, Option.some.injEq] at hold
        rw [hsize, ← hmineSize, hold, holdSize]
      · exact ⟨old, hsame ▸ hold, holdSize⟩

end Call

end ArrayOffload
