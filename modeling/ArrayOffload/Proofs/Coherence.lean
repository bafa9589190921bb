import ArrayOffload.Proofs.SingleMemory

/-!
# Coherence with a single memory

A call keeps two copies of some arrays, the reference one. The two are coherent when the reference's
elements are found in every copy that is said to be current: `onHost` and `onDevice` say which copies
those are.

* `Call.Coherent`: the relation;
* `Call.Coherent.hostWrite`, `Call.Coherent.deviceWrite`: a write on either side, done in the
  reference too, makes that side current and the other one stale;
* `Call.Coherent.copyIn`, `Call.Coherent.copyOut`: a transfer makes the other side current as well.
-/

namespace ArrayOffload.Call

structure Coherent (f : Func) (shapes : List Shape) (origin : Device)
    (onHost onDevice : ArrayId → Prop) (call : Call) (ref : Memory) : Prop where
  intact : call.Intact f shapes origin
  kinds : call.host.map Storage.handle? = ref.arrays.map Storage.handle?
  pool : call.machine.device.pool = ref.pool
  settled : ∀ {id : ArrayId} {cells : Cells}, ref.arrays[id]? = some (.owned cells) →
    cells.size = sizeAt shapes id ∧ Settled (f.elemOf id) cells
  host : ∀ id, onHost id → call.cells? id = ref.cells? id
  device : ∀ id, onDevice id → call.deviceCells? id = ref.cells? id
  printed : call.printed = ref.printed

namespace Coherent

variable {f : Func} {shapes : List Shape} {origin : Device} {onHost onDevice : ArrayId → Prop}
  {call : Call} {ref : Memory}

theorem kind (co : Coherent f shapes origin onHost onDevice call ref) (id : ArrayId) :
    call.host[id]?.map Storage.handle? = ref.arrays[id]?.map Storage.handle? := by
  have h := congrArg (·[id]?) co.kinds
  simpa [List.getElem?_map] using h

theorem owns_iff (co : Coherent f shapes origin onHost onDevice call ref) (id : ArrayId) :
    call.Owns id ↔ ref.Owns id := by
  rw [owns_iff_map, Memory.owns_iff_map, co.kind id]

theorem sharedHandle?_eq (co : Coherent f shapes origin onHost onDevice call ref) :
    call.sharedHandle? = ref.sharedHandle? := by
  funext id
  exact congrArg Option.join (co.kind id)

theorem ref_shared (co : Coherent f shapes origin onHost onDevice call ref) {id : ArrayId}
    {handle : Nat} (h : call.host[id]? = some (.shared handle)) :
    ref.arrays[id]? = some (.shared handle) := by
  rw [← Memory.sharedHandle?_eq_some, ← co.sharedHandle?_eq, sharedHandle?_eq_some]
  exact h

/-- Shared memory is one memory. -/
theorem cells?_shared (co : Coherent f shapes origin onHost onDevice call ref) {id : ArrayId}
    {handle : Nat} (h : call.host[id]? = some (.shared handle)) : call.cells? id = ref.cells? id := by
  simp only [Call.cells?, Memory.cells?, h, co.ref_shared h, Device.shared?, co.pool]

theorem cells?_of_not_owns (co : Coherent f shapes origin onHost onDevice call ref) {id : ArrayId}
    (h : ¬ call.Owns id) :
    call.cells? id = ref.cells? id ∧ call.deviceCells? id = ref.cells? id := by
  cases hs : call.host[id]? with
  | none =>
    have hr : ref.arrays[id]? = none := by
      have := co.kind id
      rw [hs] at this
      simpa using this.symm
    simp [Call.cells?, Memory.cells?, deviceCells?, handleOf?, hs, hr]
  | some storage =>
    cases storage with
    | owned own => exact absurd ⟨own, hs⟩ h
    | shared handle =>
      rw [← co.intact.cells?_eq_deviceCells?_of_shared hs, co.cells?_shared hs]
      exact ⟨rfl, rfl⟩

/-- Only the copies of arrays that the call owns can be stale. -/
theorem weaken {onHost' onDevice' : ArrayId → Prop}
    (co : Coherent f shapes origin onHost onDevice call ref)
    (hhost : ∀ id, call.Owns id → onHost' id → onHost id)
    (hdevice : ∀ id, call.Owns id → onDevice' id → onDevice id) :
    Coherent f shapes origin onHost' onDevice' call ref :=
  { co with
    host := fun id h => by
      by_cases ho : call.Owns id
      · exact co.host id (hhost id ho h)
      · exact (co.cells?_of_not_owns ho).1
    device := fun id h => by
      by_cases ho : call.Owns id
      · exact co.device id (hdevice id ho h)
      · exact (co.cells?_of_not_owns ho).2 }

theorem of_sameMemory {other : Call} (co : Coherent f shapes origin onHost onDevice call ref)
    (same : SameMemory other call) (hprinted : other.printed = call.printed) :
    Coherent f shapes origin onHost onDevice other ref where
  intact := co.intact.of_sameMemory same
  kinds := same.host ▸ co.kinds
  pool := same.pool.trans co.pool
  settled := co.settled
  host id h := by rw [same.cells?_eq, co.host id h]
  device id h := by rw [same.deviceCells?_eq, co.device id h]
  printed := hprinted.trans co.printed

theorem ref_sized (co : Coherent f shapes origin onHost onDevice call ref) {id : ArrayId}
    (hid : id < f.arrays.length) :
    ∃ cells, ref.cells? id = some cells ∧ cells.size = sizeAt shapes id := by
  obtain ⟨storage, hs⟩ := co.intact.exists_storage hid
  cases storage with
  | shared handle =>
    obtain ⟨cells, hcells, hsize⟩ := co.intact.sized id hid
    exact ⟨cells, co.cells?_shared hs ▸ hcells, hsize⟩
  | owned own =>
    obtain ⟨cells, hr⟩ := (co.owns_iff id).mp ⟨own, hs⟩
    exact ⟨cells, by simp [Memory.cells?, hr], (co.settled hr).1⟩

theorem size_read (co : Coherent f shapes origin onHost onDevice call ref) {id : ArrayId}
    (hid : id < f.arrays.length) : (ref.read id).size = sizeAt shapes id := by
  obtain ⟨cells, hcells, hsize⟩ := co.ref_sized hid
  simp [Memory.read, hcells, hsize]

theorem read_eq (co : Coherent f shapes origin onHost onDevice call ref) {id : ArrayId}
    (h : onHost id) : call.read id = ref.read id := by
  simp only [Call.read, Memory.read, co.host id h]

theorem settled_read (co : Coherent f shapes origin onHost onDevice call ref) {id : ArrayId}
    (h : call.Owns id) : Settled (f.elemOf id) (ref.read id) := by
  obtain ⟨cells, hr⟩ := (co.owns_iff id).mp h
  simpa [Memory.read, Memory.cells?, hr] using (co.settled hr).2

/-! ## Writes -/

/-- New elements for an array of the reference, none of them in the call yet. -/
theorem settled_write (co : Coherent f shapes origin onHost onDevice call ref) {id : ArrayId}
    (howns : ref.Owns id) {cells : Cells} (hsize : cells.size = sizeAt shapes id)
    (hsettled : Settled (f.elemOf id) cells) {other : ArrayId} {own : Cells}
    (h : (ref.write id cells).arrays[other]? = some (.owned own)) :
    own.size = sizeAt shapes other ∧ Settled (f.elemOf other) own := by
  rw [Memory.arrays_write howns] at h
  split at h
  · next heq =>
    cases h
    subst heq
    exact ⟨hsize, hsettled⟩
  · exact co.settled h

theorem setPool (co : Coherent f shapes origin onHost onDevice call ref) {id : ArrayId}
    {handle : Nat} (h : call.host[id]? = some (.shared handle)) {cells : Cells}
    (hsize : cells.size = sizeAt shapes id) :
    Coherent f shapes origin onHost onDevice (call.setPool handle cells) (ref.write id cells) where
  intact := co.intact.setPool h hsize
  kinds := co.kinds.trans (ref.handle?_write id cells).symm
  pool := by simp only [Call.setPool, withDevice, Memory.write_of_shared (co.ref_shared h), co.pool]
  settled := by
    rw [Memory.write_of_shared (co.ref_shared h)]
    exact co.settled
  host other ho := by
    rw [cells?_setPool, Memory.cells?_write_shared (co.ref_shared h), co.sharedHandle?_eq,
      co.host other ho]
  device other ho := by
    rw [co.intact.deviceCells?_setPool h hsize, Memory.cells?_write_shared (co.ref_shared h),
      co.sharedHandle?_eq, co.device other ho]
  printed := co.printed.trans (ref.printed_write id cells).symm

/-- A write on the host. -/
theorem hostWrite (co : Coherent f shapes origin onHost onDevice call ref) {id : ArrayId}
    (hid : id < f.arrays.length) {cells : Cells} (hsize : cells.size = sizeAt shapes id)
    (hsettled : call.Owns id → Settled (f.elemOf id) cells) :
    Coherent f shapes origin (fun other => onHost other ∨ other = id)
      (fun other => onDevice other ∧ other ≠ id) (call.withCells id cells)
      (ref.write id cells) := by
  obtain ⟨storage, hs⟩ := co.intact.exists_storage hid
  cases storage with
  | shared handle =>
    rw [withCells_of_shared hs]
    refine (co.setPool hs hsize).weaken (fun other howns ho => ?_) fun other _ ho => ho.1
    rcases ho with ho | rfl
    · exact ho
    · exact absurd howns (not_owns_of_shared hs)
  | owned own =>
    have howns : call.Owns id := ⟨own, hs⟩
    have hrefOwns := (co.owns_iff id).mp howns
    rw [withCells_of_owns howns]
    exact
      { intact := co.intact.setHost howns hsize
        kinds := by rw [handle?_setHost howns, Memory.handle?_write, co.kinds]
        pool := co.pool.trans (Memory.pool_write hrefOwns cells).symm
        settled := co.settled_write hrefOwns hsize (hsettled howns)
        host := fun other ho => by
          rw [cells?_setHost howns, Memory.cells?_write hrefOwns]
          by_cases heq : other = id
          · rw [if_pos heq, if_pos heq]
          · rw [if_neg heq, if_neg heq, co.host other (ho.resolve_right heq)]
        device := fun other ho => by
          rw [deviceCells?_setHost howns, Memory.cells?_write hrefOwns, if_neg ho.2,
            co.device other ho.1]
        printed := co.printed.trans (ref.printed_write id cells).symm }

/-- A write on the device. -/
theorem deviceWrite (co : Coherent f shapes origin onHost onDevice call ref) {id : ArrayId}
    {handle : Nat} (hhandle : call.handleOf? id = some handle) {cells : Cells}
    (hsize : cells.size = sizeAt shapes id) (hsettled : Settled (f.elemOf id) cells) :
    Coherent f shapes origin (fun other => onHost other ∧ other ≠ id)
      (fun other => onDevice other ∨ other = id)
      (call.withDevice (call.machine.device.withCells handle cells)) (ref.write id cells) := by
  unfold handleOf? at hhandle
  split at hhandle
  · cases hhandle
  · next own hs =>
    have howns : call.Owns id := ⟨own, hs⟩
    have hrefOwns := (co.owns_iff id).mp howns
    have hbuffer := Option.join_eq_some_iff.mp hhandle
    obtain ⟨_, old, hold, _⟩ := co.intact.buffer hbuffer
    rw [withCells_buffer hold]
    exact
      { intact := co.intact.setBuffer hbuffer hsize
        kinds := co.kinds.trans (ref.handle?_write id cells).symm
        pool := co.pool.trans (Memory.pool_write hrefOwns cells).symm
        settled := co.settled_write hrefOwns hsize hsettled
        host := fun other ho => by
          rw [cells?_setBuffer, Memory.cells?_write hrefOwns, if_neg ho.2, co.host other ho.1]
        device := fun other ho => by
          rw [co.intact.deviceCells?_setBuffer hbuffer, Memory.cells?_write hrefOwns]
          by_cases heq : other = id
          · rw [if_pos heq, if_pos heq]
          · rw [if_neg heq, if_neg heq, co.device other (ho.resolve_right heq)]
        printed := co.printed.trans (ref.printed_write id cells).symm }
  · next shared hs =>
    cases hhandle
    rw [withCells_shared_buffer (co.intact.shared hs).1]
    refine (co.setPool hs hsize).weaken (fun other _ ho => ho.1) fun other howns ho => ?_
    rcases ho with ho | rfl
    · exact ho
    · exact absurd howns (not_owns_of_shared hs)

/-! ## Transfers -/

/-- The device gets the elements that the reference has. -/
theorem copyIn (co : Coherent f shapes origin onHost onDevice call ref) {id : ArrayId}
    {handle : Nat} (hbuffer : call.buffers[id]? = some (some handle)) {cells : Cells}
    (hcells : ref.cells? id = some cells) :
    Coherent f shapes origin onHost (fun other => onDevice other ∨ other = id)
      (call.withDevice (call.machine.device.withCells handle cells)) ref := by
  obtain ⟨⟨own, hs⟩, old, hold, _⟩ := co.intact.buffer hbuffer
  obtain ⟨held, hheld, hsize⟩ := co.ref_sized (co.intact.lt_of_storage hs)
  rw [hcells, Option.some.injEq] at hheld
  subst hheld
  rw [withCells_buffer hold]
  exact
    { co with
      intact := co.intact.setBuffer hbuffer hsize
      host := fun other ho => by rw [cells?_setBuffer, co.host other ho]
      device := fun other ho => by
        rw [co.intact.deviceCells?_setBuffer hbuffer]
        by_cases heq : other = id
        · rw [if_pos heq, heq, hcells]
        · rw [if_neg heq, co.device other (ho.resolve_right heq)] }

/-- The host gets the elements that the reference has. -/
theorem copyOut (co : Coherent f shapes origin onHost onDevice call ref) {id : ArrayId}
    (howns : call.Owns id) {cells : Cells} (hcells : ref.cells? id = some cells) :
    Coherent f shapes origin (fun other => onHost other ∨ other = id) onDevice
      (call.withCells id cells) ref := by
  obtain ⟨own, hs⟩ := howns
  obtain ⟨held, hheld, hsize⟩ := co.ref_sized (co.intact.lt_of_storage hs)
  rw [hcells, Option.some.injEq] at hheld
  subst hheld
  have howns : call.Owns id := ⟨own, hs⟩
  rw [withCells_of_owns howns]
  exact
    { co with
      intact := co.intact.setHost howns hsize
      kinds := by rw [handle?_setHost howns, co.kinds]
      host := fun other ho => by
        rw [cells?_setHost howns]
        by_cases heq : other = id
        · rw [if_pos heq, heq, hcells]
        · rw [if_neg heq, co.host other (ho.resolve_right heq)]
      device := fun other ho => by rw [deviceCells?_setHost howns, co.device other ho] }

/-- A new buffer. Its array has no current copy on the device, or it would have a buffer. -/
theorem alloc (co : Coherent f shapes origin onHost onDevice call ref) {id : ArrayId}
    (howns : call.Owns id) (hnone : call.buffers[id]? = some none) {cells : Cells}
    (hsize : cells.size = sizeAt shapes id) :
    Coherent f shapes origin onHost onDevice (call.alloc id (f.elemOf id) cells) ref :=
  { co with
    intact := co.intact.alloc howns hnone hsize
    host := fun other ho => by rw [cells?_alloc, co.host other ho]
    device := fun other ho => by
      cases hs : call.host[other]? with
      | none =>
        rw [← co.device other ho]
        have hs' : (call.alloc id (f.elemOf id) cells).host[other]? = none := hs
        simp [deviceCells?, handleOf?, hs, hs']
      | some storage =>
        obtain ⟨held, hheld, _⟩ := co.ref_sized (co.intact.lt_of_storage hs)
        rw [hheld]
        exact co.intact.deviceCells?_alloc howns hnone _ _ (by rw [co.device other ho, hheld]) }

end Coherent

end ArrayOffload.Call
