import ArrayOffload.Proofs.Footprint

/-!
# The memories of a call

An array of a call has up to two copies, one on the host and one on the device; an array in shared
memory has one that both sides use. Three updates make up all that a call does to its memories: new
elements for a host copy, for a buffer of the call, or for shared memory. This module says what each
of them does to each view, and that none of them breaks the layout of the call.

* `Call.deviceCells?`: the elements that the device has of an array, beside the host's `Call.cells?`;
* `Call.Intact`: buffers and shared memory are where the call expects them, in the right sizes;
* `Call.Intact.setHost`, `Call.Intact.setBuffer`, `Call.Intact.setPool`, `Call.Intact.alloc`: the
  updates keep this.
-/

namespace ArrayOffload

/-- The handle of shared memory. -/
def Storage.handle? : Storage → Option Nat
  | .owned _ => none
  | .shared handle => some handle

namespace Call

/-- The call works on a copy of its own. -/
def Owns (call : Call) (id : ArrayId) : Prop := ∃ cells, call.host[id]? = some (.owned cells)

theorem owns_iff_map {call : Call} {id : ArrayId} :
    call.Owns id ↔ call.host[id]?.map Storage.handle? = some none := by
  rw [Owns]
  rcases call.host[id]? with _ | own | key <;> simp [Storage.handle?]

/-- The shared memory that holds an array. -/
def sharedHandle? (call : Call) (id : ArrayId) : Option Nat :=
  (call.host[id]?.map Storage.handle?).join

theorem sharedHandle?_eq_some {call : Call} {id : ArrayId} {handle : Nat} :
    call.sharedHandle? id = some handle ↔ call.host[id]? = some (.shared handle) := by
  rw [sharedHandle?]
  rcases call.host[id]? with _ | own | key <;> simp [Storage.handle?]

/-- The buffer that stands for an array on the device. -/
def handleOf? (call : Call) (id : ArrayId) : Option Nat :=
  match call.host[id]? with
  | none => none
  | some (.owned _) => call.buffers[id]?.join
  | some (.shared handle) => some handle

/-- The device's elements of an array. -/
def deviceCells? (call : Call) (id : ArrayId) : Option Cells :=
  (call.handleOf? id).bind call.machine.device.cells?

/-- Everything is where the call expects it. `origin` is the device as the call found it. -/
structure Intact (f : Func) (shapes : List Shape) (origin : Device) (call : Call) : Prop where
  host_length : call.host.length = f.arrays.length
  buffers_length : call.buffers.length = f.arrays.length
  owned : ∀ {id : ArrayId} {cells : Cells}, call.host[id]? = some (.owned cells) →
    cells.size = sizeAt shapes id
  shared : ∀ {id : ArrayId} {handle : Nat}, call.host[id]? = some (.shared handle) →
    call.machine.device.buffers.get? handle = some (.shared (f.elemOf id)) ∧
      ∃ cells, call.machine.device.pool.get? handle = some cells ∧ cells.size = sizeAt shapes id
  buffer : ∀ {id : ArrayId} {handle : Nat}, call.buffers[id]? = some (some handle) →
    call.Owns id ∧ ∃ cells, call.machine.device.buffers.get? handle =
      some (.owned (f.elemOf id) cells) ∧ cells.size = sizeAt shapes id
  distinct : ∀ {a b : ArrayId} {handle : Nat}, call.buffers[a]? = some (some handle) →
    call.buffers[b]? = some (some handle) → a = b
  bounded : ∀ key ∈ call.machine.device.buffers.keys, key ≤ call.machine.device.lastHandle
  programs : call.machine.device.programs = origin.programs
  failLaunch : call.machine.device.failLaunch = origin.failLaunch
  scarce : call.machine.device.scarce = origin.scarce

/-- Two calls with the same memories; logs, counters and trackers may differ. -/
structure SameMemory (a b : Call) : Prop where
  host : a.host = b.host
  buffers : a.buffers = b.buffers
  lastHandle : a.machine.device.lastHandle = b.machine.device.lastHandle
  table : a.machine.device.buffers = b.machine.device.buffers
  pool : a.machine.device.pool = b.machine.device.pool
  programs : a.machine.device.programs = b.machine.device.programs
  failLaunch : a.machine.device.failLaunch = b.machine.device.failLaunch
  scarce : a.machine.device.scarce = b.machine.device.scarce

variable {f : Func} {shapes : List Shape} {origin : Device} {call : Call}

theorem SameMemory.cells?_eq {a b : Call} (same : SameMemory a b) : a.cells? = b.cells? := by
  funext id
  simp only [Call.cells?, Device.shared?, same.host, same.pool]

theorem SameMemory.deviceCells?_eq {a b : Call} (same : SameMemory a b) :
    a.deviceCells? = b.deviceCells? := by
  funext id
  have hcells : a.machine.device.cells? = b.machine.device.cells? := by
    funext handle
    simp only [Device.cells?, same.table, same.pool]
  simp only [deviceCells?, handleOf?, same.host, same.buffers, hcells]

namespace Intact

theorem of_sameMemory {other : Call} (intact : call.Intact f shapes origin)
    (same : SameMemory other call) : other.Intact f shapes origin where
  host_length := by rw [same.host, intact.host_length]
  buffers_length := by rw [same.buffers, intact.buffers_length]
  owned h := intact.owned (same.host ▸ h)
  shared h := by
    rw [same.table, same.pool]
    exact intact.shared (same.host ▸ h)
  buffer h := by
    rw [same.table, Owns, same.host]
    exact intact.buffer (same.buffers ▸ h)
  distinct ha hb := intact.distinct (same.buffers ▸ ha) (same.buffers ▸ hb)
  bounded := by
    rw [same.table, same.lastHandle]
    exact intact.bounded
  programs := same.programs.trans intact.programs
  failLaunch := same.failLaunch.trans intact.failLaunch
  scarce := same.scarce.trans intact.scarce

theorem exists_storage (intact : call.Intact f shapes origin) {id : ArrayId}
    (h : id < f.arrays.length) : ∃ storage, call.host[id]? = some storage := by
  have hlt : id < call.host.length := intact.host_length ▸ h
  exact ⟨call.host[id], List.getElem?_eq_getElem hlt⟩

theorem lt_of_storage (intact : call.Intact f shapes origin) {id : ArrayId} {storage : Storage}
    (h : call.host[id]? = some storage) : id < f.arrays.length :=
  intact.host_length ▸ (List.getElem?_eq_some_iff.mp h).1

theorem sized (intact : call.Intact f shapes origin) : call.Sized f shapes := by
  intro id hid
  obtain ⟨storage, hs⟩ := intact.exists_storage hid
  cases storage with
  | owned cells => exact ⟨cells, by simp [Call.cells?, hs], intact.owned hs⟩
  | shared handle =>
    obtain ⟨_, cells, hpool, hsize⟩ := intact.shared hs
    exact ⟨cells, by simp [Call.cells?, hs, Device.shared?, hpool], hsize⟩

theorem deviceCells?_shared (intact : call.Intact f shapes origin) {id : ArrayId} {handle : Nat}
    (h : call.host[id]? = some (.shared handle)) :
    call.deviceCells? id = call.machine.device.pool.get? handle := by
  simp [deviceCells?, handleOf?, h, Device.cells?, (intact.shared h).1]

theorem cells?_eq_deviceCells?_of_shared (intact : call.Intact f shapes origin) {id : ArrayId}
    {handle : Nat} (h : call.host[id]? = some (.shared handle)) :
    call.cells? id = call.deviceCells? id := by
  rw [intact.deviceCells?_shared h]
  simp [Call.cells?, h, Device.shared?]

/-- The buffer behind an array is live, has the array's type and as many elements. -/
theorem buffer_of_handle (intact : call.Intact f shapes origin) {id : ArrayId} {handle : Nat}
    (h : call.handleOf? id = some handle) :
    ∃ buffer cells, call.machine.device.buffers.get? handle = some buffer ∧
      buffer.elem = f.elemOf id ∧ call.machine.device.cells? handle = some cells ∧
      cells.size = sizeAt shapes id := by
  unfold handleOf? at h
  split at h
  · cases h
  · next own hs =>
    rw [Option.join_eq_some_iff] at h
    obtain ⟨_, cells, hget, hsize⟩ := intact.buffer h
    exact ⟨_, cells, hget, rfl, by simp [Device.cells?, hget], hsize⟩
  · next shared hs =>
    cases h
    obtain ⟨hget, cells, hpool, hsize⟩ := intact.shared hs
    exact ⟨_, cells, hget, rfl, by simp [Device.cells?, hget, hpool], hsize⟩

end Intact

/-! ## New elements for a host copy -/

/-- The call with other elements in a host copy. -/
def setHost (call : Call) (id : ArrayId) (cells : Cells) : Call :=
  { call with host := call.host.set id (.owned cells) }

theorem not_owns_of_shared {id : ArrayId} {handle : Nat}
    (h : call.host[id]? = some (.shared handle)) : ¬ call.Owns id := by
  rintro ⟨cells, hcells⟩
  rw [h] at hcells
  cases hcells

theorem withCells_of_owns {id : ArrayId} (h : call.Owns id) (cells : Cells) :
    call.withCells id cells = call.setHost id cells := by
  obtain ⟨old, hold⟩ := h
  simp [withCells, hold, setHost]

theorem Owns.lt_length {id : ArrayId} (h : call.Owns id) : id < call.host.length := by
  obtain ⟨old, hold⟩ := h
  exact (List.getElem?_eq_some_iff.mp hold).1

theorem host_setHost {id : ArrayId} (h : call.Owns id) (cells : Cells) (other : ArrayId) :
    (call.setHost id cells).host[other]? =
      if other = id then some (.owned cells) else call.host[other]? := by
  by_cases ho : other = id
  · subst ho
    simp [setHost, List.getElem?_set_self h.lt_length]
  · simp [setHost, List.getElem?_set_ne (Ne.symm ho), ho]

theorem cells?_setHost {id : ArrayId} (h : call.Owns id) (cells : Cells) (other : ArrayId) :
    (call.setHost id cells).cells? other =
      if other = id then some cells else call.cells? other := by
  rw [← withCells_of_owns h]
  obtain ⟨old, hold⟩ := h
  exact cells?_withCells_owned hold

theorem deviceCells?_setHost {id : ArrayId} (h : call.Owns id) (cells : Cells) (other : ArrayId) :
    (call.setHost id cells).deviceCells? other = call.deviceCells? other := by
  have hhandle : (call.setHost id cells).handleOf? other = call.handleOf? other := by
    simp only [handleOf?, host_setHost h]
    by_cases ho : other = id
    · subst ho
      obtain ⟨old, hold⟩ := h
      simp [hold, setHost]
    · simp [ho, setHost]
  simp only [deviceCells?, hhandle]
  rfl

theorem handle?_setHost {id : ArrayId} (h : call.Owns id) (cells : Cells) :
    (call.setHost id cells).host.map Storage.handle? = call.host.map Storage.handle? := by
  refine List.ext_getElem? fun other => ?_
  simp only [List.getElem?_map, host_setHost h]
  split
  · next ho =>
    subst ho
    obtain ⟨old, hold⟩ := h
    simp [hold, Storage.handle?]
  · rfl

theorem Owns.setHost_iff {id : ArrayId} (h : call.Owns id) (cells : Cells) (other : ArrayId) :
    (call.setHost id cells).Owns other ↔ call.Owns other := by
  simp only [Owns, host_setHost h]
  by_cases ho : other = id
  · subst ho
    simp only [if_true]
    exact ⟨fun _ => h, fun _ => ⟨cells, rfl⟩⟩
  · simp [ho]

theorem Intact.setHost (intact : call.Intact f shapes origin) {id : ArrayId} (h : call.Owns id)
    {cells : Cells} (hsize : cells.size = sizeAt shapes id) :
    (call.setHost id cells).Intact f shapes origin where
  host_length := by simpa [Call.setHost] using intact.host_length
  buffers_length := intact.buffers_length
  owned := by
    intro other own ho
    rw [host_setHost h] at ho
    split at ho
    · next heq =>
      cases ho
      rw [heq, hsize]
    · exact intact.owned ho
  shared := by
    intro other handle ho
    rw [host_setHost h] at ho
    split at ho
    · cases ho
    · exact intact.shared ho
  buffer := by
    intro other handle ho
    rw [h.setHost_iff]
    exact intact.buffer ho
  distinct := intact.distinct
  bounded := intact.bounded
  programs := intact.programs
  failLaunch := intact.failLaunch
  scarce := intact.scarce

/-! ## New elements for a buffer of the call -/

/-- The call with other elements in a buffer that is not shared. -/
def setBuffer (call : Call) (handle : Nat) (elem : Elem) (cells : Cells) : Call :=
  call.withDevice { call.machine.device with
    buffers := call.machine.device.buffers.set handle (.owned elem cells) }

theorem withCells_buffer {handle : Nat} {elem : Elem} {old : Cells}
    (h : call.machine.device.buffers.get? handle = some (.owned elem old)) (cells : Cells) :
    call.withDevice (call.machine.device.withCells handle cells) =
      call.setBuffer handle elem cells := by
  simp [Device.withCells, h, setBuffer]

theorem cells?_setBuffer (handle : Nat) (elem : Elem) (cells : Cells) :
    (call.setBuffer handle elem cells).cells? = call.cells? := rfl

/-- Only the owner of a buffer sees its new elements. -/
theorem Intact.deviceCells?_setBuffer (intact : call.Intact f shapes origin) {id : ArrayId}
    {handle : Nat} (h : call.buffers[id]? = some (some handle)) (elem : Elem) (cells : Cells)
    (other : ArrayId) :
    (call.setBuffer handle elem cells).deviceCells? other =
      if other = id then some cells else call.deviceCells? other := by
  have hhandle : (call.setBuffer handle elem cells).handleOf? other = call.handleOf? other := rfl
  have hlookup : ∀ key, (call.setBuffer handle elem cells).machine.device.cells? key =
      if key = handle then some cells else call.machine.device.cells? key := by
    intro key
    simp only [setBuffer, withDevice, Device.cells?, HandleTable.get?_set]
    by_cases hk : key = handle <;> simp [hk]
  obtain ⟨⟨own, hown⟩, old, hold, _⟩ := intact.buffer h
  rw [deviceCells?, hhandle, deviceCells?]
  by_cases ho : other = id
  · subst ho
    simp [handleOf?, hown, h, hlookup]
  · rw [if_neg ho]
    cases hkey : call.handleOf? other with
    | none => rfl
    | some key =>
      -- another array's handle differs: own buffers are distinct, and shared ones are not owned
      have hne : key ≠ handle := by
        rintro rfl
        unfold handleOf? at hkey
        split at hkey
        · cases hkey
        · exact ho (intact.distinct (Option.join_eq_some_iff.mp hkey) h)
        · next shared hs =>
          cases hkey
          rw [(intact.shared hs).1] at hold
          cases hold
      simp [hlookup, hne]

theorem Intact.setBuffer (intact : call.Intact f shapes origin) {id : ArrayId} {handle : Nat}
    (h : call.buffers[id]? = some (some handle)) {cells : Cells}
    (hsize : cells.size = sizeAt shapes id) :
    (call.setBuffer handle (f.elemOf id) cells).Intact f shapes origin where
  host_length := intact.host_length
  buffers_length := intact.buffers_length
  owned := intact.owned
  shared := by
    intro other key ho
    obtain ⟨hget, hpool⟩ := intact.shared ho
    refine ⟨?_, hpool⟩
    obtain ⟨_, old, hold, _⟩ := intact.buffer h
    have hne : key ≠ handle := by
      rintro rfl
      rw [hget] at hold
      cases hold
    simpa [Call.setBuffer, withDevice, HandleTable.get?_set, hne] using hget
  buffer := by
    intro other key ho
    obtain ⟨howns, old, hold, holdSize⟩ := intact.buffer ho
    refine ⟨howns, ?_⟩
    simp only [Call.setBuffer, withDevice, HandleTable.get?_set]
    -- no two arrays have one buffer, so the changed buffer is that of `id`
    by_cases hk : key = handle
    · subst hk
      obtain rfl := intact.distinct ho h
      exact ⟨cells, by simp, hsize⟩
    · exact ⟨old, by simpa [hk] using hold, holdSize⟩
  distinct := intact.distinct
  bounded := by
    have hmem : handle ∈ call.machine.device.buffers.keys := by
      obtain ⟨_, old, hold, _⟩ := intact.buffer h
      exact HandleTable.mem_keys_iff.mpr ⟨_, hold⟩
    simp only [Call.setBuffer, withDevice, HandleTable.keys_set_of_mem _ hmem]
    exact intact.bounded
  programs := intact.programs
  failLaunch := intact.failLaunch
  scarce := intact.scarce

/-! ## New elements for shared memory -/

/-- The call with other elements in shared memory. -/
def setPool (call : Call) (handle : Nat) (cells : Cells) : Call :=
  call.withDevice { call.machine.device with pool := call.machine.device.pool.set handle cells }

theorem withCells_of_shared {id : ArrayId} {handle : Nat}
    (h : call.host[id]? = some (.shared handle)) (cells : Cells) :
    call.withCells id cells = call.setPool handle cells := by
  simp [withCells, h, setPool, withDevice, Device.withShared]

theorem withCells_shared_buffer {handle : Nat} {elem : Elem}
    (h : call.machine.device.buffers.get? handle = some (.shared elem)) (cells : Cells) :
    call.withDevice (call.machine.device.withCells handle cells) = call.setPool handle cells := by
  simp [Device.withCells, h, setPool]

theorem cells?_setPool (handle : Nat) (cells : Cells) (other : ArrayId) :
    (call.setPool handle cells).cells? other =
      if call.sharedHandle? other = some handle then some cells else call.cells? other := by
  have hhost : (call.setPool handle cells).host = call.host := rfl
  have hpool : (call.setPool handle cells).machine.device.pool.get? = fun key =>
      if key = handle then some cells else call.machine.device.pool.get? key := by
    funext key
    exact HandleTable.get?_set _ _ _ _
  rcases ho : call.host[other]? with _ | own | key
  · simp [Call.cells?, hhost, sharedHandle?, ho]
  · simp [Call.cells?, hhost, sharedHandle?, ho, Storage.handle?]
  · simp [Call.cells?, hhost, sharedHandle?, ho, Storage.handle?, Device.shared?, hpool]

theorem Intact.setPool (intact : call.Intact f shapes origin) {id : ArrayId} {handle : Nat}
    (h : call.host[id]? = some (.shared handle)) {cells : Cells}
    (hsize : cells.size = sizeAt shapes id) :
    (call.setPool handle cells).Intact f shapes origin where
  host_length := intact.host_length
  buffers_length := intact.buffers_length
  owned := intact.owned
  shared := by
    intro other key ho
    obtain ⟨hget, old, hold, holdSize⟩ := intact.shared ho
    refine ⟨hget, ?_⟩
    simp only [Call.setPool, withDevice, HandleTable.get?_set]
    by_cases hk : key = handle
    · -- arrays that name the same memory have the same number of elements
      subst hk
      obtain ⟨_, mine, hmine, hmineSize⟩ := intact.shared h
      rw [hmine, Option.some.injEq] at hold
      exact ⟨cells, by simp, by rw [hsize, ← hmineSize, hold, holdSize]⟩
    · exact ⟨old, by simpa [hk] using hold, holdSize⟩
  buffer := intact.buffer
  distinct := intact.distinct
  bounded := intact.bounded
  programs := intact.programs
  failLaunch := intact.failLaunch
  scarce := intact.scarce

theorem Intact.deviceCells?_setPool (intact : call.Intact f shapes origin) {id : ArrayId}
    {handle : Nat} (h : call.host[id]? = some (.shared handle)) {cells : Cells}
    (hsize : cells.size = sizeAt shapes id) (other : ArrayId) :
    (call.setPool handle cells).deviceCells? other =
      if call.sharedHandle? other = some handle then some cells
      else call.deviceCells? other := by
  have after := intact.setPool h hsize
  cases ho : call.host[other]? with
  | none => simp [deviceCells?, handleOf?, Call.setPool, withDevice, sharedHandle?, ho]
  | some storage =>
    cases storage with
    | shared key =>
      have hkey : (call.setPool handle cells).host[other]? = some (.shared key) := ho
      rw [← after.cells?_eq_deviceCells?_of_shared hkey, cells?_setPool,
        ← intact.cells?_eq_deviceCells?_of_shared ho]
    | owned own =>
      rw [if_neg (by simp [sharedHandle?, ho, Storage.handle?])]
      simp only [deviceCells?, handleOf?, Call.setPool, withDevice, ho]
      cases hb : call.buffers[other]?.join with
      | none => rfl
      | some key =>
        obtain ⟨_, old, hold, _⟩ := intact.buffer (Option.join_eq_some_iff.mp hb)
        simp [Device.cells?, hold]

/-! ## A new buffer -/

/-- The call with a new buffer for an array. -/
def alloc (call : Call) (id : ArrayId) (elem : Elem) (cells : Cells) : Call :=
  { call.withDevice (call.machine.device.allocated elem cells) with
    buffers := call.buffers.set id (some (call.machine.device.lastHandle + 1)) }

theorem cells?_alloc (id : ArrayId) (elem : Elem) (cells : Cells) :
    (call.alloc id elem cells).cells? = call.cells? := rfl

theorem Intact.fresh (intact : call.Intact f shapes origin) :
    call.machine.device.lastHandle + 1 ∉ call.machine.device.buffers.keys := fun hmem =>
  absurd (intact.bounded _ hmem) (by omega)

theorem buffers_alloc {id : ArrayId} (h : call.buffers[id]? = some none) (elem : Elem)
    (cells : Cells) (other : ArrayId) :
    (call.alloc id elem cells).buffers[other]? =
      if other = id then some (some (call.machine.device.lastHandle + 1))
      else call.buffers[other]? := by
  by_cases ho : other = id
  · subst ho
    simp [Call.alloc, List.getElem?_set_self (List.getElem?_eq_some_iff.mp h).1]
  · simp [Call.alloc, List.getElem?_set_ne (Ne.symm ho), ho]

theorem get?_alloc (id : ArrayId) (elem : Elem) (cells : Cells) (key : Nat) :
    (call.alloc id elem cells).machine.device.buffers.get? key =
      if key = call.machine.device.lastHandle + 1 then some (.owned elem cells)
      else call.machine.device.buffers.get? key := by
  simp [alloc, withDevice, Device.allocated, HandleTable.get?_set]

/-- A live buffer keeps its handle to itself. -/
theorem Intact.get?_alloc_of_live (intact : call.Intact f shapes origin) {key : Nat}
    {buffer : Buffer} (h : call.machine.device.buffers.get? key = some buffer) (id : ArrayId)
    (elem : Elem) (cells : Cells) :
    (call.alloc id elem cells).machine.device.buffers.get? key = some buffer := by
  have hle := intact.bounded key (HandleTable.mem_keys_iff.mpr ⟨_, h⟩)
  rw [get?_alloc, if_neg (by omega), h]

theorem Intact.alloc (intact : call.Intact f shapes origin) {id : ArrayId} (howns : call.Owns id)
    (h : call.buffers[id]? = some none) {cells : Cells} (hsize : cells.size = sizeAt shapes id) :
    (call.alloc id (f.elemOf id) cells).Intact f shapes origin where
  host_length := intact.host_length
  buffers_length := by simpa [Call.alloc] using intact.buffers_length
  owned := intact.owned
  shared := by
    intro other key ho
    obtain ⟨hget, hpool⟩ := intact.shared ho
    exact ⟨intact.get?_alloc_of_live hget _ _ _, hpool⟩
  buffer := by
    intro other key ho
    rw [buffers_alloc h] at ho
    split at ho
    · next heq =>
      cases ho
      subst heq
      exact ⟨howns, cells, by simp [get?_alloc], hsize⟩
    · obtain ⟨hown, old, hold, holdSize⟩ := intact.buffer ho
      exact ⟨hown, old, intact.get?_alloc_of_live hold _ _ _, holdSize⟩
  distinct := by
    -- the new handle is larger than every handle in use
    have hnew : ∀ other : ArrayId,
        call.buffers[other]? ≠ some (some (call.machine.device.lastHandle + 1)) := by
      intro other ho
      obtain ⟨_, old, hold, _⟩ := intact.buffer ho
      exact intact.fresh (HandleTable.mem_keys_iff.mpr ⟨_, hold⟩)
    intro a b key ha hb
    rw [buffers_alloc h] at ha hb
    split at ha <;> split at hb
    · next ha' hb' => rw [ha', hb']
    · cases ha
      exact absurd hb (hnew b)
    · cases hb
      exact absurd ha (hnew a)
    · exact intact.distinct ha hb
  bounded := by
    simp only [Call.alloc, withDevice, Device.allocated,
      HandleTable.keys_set_of_not_mem _ intact.fresh, List.mem_append, List.mem_singleton]
    rintro key (hold | rfl)
    · exact Nat.le_succ_of_le (intact.bounded key hold)
    · exact Nat.le_refl _
  programs := intact.programs
  failLaunch := intact.failLaunch
  scarce := intact.scarce

/-- A new buffer changes nothing for the other arrays, nor for an array that had one. -/
theorem Intact.deviceCells?_alloc (intact : call.Intact f shapes origin) {id : ArrayId}
    (howns : call.Owns id) (h : call.buffers[id]? = some none) (elem : Elem) (cells : Cells)
    {other : ArrayId} {held : Cells} (hheld : call.deviceCells? other = some held) :
    (call.alloc id elem cells).deviceCells? other = some held := by
  simp only [deviceCells?, Option.bind_eq_some_iff] at hheld ⊢
  obtain ⟨key, hkey, hcells⟩ := hheld
  have hne : other ≠ id := by
    rintro rfl
    obtain ⟨own, hown⟩ := howns
    simp [handleOf?, hown, h] at hkey
  refine ⟨key, ?_, ?_⟩
  · simp only [handleOf?, buffers_alloc h, if_neg hne]
    exact hkey
  · unfold Device.cells? at hcells ⊢
    split at hcells
    · cases hcells
    · next buffer own hget =>
      rw [intact.get?_alloc_of_live hget]
      exact hcells
    · next shared hget =>
      rw [intact.get?_alloc_of_live hget]
      exact hcells

end Call

end ArrayOffload
