import ArrayOffload.Proofs.Programs
import ArrayOffload.Proofs.Writes

/-!
# Histories of a device

A device is asked for one thing after the other, in any order, with any handles and grids, and the
host writes shared memory in between. Memory runs out where it will, and a grid may have more points
than a word can count. The events so far say what the device holds: a buffer is live from its
allocation to its release, with the element type and the length that were asked for.

* `Device.Request`, `Device.serve`, `Device.record`: requests, and a history of them;
* `Device.Effect`, `Device.serve_effect`: all that a request can do;
* `Device.Recorded`: what the events say about the device, kept by every request;
* `Device.record_consistent`: handles, counters and buffers after every history.
-/

namespace ArrayOffload

namespace HandleTable

variable {α : Type}

theorem get?_erase_self (table : HandleTable α) (key : Nat) : (table.erase key).get? key = none := by
  rw [get?_eq_none_iff, keys_erase]
  simp

theorem get?_erase (table : HandleTable α) (key other : Nat) :
    (table.erase key).get? other = if other = key then none else table.get? other := by
  split
  · next hsame => rw [hsame, get?_erase_self]
  · next hne => exact get?_erase_of_ne table hne

theorem length_keys (table : HandleTable α) : table.keys.length = table.length := by
  simp [keys]

theorem length_erase {table : HandleTable α} {key : Nat} (hnodup : table.keys.Nodup)
    (hmem : key ∈ table.keys) : (table.erase key).length + 1 = table.length := by
  have hkeys : (table.erase key).keys = table.keys.erase key := by
    rw [keys_erase, hnodup.erase_eq_filter]
    exact List.filter_congr fun other _ => by by_cases h : other = key <;> simp [h]
  rw [← length_keys, ← length_keys, hkeys, List.length_erase_of_mem hmem]
  exact Nat.sub_add_cancel (List.length_pos_of_mem hmem)

end HandleTable

namespace Device

/-! ## Requests -/

/-- What can be asked of a device, the failures that can be planned, and writes of the host to shared
memory. -/
inductive Request where
  | compile (kernel : Kernel)
  | launch (program : Nat) (grid : Shape) (bindings : List Nat)
  | alloc (elem : Elem) (length : Nat)
  | allocShared (elem : Elem) (length : Nat)
  | copyIn (handle : Nat) (values : Cells)
  | copyOut (handle length : Nat)
  | release (handle : Nat)
  | releaseProgram (handle : Nat)
  | failCompile (skip : Nat) (reason : String)
  | failLaunch (reason : String)
  | hostWrite (handle : Nat) (values : Cells)

inductive Reply where
  | handle (handle : Nat)
  | cells (cells : Cells)
  | done

/-- Leading elements of shared memory, as far as there is any. -/
def hostWrite (handle : Nat) (values : Cells) (device : Device) : Device :=
  match device.shared? handle with
  | some cells =>
    if values.size ≤ cells.size then device.withShared handle (overwrite cells values) else device
  | none => device

def serve : Request → DeviceM Reply
  | .compile kernel => return .handle (← compile kernel)
  | .launch program grid bindings => do
    launch program grid bindings
    return .done
  | .alloc elem length => return .handle (← alloc elem length)
  | .allocShared elem length => return .handle (← allocShared .simulated elem length)
  | .copyIn handle values => do
    copyIn handle values
    return .done
  | .copyOut handle length => return .cells (← copyOut handle length)
  | .release handle => do
    modify (·.release handle)
    return .done
  | .releaseProgram handle => do
    modify (·.releaseProgram handle)
    return .done
  | .failCompile skip reason => do
    modify fun device => { device with failCompile := some (skip, reason) }
    return .done
  | .failLaunch reason => do
    modify fun device => { device with failLaunch := some reason }
    return .done
  | .hostWrite handle values => do
    modify (hostWrite handle values)
    return .done

/-- A request and what came of it. -/
structure Exchange where
  request : Request
  outcome : Except (Stop DeviceError) Reply

/-- One more request. -/
def recordNext (past : List Exchange × Device) (request : Request) : List Exchange × Device :=
  let (outcome, after) := exec (serve request) past.2
  (past.1 ++ [⟨request, outcome⟩], after)

/-- The events of some requests to a new device, and the device that they leave. -/
def record (scarce : List Demand) (trapping : Bool) (requests : List Request) :
    List Exchange × Device :=
  requests.foldl recordNext ([], { scarce, trapping })

/-- The handle that was given out. -/
def Exchange.issued? (event : Exchange) : Option Nat :=
  match event.outcome with
  | .ok (.handle handle) => some handle
  | _ => none

/-- The buffer that was asked for. -/
def Request.extent? : Request → Option (Elem × Nat)
  | .alloc elem length | .allocShared elem length => some (elem, length)
  | _ => none

/-- Something was opened and not closed since. -/
def Since (opens closes : Exchange → Prop) (events : List Exchange) : Prop :=
  ∃ before event after, events = before ++ event :: after ∧ opens event ∧
    ∀ later ∈ after, ¬ closes later

/-- The buffer was allocated, with that element type and length, and not released since. -/
def Allocated (events : List Exchange) (handle : Nat) (extent : Elem × Nat) : Prop :=
  Since (fun event => event.issued? = some handle ∧ event.request.extent? = some extent)
    (fun event => event.request = .release handle) events

/-- The program was compiled and not released since. -/
def Compiled (events : List Exchange) (handle : Nat) (kernel : Kernel) : Prop :=
  Since (fun event => event.issued? = some handle ∧ event.request = .compile kernel)
    (fun event => event.request = .releaseProgram handle) events

theorem since_append_singleton {opens closes : Exchange → Prop} {events : List Exchange}
    {event : Exchange} :
    Since opens closes (events ++ [event]) ↔
      (Since opens closes events ∧ ¬ closes event) ∨ opens event := by
  constructor
  · rintro ⟨before, found, after, hevents, hopens, hcloses⟩
    rcases List.eq_nil_or_concat after with rfl | ⟨after, last, rfl⟩
    · obtain ⟨-, hlast⟩ := List.append_inj' hevents rfl
      obtain rfl := List.singleton_inj.mp hlast
      exact .inr hopens
    · rw [List.concat_eq_append, ← List.cons_append, ← List.append_assoc] at hevents
      obtain ⟨rfl, hlast⟩ := List.append_inj' hevents rfl
      obtain rfl := List.singleton_inj.mp hlast
      rw [List.concat_eq_append, List.forall_mem_append] at hcloses
      exact .inl ⟨⟨before, found, after, rfl, hopens, hcloses.1⟩, hcloses.2 _ (by simp)⟩
  · rintro (⟨⟨before, found, after, rfl, hopens, hcloses⟩, hlast⟩ | hopens)
    · refine ⟨before, found, after ++ [event], by simp, hopens, ?_⟩
      exact List.forall_mem_append.mpr ⟨hcloses, by simpa using hlast⟩
    · exact ⟨events, event, [], rfl, hopens, nofun⟩

theorem allocated_next {events : List Exchange} {event : Exchange} {handle : Nat}
    {extent : Elem × Nat} : Allocated (events ++ [event]) handle extent ↔
      (Allocated events handle extent ∧ event.request ≠ .release handle) ∨
        (event.issued? = some handle ∧ event.request.extent? = some extent) :=
  since_append_singleton

theorem compiled_next {events : List Exchange} {event : Exchange} {handle : Nat} {kernel : Kernel} :
    Compiled (events ++ [event]) handle kernel ↔
      (Compiled events handle kernel ∧ event.request ≠ .releaseProgram handle) ∨
        (event.issued? = some handle ∧ event.request = .compile kernel) :=
  since_append_singleton

theorem Since.exists_mem {opens closes : Exchange → Prop} {events : List Exchange}
    (h : Since opens closes events) : ∃ event ∈ events, opens event := by
  obtain ⟨before, event, after, rfl, hopens, -⟩ := h
  exact ⟨event, by simp, hopens⟩

theorem Allocated.issued {events : List Exchange} {handle : Nat} {extent : Elem × Nat}
    (h : Allocated events handle extent) : handle ∈ events.filterMap Exchange.issued? := by
  obtain ⟨event, hmem, hissued, -⟩ := h.exists_mem
  exact List.mem_filterMap.mpr ⟨event, hmem, hissued⟩

theorem Compiled.issued {events : List Exchange} {handle : Nat} {kernel : Kernel}
    (h : Compiled events handle kernel) : handle ∈ events.filterMap Exchange.issued? := by
  obtain ⟨event, hmem, hissued, -⟩ := h.exists_mem
  exact List.mem_filterMap.mpr ⟨event, hmem, hissued⟩

/-! ## All that a request can do -/

/-- The device has one more buffer, under the next handle. -/
structure Gains (device : Device) (extent : Elem × Nat) (after : Device) : Prop where
  lastHandle : after.lastHandle = device.lastHandle + 1
  programs : after.programs = device.programs
  buffers : ∃ buffer, after.buffers = device.buffers.set (device.lastHandle + 1) buffer
  extents : ∀ handle, after.extent? handle =
    if handle = device.lastHandle + 1 then some extent else device.extent? handle
  allocations : after.counters.allocations = device.counters.allocations + 1
  releases : after.counters.releases = device.counters.releases

/-- The device has one more program, under the next handle. -/
structure Loads (device : Device) (kernel : Kernel) (after : Device) : Prop where
  lastHandle : after.lastHandle = device.lastHandle + 1
  programs : after.programs = device.programs.set (device.lastHandle + 1) kernel
  buffers : after.buffers = device.buffers
  extents : ∀ handle, after.extent? handle = device.extent? handle
  allocations : after.counters.allocations = device.counters.allocations
  releases : after.counters.releases = device.counters.releases

/-- The effect of a request on a device. -/
inductive Effect (device : Device) : Exchange → Device → Prop
  /-- Elements are written, or nothing is. -/
  | quiet {event : Exchange} {after : Device} : Changes (fun _ => True) device after →
      event.issued? = none → (∀ handle, event.request ≠ .release handle) →
      (∀ handle, event.request ≠ .releaseProgram handle) → Effect device event after
  | gains {event : Exchange} {after : Device} {extent : Elem × Nat} :
      Gains device extent after → event.request.extent? = some extent →
      event.issued? = some (device.lastHandle + 1) → Effect device event after
  | loads {event : Exchange} {after : Device} {kernel : Kernel} :
      Loads device kernel after → event.request = .compile kernel →
      event.issued? = some (device.lastHandle + 1) → Effect device event after
  | releases (handle : Nat) :
      Effect device ⟨.release handle, .ok .done⟩ (device.release handle)
  | releasesProgram (handle : Nat) :
      Effect device ⟨.releaseProgram handle, .ok .done⟩ (device.releaseProgram handle)

theorem size_of_zeroed {device : Device} {purpose : Purpose} {elem : Elem} {length : Nat}
    {cells : Cells} (h : device.zeroed purpose elem length = .ok cells) : cells.size = length := by
  unfold zeroed at h
  split at h
  · cases h
  · cases h
    simp

theorem extent?_allocated (device : Device) (elem : Elem) (cells : Cells) (handle : Nat) :
    (device.allocated elem cells).extent? handle =
      if handle = device.lastHandle + 1 then some (elem, cells.size) else device.extent? handle := by
  unfold extent? cells?
  simp only [allocated, HandleTable.get?_set]
  split <;> rfl

theorem extent?_allocatedShared (device : Device) (elem : Elem) (cells : Cells) (handle : Nat) :
    (device.allocatedShared elem cells).extent? handle =
      if handle = device.lastHandle + 1 then some (elem, cells.size) else device.extent? handle := by
  unfold extent? cells?
  simp only [allocatedShared, HandleTable.get?_set]
  split <;> rfl

theorem extent?_release (device : Device) (handle other : Nat) :
    (device.release handle).extent? other =
      if other = handle then none else device.extent? other := by
  unfold release
  split
  · unfold extent? cells?
    simp only [HandleTable.get?_erase]
    split <;> rfl
  · next habsent =>
    split
    · next hsame =>
      have hnone : device.buffers.get? handle = none :=
        HandleTable.get?_eq_none_iff.mpr fun hmem => habsent (HandleTable.contains_iff.mpr hmem)
      simp [hsame, extent?, hnone]
    · rfl

theorem keys_release (device : Device) (handle : Nat) :
    (device.release handle).buffers.keys = device.buffers.keys.filter (· ≠ handle) := by
  unfold release
  split
  · exact HandleTable.keys_erase _ _
  · next habsent =>
    refine (List.filter_eq_self.mpr fun other hmem => ?_).symm
    rw [HandleTable.contains_iff] at habsent
    exact decide_eq_true fun hsame => habsent (hsame ▸ hmem)

theorem lastHandle_release (device : Device) (handle : Nat) :
    (device.release handle).lastHandle = device.lastHandle := by
  unfold release
  split <;> rfl

theorem programs_release (device : Device) (handle : Nat) :
    (device.release handle).programs = device.programs := by
  unfold release
  split <;> rfl

theorem changes_hostWrite (device : Device) (handle : Nat) (values : Cells) :
    Changes (fun _ => True) device (device.hostWrite handle values) := by
  unfold hostWrite
  split
  · next cells hcells =>
    split
    · next hfits => exact changes_withShared hcells (size_overwrite hfits) trivial
    · exact .refl device
  · exact .refl device

/-- Work that writes elements at most, and a reply that is no handle. -/
theorem Effect.of_changes {α : Type} {device : Device} {work : DeviceM α} {reply : α → Reply}
    {request : Request} (h : Changes (fun _ => True) device (exec work device).2)
    (hreply : ∀ a handle, reply a ≠ .handle handle) (hkeep : ∀ handle, request ≠ .release handle)
    (hkeepProgram : ∀ handle, request ≠ .releaseProgram handle) :
    Effect device ⟨request, (exec (work >>= fun a => pure (reply a)) device).1⟩
      (exec (work >>= fun a => pure (reply a)) device).2 := by
  rw [exec_bind]
  rcases hexec : exec work device with ⟨stop | a, after⟩ <;> rw [hexec] at h
  · exact .quiet h rfl hkeep hkeepProgram
  · refine .quiet h ?_ hkeep hkeepProgram
    dsimp only [exec_pure]
    cases hvalue : reply a with
    | handle handle => exact absurd hvalue (hreply a handle)
    | cells cells => rfl
    | done => rfl

theorem serve_effect (request : Request) (device : Device) :
    Effect device ⟨request, (exec (serve request) device).1⟩ (exec (serve request) device).2 := by
  cases request with
  | compile kernel =>
    simp only [serve, exec_bind, exec_compile]
    rcases device.failCompile with _ | ⟨_ | skip, reason⟩
    · exact .loads ⟨rfl, rfl, rfl, fun _ => rfl, rfl, rfl⟩ rfl rfl
    · exact .quiet (.of_memory rfl rfl rfl rfl rfl rfl) rfl (by simp) (by simp)
    · exact .loads ⟨rfl, rfl, rfl, fun _ => rfl, rfl, rfl⟩ rfl rfl
  | launch program grid bindings =>
    exact .of_changes ((changes_launch device program grid bindings).mono fun _ _ => trivial)
      (by simp) (by simp) (by simp)
  | alloc elem length =>
    simp only [serve, exec_bind, exec_alloc]
    cases hcells : device.zeroed .buffer elem length with
    | error stop => exact .quiet (.refl device) rfl (by simp) (by simp)
    | ok cells =>
      have hextents := extent?_allocated device elem cells
      rw [size_of_zeroed hcells] at hextents
      exact .gains ⟨rfl, rfl, ⟨_, rfl⟩, hextents, rfl, rfl⟩ rfl rfl
  | allocShared elem length =>
    simp only [serve, exec_bind, exec_allocShared, Profile.simulated, if_true]
    cases hcells : device.zeroed .buffer elem length with
    | error stop => exact .quiet (.refl device) rfl (by simp) (by simp)
    | ok cells =>
      have hextents := extent?_allocatedShared device elem cells
      rw [size_of_zeroed hcells] at hextents
      exact .gains ⟨rfl, rfl, ⟨_, rfl⟩, hextents, rfl, rfl⟩ rfl rfl
  | copyIn handle values =>
    exact .of_changes ((changes_copyIn trivial values).state (.refl device))
      (by simp) (by simp) (by simp)
  | copyOut handle length =>
    exact .of_changes ((changes_copyOut handle length).state (.refl device))
      (by simp) (by simp) (by simp)
  | release handle => exact .releases handle
  | releaseProgram handle => exact .releasesProgram handle
  | failCompile skip reason =>
    exact .quiet (.of_memory rfl rfl rfl rfl rfl rfl) rfl (by simp) (by simp)
  | failLaunch reason =>
    exact .quiet (.of_memory rfl rfl rfl rfl rfl rfl) rfl (by simp) (by simp)
  | hostWrite handle values =>
    exact .quiet (changes_hostWrite device handle values) rfl (by simp) (by simp)

/-- A request takes one handle at most. -/
theorem Effect.lastHandle_le {device after : Device} {event : Exchange}
    (h : Effect device event after) : after.lastHandle ≤ device.lastHandle + 1 := by
  cases h with
  | quiet changes => exact changes.lastHandle ▸ Nat.le_succ _
  | gains gains => exact gains.lastHandle.le
  | loads loads => exact loads.lastHandle.le
  | releases handle => exact lastHandle_release device handle ▸ Nat.le_succ _
  | releasesProgram => exact Nat.le_succ _

/-! ## What the events say -/

/-- The device holds what the events say. -/
structure Recorded (events : List Exchange) (device : Device) : Prop where
  issued : (events.filterMap Exchange.issued?).Pairwise (· < ·)
  bounded : ∀ handle ∈ events.filterMap Exchange.issued?, handle ≤ device.lastHandle
  buffers : ∀ handle extent, Allocated events handle extent ↔ device.extent? handle = some extent
  readable : ∀ handle ∈ device.buffers.keys, ∃ extent, device.extent? handle = some extent
  programs : ∀ handle kernel,
    Compiled events handle kernel ↔ device.programs.get? handle = some kernel
  nodup : device.buffers.keys.Nodup
  accounts : device.counters.allocations = device.counters.releases + device.buffers.length

namespace Recorded

variable {events : List Exchange} {event : Exchange} {device after : Device}

theorem start (scarce : List Demand) (trapping : Bool) : Recorded [] { scarce, trapping } where
  issued := .nil
  bounded := nofun
  buffers handle extent := by
    refine ⟨fun h => ?_, nofun⟩
    obtain ⟨event, hmem, -⟩ := h.exists_mem
    cases hmem
  readable := nofun
  programs handle kernel := by
    refine ⟨fun h => ?_, nofun⟩
    obtain ⟨event, hmem, -⟩ := h.exists_mem
    cases hmem
  nodup := .nil
  accounts := rfl

/-- A handle that is still to be given out. -/
theorem not_allocated (h : Recorded events device) {extent : Elem × Nat} :
    ¬ Allocated events (device.lastHandle + 1) extent := fun hallocated =>
  absurd (h.bounded _ hallocated.issued) (by omega)

theorem not_compiled (h : Recorded events device) {kernel : Kernel} :
    ¬ Compiled events (device.lastHandle + 1) kernel := fun hcompiled =>
  absurd (h.bounded _ hcompiled.issued) (by omega)

theorem not_live (h : Recorded events device) : device.lastHandle + 1 ∉ device.buffers.keys := by
  intro hmem
  obtain ⟨extent, hextent⟩ := h.readable _ hmem
  exact h.not_allocated ((h.buffers _ _).mpr hextent)

/-- The handles given out when no new one is, and when the next one is. -/
theorem issued_next (h : Recorded events device)
    (hnext : event.issued? = none ∧ after.lastHandle = device.lastHandle ∨
      event.issued? = some (device.lastHandle + 1) ∧ after.lastHandle = device.lastHandle + 1) :
    ((events ++ [event]).filterMap Exchange.issued?).Pairwise (· < ·) ∧
      ∀ handle ∈ (events ++ [event]).filterMap Exchange.issued?, handle ≤ after.lastHandle := by
  rw [List.filterMap_append]
  rcases hnext with ⟨hnone, hlast⟩ | ⟨hsome, hlast⟩
  · simp only [List.filterMap_cons, hnone, List.filterMap_nil, List.append_nil, hlast]
    exact ⟨h.issued, h.bounded⟩
  · simp only [List.filterMap_cons, hsome, List.filterMap_nil, hlast]
    refine ⟨List.pairwise_append.mpr ⟨h.issued, List.pairwise_singleton _ _, ?_⟩, ?_⟩
    · intro handle hmem new hnew
      rw [List.mem_singleton.mp hnew]
      exact Nat.lt_succ_of_le (h.bounded handle hmem)
    · rw [List.forall_mem_append]
      exact ⟨fun handle hmem => Nat.le_succ_of_le (h.bounded handle hmem), by simp⟩

theorem next_quiet (h : Recorded events device) (changes : Changes (fun _ => True) device after)
    (hissued : event.issued? = none) (hkeep : ∀ handle, event.request ≠ .release handle)
    (hkeepProgram : ∀ handle, event.request ≠ .releaseProgram handle) :
    Recorded (events ++ [event]) after := by
  obtain ⟨hpairwise, hbounded⟩ := h.issued_next (.inl ⟨hissued, changes.lastHandle⟩)
  refine ⟨hpairwise, hbounded, fun handle extent => ?_, ?_, fun handle kernel => ?_, ?_, ?_⟩
  · rw [allocated_next, changes.extents, ← h.buffers]
    simp [hissued, hkeep]
  · rw [changes.live]
    simpa only [changes.extents] using h.readable
  · rw [compiled_next, changes.programs, ← h.programs]
    simp [hissued, hkeepProgram]
  · rw [changes.live]
    exact h.nodup
  · rw [changes.allocations, changes.releases, ← HandleTable.length_keys, changes.live,
      HandleTable.length_keys]
    exact h.accounts

theorem next_gains {extent : Elem × Nat} (h : Recorded events device)
    (gains : Gains device extent after) (hextent : event.request.extent? = some extent)
    (hissued : event.issued? = some (device.lastHandle + 1)) :
    Recorded (events ++ [event]) after := by
  obtain ⟨hpairwise, hbounded⟩ := h.issued_next (.inr ⟨hissued, gains.lastHandle⟩)
  have hkeys : after.buffers.keys = device.buffers.keys ++ [device.lastHandle + 1] := by
    obtain ⟨buffer, hbuffers⟩ := gains.buffers
    rw [hbuffers, HandleTable.keys_set_of_not_mem _ h.not_live]
  have hrequest : ∀ request : Request, request.extent? = none → event.request ≠ request := by
    rintro _ hnone rfl
    exact absurd (hnone.symm.trans hextent) (by simp)
  refine ⟨hpairwise, hbounded, fun handle found => ?_, ?_, fun handle kernel => ?_, ?_, ?_⟩
  · rw [allocated_next, gains.extents, hissued, hextent]
    split
    · next hfresh => simp [hfresh, h.not_allocated]
    · next hne => simp [hrequest (.release handle) rfl, h.buffers, Ne.symm hne]
  · rw [hkeys, List.forall_mem_append]
    refine ⟨fun handle hmem => ?_, fun handle hmem => ⟨extent, ?_⟩⟩
    · rw [gains.extents]
      split
      · exact ⟨extent, rfl⟩
      · exact h.readable handle hmem
    · rw [gains.extents, if_pos (List.mem_singleton.mp hmem)]
  · rw [compiled_next, gains.programs, ← h.programs]
    simp [hrequest (.releaseProgram handle) rfl, hrequest (.compile kernel) rfl]
  · rw [hkeys]
    refine List.nodup_append.mpr ⟨h.nodup, by simp, ?_⟩
    rintro handle hmem other hother rfl
    exact h.not_live (List.mem_singleton.mp hother ▸ hmem)
  · rw [gains.allocations, gains.releases, ← HandleTable.length_keys, hkeys, List.length_append,
      HandleTable.length_keys, h.accounts]
    rfl

theorem next_loads {kernel : Kernel} (h : Recorded events device)
    (loads : Loads device kernel after) (hrequest : event.request = .compile kernel)
    (hissued : event.issued? = some (device.lastHandle + 1)) :
    Recorded (events ++ [event]) after := by
  obtain ⟨hpairwise, hbounded⟩ := h.issued_next (.inr ⟨hissued, loads.lastHandle⟩)
  refine ⟨hpairwise, hbounded, fun handle found => ?_, ?_, fun handle found => ?_, ?_, ?_⟩
  · rw [allocated_next, loads.extents, hrequest, ← h.buffers]
    simp [Request.extent?]
  · rw [loads.buffers]
    simpa only [loads.extents] using h.readable
  · rw [compiled_next, loads.programs, HandleTable.get?_set, hissued, hrequest]
    split
    · next hfresh => simp [hfresh, h.not_compiled]
    · next hne => simp [h.programs, Ne.symm hne]
  · rw [loads.buffers]
    exact h.nodup
  · rw [loads.allocations, loads.releases, loads.buffers]
    exact h.accounts

theorem next_release (h : Recorded events device) (handle : Nat) :
    Recorded (events ++ [⟨.release handle, .ok .done⟩]) (device.release handle) := by
  have hnone : (⟨.release handle, .ok .done⟩ : Exchange).issued? = none := rfl
  obtain ⟨hpairwise, hbounded⟩ := h.issued_next (.inl ⟨hnone, lastHandle_release device handle⟩)
  refine ⟨hpairwise, hbounded, fun other extent => ?_, ?_, fun other kernel => ?_, ?_, ?_⟩
  · rw [allocated_next, extent?_release]
    split
    · next hsame => simp [hsame, Exchange.issued?]
    · next hne => simp [Exchange.issued?, h.buffers, Ne.symm hne]
  · intro other hmem
    rw [keys_release, List.mem_filter] at hmem
    rw [extent?_release, if_neg (by simpa using hmem.2)]
    exact h.readable other hmem.1
  · rw [compiled_next, programs_release, ← h.programs]
    simp
  · rw [keys_release]
    exact h.nodup.filter _
  · unfold release
    split
    · next hlive =>
      have hlength := HandleTable.length_erase h.nodup (HandleTable.contains_iff.mp hlive)
      have haccounts := h.accounts
      dsimp only
      omega
    · exact h.accounts

theorem next_releaseProgram (h : Recorded events device) (handle : Nat) :
    Recorded (events ++ [⟨.releaseProgram handle, .ok .done⟩]) (device.releaseProgram handle) := by
  have hnone : (⟨.releaseProgram handle, .ok .done⟩ : Exchange).issued? = none := rfl
  have hlast : (device.releaseProgram handle).lastHandle = device.lastHandle := rfl
  obtain ⟨hpairwise, hbounded⟩ := h.issued_next (.inl ⟨hnone, hlast⟩)
  refine ⟨hpairwise, hbounded, fun other extent => ?_, h.readable, fun other kernel => ?_, h.nodup,
    h.accounts⟩
  · rw [allocated_next, show (device.releaseProgram handle).extent? other = device.extent? other
      from rfl, ← h.buffers]
    simp [Exchange.issued?]
  · rw [compiled_next, releaseProgram, HandleTable.get?_erase]
    split
    · next hsame => simp [hsame]
    · next hne => simp [h.programs, Ne.symm hne]

/-- Every request keeps the books right. -/
theorem next (h : Recorded events device) (effect : Effect device event after) :
    Recorded (events ++ [event]) after := by
  cases effect with
  | quiet changes hissued hkeep hkeepProgram => exact h.next_quiet changes hissued hkeep hkeepProgram
  | gains gains hextent hissued => exact h.next_gains gains hextent hissued
  | loads loads hrequest hissued => exact h.next_loads loads hrequest hissued
  | releases handle => exact h.next_release handle
  | releasesProgram handle => exact h.next_releaseProgram handle

end Recorded

section
variable (scarce : List Demand) (trapping : Bool)

theorem record_append (requests : List Request) (request : Request) :
    record scarce trapping (requests ++ [request]) =
      recordNext (record scarce trapping requests) request := by
  simp [record]

/-- After every history the device holds what its events say. -/
theorem recorded (requests : List Request) :
    Recorded (record scarce trapping requests).1 (record scarce trapping requests).2 := by
  induction requests using List.reverseRecOn with
  | nil => exact .start scarce trapping
  | append_singleton requests request ih =>
    rw [record_append]
    exact ih.next (serve_effect request _)

theorem lastHandle_record_le (requests : List Request) :
    (record scarce trapping requests).2.lastHandle ≤ requests.length := by
  induction requests using List.reverseRecOn with
  | nil => exact Nat.le_refl _
  | append_singleton requests request ih =>
    rw [record_append, List.length_append]
    exact (serve_effect request _).lastHandle_le.trans (Nat.succ_le_succ ih)

/-- A history takes no more handles than it has requests. -/
theorem issued_le (requests : List Request) :
    ∀ handle ∈ (record scarce trapping requests).1.filterMap Exchange.issued?,
      handle ≤ requests.length := fun handle hissued =>
  ((recorded scarce trapping requests).bounded handle hissued).trans
    (lastHandle_record_le scarce trapping requests)

end

/-! ## Handles that are not live -/

section
variable {device : Device} {handle : Nat}

theorem exec_copyIn_of_not_live (h : device.buffers.get? handle = none) (values : Cells) :
    exec (copyIn handle values) device = (.error (.error (.invalidHandle handle)), device) := by
  simp only [copyIn, transferTarget, exec_bind, exec_get, h]
  rfl

theorem exec_copyOut_of_not_live (h : device.buffers.get? handle = none) (length : Nat) :
    exec (copyOut handle length) device = (.error (.error (.invalidHandle handle)), device) := by
  simp only [copyOut, transferTarget, exec_bind, exec_get, h]
  rfl

theorem release_of_not_live (h : device.buffers.get? handle = none) :
    device.release handle = device := by
  rw [release, if_neg]
  rw [HandleTable.contains_iff]
  exact HandleTable.get?_eq_none_iff.mp h

/-- The check of the bindings ends at the first buffer that is not live. -/
theorem exec_checkBindings_of_not_live {kernel : Kernel} {passed rest : List (KernelParam × Nat)}
    {param : KernelParam}
    (hpassed : ∀ slot ∈ passed, ∃ buffer, device.buffers.get? slot.2 = some buffer ∧
      buffer.elem = slot.1.elem) (h : device.buffers.get? handle = none) :
    exec (checkBindings kernel (passed ++ (param, handle) :: rest)) device =
      (.error (.error (.invalidHandle handle)), device) := by
  induction passed with
  | nil =>
    simp only [List.nil_append, checkBindings, exec_bind, exec_get, h]
    rfl
  | cons slot passed ih =>
    obtain ⟨buffer, hbuffer, helem⟩ := hpassed slot (by simp)
    simp only [List.cons_append, checkBindings, exec_bind, exec_get, hbuffer, if_pos helem]
    exact ih fun other hother => hpassed other (by simp [hother])

/-- Nothing is planned to stop the launch. -/
theorem exec_launch_unplanned (h : device.failLaunch = none) (program : Nat) (grid : Shape)
    (bindings : List Nat) :
    exec (launch program grid bindings) device =
      match device.programs.get? program with
      | none => (.error (.error (.invalidHandle program)), device)
      | some kernel =>
        if grid.length = kernel.rank then
          match device.points grid with
          | .error stop => (.error stop, device)
          | .ok size =>
            exec (do
              run kernel bindings size
              count fun c => { c with launches := c.launches + 1 }) device
        else exec (launchError kernel
          s!"rank-{grid.length} grid for rank-{kernel.rank} kernel") device := by
  have hsame : { device with failLaunch := none } = device := by
    rw [← h]
  simp only [launch, takeLaunchFailure, exec_bind, exec_get, h, exec_modify, exec_pure, hsame]
  cases device.programs.get? program with
  | none => rfl
  | some kernel =>
    dsimp only
    split
    · simp only [exec_bind, exec_get, exec_ofExcept]
      cases device.points grid <;> rfl
    · rfl

/-- A launch comes to the check of a bound buffer: it is not made to fail, its grid and its bindings
fit its program, the points of the grid can be counted, and the buffers bound before are live and have
the right types. -/
def Reaches (device : Device) (program : Nat) (grid : Shape) (bindings : List Nat) (handle : Nat) :
    Prop :=
  device.failLaunch = none ∧ ∃ kernel size passed param rest,
    device.programs.get? program = some kernel ∧ grid.length = kernel.rank ∧
      device.points grid = .ok size ∧ bindings.length = kernel.params.length ∧
      kernel.params.zip bindings = passed ++ (param, handle) :: rest ∧
      ∀ slot ∈ passed, ∃ buffer, device.buffers.get? slot.2 = some buffer ∧
        buffer.elem = slot.1.elem

theorem exec_launch_of_not_live {program : Nat} {grid : Shape} {bindings : List Nat}
    (hreaches : device.Reaches program grid bindings handle)
    (h : device.buffers.get? handle = none) :
    exec (launch program grid bindings) device =
      (.error (.error (.invalidHandle handle)), device) := by
  obtain ⟨hplanned, kernel, size, passed, param, rest, hprogram, hrank, hsize, hlength, hzip,
    hpassed⟩ := hreaches
  rw [exec_launch_unplanned hplanned, hprogram]
  simp only [if_pos hrank, hsize, run, if_pos hlength, exec_bind, hzip,
    exec_checkBindings_of_not_live hpassed h]

end

/-! ## Histories without faults -/

section
variable (scarce : List Demand) (trapping : Bool)

/-- Kernels have their slots and operands. The points of a grid are counted without an overflow on the
way, and there is memory for a value at each of them. -/
def Request.WellFormed : Request → Prop
  | .compile kernel => ∀ op ∈ kernel.body, kernel.Slotted op
  | .launch _ grid _ => ∃ size, grid.count? = some size ∧ refusal? size = none
  | _ => True

theorem requests_record (requests : List Request) :
    (record scarce trapping requests).1.map Exchange.request = requests := by
  induction requests using List.reverseRecOn with
  | nil => rfl
  | append_singleton requests request ih =>
    rw [record_append]
    show ((record scarce trapping requests).1 ++ [_]).map Exchange.request = _
    rw [List.map_append, ih]
    rfl

theorem Recorded.readable_of {events : List Exchange} {device : Device}
    (h : Recorded events device) (handle : Nat) : device.Readable handle := by
  intro elem hshared
  obtain ⟨extent, hextent⟩ := h.readable handle (HandleTable.mem_keys_iff.mpr ⟨_, hshared⟩)
  rw [extent?, hshared, Option.bind_some] at hextent
  obtain ⟨cells, hcells, -⟩ := Option.map_eq_some_iff.mp hextent
  rw [cells?, hshared] at hcells
  exact ⟨cells, hcells⟩

theorem ne_fault_of_safe {α : Type} {device : Device} {work : DeviceM α} {post : α → Prop}
    (h : Safe device work post) (reply : α → Reply) :
    (exec (work >>= fun a => pure (reply a)) device).1 ≠ .error .fault := by
  rw [exec_bind]
  rcases hexec : exec work device with ⟨stop | a, after⟩
  · have hstop := (h.of_error (.refl device) hexec).1
    simpa using hstop
  · simp

/-- A device whose programs have their slots does not fault in a well-formed request. -/
theorem serve_ne_fault {events : List Exchange} {device : Device} (h : Recorded events device)
    (hprograms : ∀ handle kernel, device.programs.get? handle = some kernel →
      ∀ op ∈ kernel.body, kernel.Slotted op) {request : Request} (hwell : request.WellFormed) :
    (exec (serve request) device).1 ≠ .error .fault := by
  cases request with
  | compile kernel =>
    simp only [serve, exec_bind, exec_compile]
    rcases device.failCompile with _ | ⟨_ | skip, reason⟩ <;> rintro ⟨⟩
  | launch program grid bindings =>
    obtain ⟨size, hcount, -⟩ := hwell
    exact ne_fault_of_safe (safe_launch (hprograms program) (fun handle _ => h.readable_of handle)
      hcount) fun _ => .done
  | alloc elem length =>
    simp only [serve, exec_bind, exec_alloc]
    cases hcells : device.zeroed .buffer elem length with
    | error stop => simpa [hcells] using zeroed_ne_fault device .buffer elem length
    | ok cells => rintro ⟨⟩
  | allocShared elem length =>
    simp only [serve, exec_bind, exec_allocShared, Profile.simulated, if_true]
    cases hcells : device.zeroed .buffer elem length with
    | error stop => simpa [hcells] using zeroed_ne_fault device .buffer elem length
    | ok cells => rintro ⟨⟩
  | copyIn handle values => exact ne_fault_of_safe (safe_copyIn device handle values) fun _ => .done
  | copyOut handle length => exact ne_fault_of_safe (safe_copyOut device handle length) .cells
  | release | releaseProgram | failCompile | failLaunch | hostWrite => rintro ⟨⟩

/-- No request of a well-formed history faults. -/
theorem record_ne_fault (requests : List Request)
    (h : ∀ request ∈ requests, request.WellFormed) :
    ∀ event ∈ (record scarce trapping requests).1, event.outcome ≠ .error .fault := by
  induction requests using List.reverseRecOn with
  | nil => exact nofun
  | append_singleton requests request ih =>
    rw [List.forall_mem_append] at h
    have hprograms : ∀ handle kernel,
        (record scarce trapping requests).2.programs.get? handle = some kernel →
        ∀ op ∈ kernel.body, kernel.Slotted op := by
      intro handle kernel hkernel
      obtain ⟨event, hmem, -, hrequest⟩ :=
        (((recorded scarce trapping requests).programs handle kernel).mpr hkernel).exists_mem
      have hevent : event.request ∈ requests := by
        rw [← requests_record scarce trapping requests]
        exact List.mem_map_of_mem hmem
      have hwell := h.1 _ hevent
      rwa [hrequest] at hwell
    rw [record_append]
    refine List.forall_mem_append.mpr ⟨ih h.1, fun event hevent => ?_⟩
    obtain rfl := List.mem_singleton.mp hevent
    exact serve_ne_fault (recorded scarce trapping requests) hprograms (h.2 request (by simp))

end

/-! ## Every history -/

/-- What holds after a history of requests. -/
structure Consistent (events : List Exchange) (device : Device) : Prop where
  /-- Handles of buffers and programs together are given out in order, each of them once. -/
  issued : (events.filterMap Exchange.issued?).Pairwise (· < ·)
  /-- A buffer is live from its allocation to its release. -/
  live : ∀ handle, handle ∈ device.buffers.keys ↔ ∃ extent, Allocated events handle extent
  /-- A live buffer has the element type and the length of its allocation. -/
  extents : ∀ handle extent, Allocated events handle extent ↔ device.extent? handle = some extent
  programs : ∀ handle kernel,
    Compiled events handle kernel ↔ device.programs.get? handle = some kernel
  accounts : device.counters.allocations = device.counters.releases + device.buffers.keys.length
  nodup : device.buffers.keys.Nodup
  release : ∀ handle, (¬ ∃ extent, Allocated events handle extent) → device.release handle = device
  copyIn : ∀ handle values, (¬ ∃ extent, Allocated events handle extent) →
    exec (copyIn handle values) device = (.error (.error (.invalidHandle handle)), device)
  copyOut : ∀ handle length, (¬ ∃ extent, Allocated events handle extent) →
    exec (copyOut handle length) device = (.error (.error (.invalidHandle handle)), device)
  launchProgram : ∀ program grid bindings, device.failLaunch = none →
    (¬ ∃ kernel, Compiled events program kernel) →
    exec (launch program grid bindings) device =
      (.error (.error (.invalidHandle program)), device)
  launchBinding : ∀ program grid bindings handle, device.Reaches program grid bindings handle →
    (¬ ∃ extent, Allocated events handle extent) →
    exec (launch program grid bindings) device = (.error (.error (.invalidHandle handle)), device)
  /-- A launch writes the buffers bound to its targets, whether it succeeds or not. -/
  launchWrites : ∀ program grid bindings, Changes (device.Targets program bindings) device
    (exec (launch program grid bindings) device).2

theorem Recorded.consistent {events : List Exchange} {device : Device}
    (h : Recorded events device) : Consistent events device := by
  have hlive : ∀ handle, handle ∈ device.buffers.keys ↔ ∃ extent, Allocated events handle extent := by
    intro handle
    simp only [h.buffers]
    refine ⟨h.readable handle, fun ⟨extent, hextent⟩ => ?_⟩
    obtain ⟨buffer, hbuffer, -⟩ := Option.bind_eq_some_iff.mp hextent
    exact HandleTable.mem_keys_iff.mpr ⟨buffer, hbuffer⟩
  have hnone : ∀ handle, (¬ ∃ extent, Allocated events handle extent) →
      device.buffers.get? handle = none := fun handle hfreed =>
    HandleTable.get?_eq_none_iff.mpr fun hmem => hfreed ((hlive handle).mp hmem)
  exact
    { issued := h.issued
      live := hlive
      extents := h.buffers
      programs := h.programs
      accounts := by
        rw [HandleTable.length_keys]
        exact h.accounts
      nodup := h.nodup
      release := fun handle hfreed => release_of_not_live (hnone handle hfreed)
      copyIn := fun handle values hfreed => exec_copyIn_of_not_live (hnone handle hfreed) values
      copyOut := fun handle length hfreed => exec_copyOut_of_not_live (hnone handle hfreed) length
      launchProgram := fun program grid bindings hplanned hfreed => by
        have hprogram : device.programs.get? program = none :=
          Option.eq_none_iff_forall_ne_some.mpr fun kernel hkernel =>
            hfreed ⟨kernel, (h.programs program kernel).mpr hkernel⟩
        rw [exec_launch_unplanned hplanned, hprogram]
      launchBinding := fun program grid bindings handle hreaches hfreed =>
        exec_launch_of_not_live hreaches (hnone handle hfreed)
      launchWrites := changes_launch device }

/-- After every history, handles, counters and buffers agree with its events, wherever memory runs out
and whether products beyond the words trap or wrap. Handles are words for as many requests as a word
can count. No request of the history faults, if its kernels and grids are well formed. -/
theorem record_consistent (scarce : List Demand) (trapping : Bool) (requests : List Request)
    (few : requests.length < Shape.wordLimit) :
    Consistent (record scarce trapping requests).1 (record scarce trapping requests).2 ∧
      (∀ handle ∈ (record scarce trapping requests).1.filterMap Exchange.issued?,
        handle < Shape.wordLimit) ∧
      ((∀ request ∈ requests, request.WellFormed) →
        ∀ event ∈ (record scarce trapping requests).1, event.outcome ≠ .error .fault) :=
  ⟨(recorded scarce trapping requests).consistent,
    fun handle hissued => (issued_le scarce trapping requests handle hissued).trans_lt few,
    record_ne_fault scarce trapping requests⟩

end Device

end ArrayOffload

namespace ArrayOffload.Sample

/-- Adds its second array to its first. -/
def accumulate : Kernel :=
  ⟨"accumulate", 0, 1, [⟨0, .f64, .readWrite⟩, ⟨1, .f64, .read⟩],
    [.map 0 .add [.slot 0, .slot 1]]⟩

/-- A launch between releases, some of them of nothing, and a buffer for which no memory is left. -/
def session : List Device.Request :=
  [.alloc .f64 2, .release 2, .allocShared .f64 2, .compile accumulate, .alloc .f64 5,
    .launch 3 [2] [1, 2], .release 1, .release 1, .launch 3 [2] [2, 1], .releaseProgram 3,
    .launch 3 [2] [2, 2]]

/-- The session with a device that traps. -/
def sessionRecord : List Device.Exchange × Device :=
  Device.record [⟨.buffer, 3, 5⟩] true session

end ArrayOffload.Sample

namespace ArrayOffload.Device

theorem record_consistent_session :
    (∀ request ∈ Sample.session, request.WellFormed) ∧
      Sample.sessionRecord.1.filterMap Exchange.issued? = [1, 2, 3] ∧
      Sample.sessionRecord.2.counters = ⟨1, 1, 0, 0, 2, 1⟩ ∧
      Consistent Sample.sessionRecord.1 Sample.sessionRecord.2 ∧
      ∀ event ∈ Sample.sessionRecord.1, event.outcome ≠ .error .fault := by
  have hslotted : ∀ op ∈ Sample.accumulate.body, Sample.accumulate.Slotted op := by
    intro op hop
    obtain rfl := List.mem_singleton.mp hop
    refine ⟨by decide, rfl, fun slot hslot => ?_⟩
    have hargs : slot = 0 ∨ slot = 1 := by simpa using hslot
    show slot < 2
    omega
  have hgrid : ∃ size, Shape.count? [2] = some size ∧ refusal? size = none :=
    ⟨2, by decide, by decide⟩
  have hwell : ∀ request ∈ Sample.session, request.WellFormed := by
    simp only [Sample.session, List.forall_mem_cons]
    exact ⟨trivial, trivial, trivial, hslotted, trivial, hgrid, trivial, trivial, hgrid, trivial, hgrid,
      nofun⟩
  obtain ⟨hconsistent, -, hfaults⟩ :=
    record_consistent [⟨.buffer, 3, 5⟩] true Sample.session (by decide)
  exact ⟨hwell, by decide +kernel, by decide +kernel, hconsistent, hfaults hwell⟩

end ArrayOffload.Device
