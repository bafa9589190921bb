import ArrayOffload.Proofs.Counting
import ArrayOffload.Proofs.Lowered
import ArrayOffload.Proofs.Opening

/-!
# What stays on the device

Callers make arrays, then functions are compiled, then the units run. Nothing that happens in
between touches what is already there, since every new thing gets a new handle.

* `Device.Preserved`: what was given out before is still there;
* `ArrayValue.live_ofCells?`, `ArrayValue.share_ok`: new arrays exist, and the others stay;
* `Lowering.run_preserves`: compilation leaves arrays and programs alone.
-/

namespace ArrayOffload

namespace Device

/-- What had a handle before is still behind it. -/
structure Preserved (before after : Device) : Prop where
  lastHandle : before.lastHandle ≤ after.lastHandle
  bounded : before.Bounded → after.Bounded
  buffers : ∀ handle ≤ before.lastHandle,
    after.buffers.get? handle = before.buffers.get? handle
  pool : ∀ handle ≤ before.lastHandle, after.pool.get? handle = before.pool.get? handle
  programs : ∀ handle ≤ before.lastHandle,
    after.programs.get? handle = before.programs.get? handle
  failLaunch : after.failLaunch = before.failLaunch
  scarce : after.scarce = before.scarce

namespace Preserved

variable {first second third : Device}

theorem refl (device : Device) : Preserved device device :=
  ⟨Nat.le_refl _, id, fun _ _ => rfl, fun _ _ => rfl, fun _ _ => rfl, rfl, rfl⟩

theorem trans (h : Preserved first second) (h' : Preserved second third) :
    Preserved first third where
  lastHandle := Nat.le_trans h.lastHandle h'.lastHandle
  bounded := fun bounded => h'.bounded (h.bounded bounded)
  buffers handle hle :=
    (h'.buffers handle (Nat.le_trans hle h.lastHandle)).trans (h.buffers handle hle)
  pool handle hle := (h'.pool handle (Nat.le_trans hle h.lastHandle)).trans (h.pool handle hle)
  programs handle hle :=
    (h'.programs handle (Nat.le_trans hle h.lastHandle)).trans (h.programs handle hle)
  failLaunch := h'.failLaunch.trans h.failLaunch
  scarce := h'.scarce.trans h.scarce

end Preserved

end Device

/-! ## Arrays -/

namespace ArrayValue

variable {before after : Device} {a : ArrayValue}

/-- An array that exists goes on existing. -/
theorem Live.preserved (live : a.Live before) (bounded : before.Bounded)
    (h : before.Preserved after) : a.Live after := by
  unfold Live at live ⊢
  cases hs : a.storage with
  | owned cells =>
    rw [hs] at live
    exact live
  | shared handle =>
    simp only [hs] at live ⊢
    have hle : handle ≤ before.lastHandle :=
      bounded handle (HandleTable.mem_keys_iff.mpr ⟨_, live.1⟩)
    rw [h.buffers handle hle, h.pool handle hle]
    exact live

/-- An array made from values exists on every device. -/
theorem live_ofCells? {elem : Elem} {shape : Shape} {cells : Cells}
    (h : ofCells? elem shape cells = some a) (device : Device) : a.Live device := by
  unfold ofCells? at h
  split at h
  · next hsize =>
    cases h
    exact ⟨by simp [hsize], elem.settled_map cells⟩
  · cases h

end ArrayValue

/-- A new entry under a new handle hides no other. -/
theorem HandleTable.get?_set_of_le {α : Type} (table : HandleTable α) {last handle : Nat}
    (hle : handle ≤ last) (value : α) :
    (table.set (last + 1) value).get? handle = table.get? handle := by
  rw [get?_set, if_neg (by omega)]

/-- Shared memory is new memory of the right length. -/
theorem Device.allocShared_ok {profile : Profile} {elem : Elem} {length handle : Nat}
    {device after : Device}
    (h : exec (allocShared profile elem length) device = (.ok handle, after)) :
    refusal? length = none ∧ handle = device.lastHandle + 1 ∧
      after.buffers.get? handle = some (.shared elem) ∧ device.Preserved after := by
  unfold allocShared at h
  split at h
  · simp only [exec_bind, exec_get, exec_ofExcept] at h
    rcases device.zeroed_cases .buffer elem length with ⟨reason, _, hzeroed⟩ | ⟨hfits, hzeroed⟩
    · simp only [hzeroed] at h
      cases h
    · simp only [hzeroed] at h
      cases h
      refine ⟨hfits, rfl, ?_, ?_⟩
      · rw [HandleTable.get?_set, if_pos rfl]
      · refine ⟨Nat.le_succ _, fun bounded key hkey => ?_, fun handle hle => ?_,
          fun handle hle => ?_, fun _ _ => rfl, rfl, rfl⟩
        · obtain ⟨buffer, hbuffer⟩ := HandleTable.mem_keys_iff.mp hkey
          change key ≤ device.lastHandle + 1
          by_cases hnew : key = device.lastHandle + 1
          · exact Nat.le_of_eq hnew
          · rw [HandleTable.get?_set, if_neg hnew] at hbuffer
            exact Nat.le_succ_of_le (bounded key (HandleTable.mem_keys_iff.mpr ⟨_, hbuffer⟩))
        · exact HandleTable.get?_set_of_le _ hle _
        · exact HandleTable.get?_set_of_le _ hle _
  · cases h

/-- A new shared array exists, and so do the arrays made before it. -/
theorem ArrayValue.share_ok {profile : Profile} {elem : Elem} {shape : Shape} {values : Cells}
    {device after : Device} {a : ArrayValue}
    (h : exec (share profile elem shape values) device = (.ok a, after)) :
    a.Live after ∧ refusal? a.shape.size = none ∧ device.Preserved after := by
  unfold share at h
  cases hcount : shape.count? with
  | none =>
    simp only [hcount] at h
    cases h
  | some length =>
    simp only [hcount] at h
    split at h
    · next hsize =>
      simp only [exec_bind_eq_ok] at h
      obtain ⟨handle, mid, halloc, _, _, hwrite, h⟩ := h
      cases hwrite
      cases h
      obtain ⟨hfits, hhandle, hbuffer, kept⟩ := Device.allocShared_ok halloc
      have hlength := Shape.size_of_count? hcount
      refine ⟨⟨hbuffer, values.map elem.coerce, ?_, ?_⟩, hlength ▸ hfits, ?_⟩
      · change (mid.pool.set handle _).get? handle = _
        rw [HandleTable.get?_set, if_pos rfl]
      · simp [hsize, hlength]
      · refine { kept with pool := fun other hle => ?_ }
        change (mid.pool.set handle _).get? other = _
        rw [hhandle, HandleTable.get?_set_of_le _ hle, kept.pool other hle]
    · cases h

/-! ## Programs -/

namespace Lowering

variable {profile : Profile} {f : Func} {key : UnitKey} {fingerprint : ContentHash}
  {before after : Machine} {unit : CompiledUnit}

theorem compileKernel_preserves {done : List CompiledKernel} {plan : LaunchPlan}
    {kernel : CompiledKernel}
    (h : exec (compileKernel profile done plan) before = (.ok kernel, after)) :
    before.device.Preserved after.device := by
  simp only [compileKernel, exec_bind, exec_get] at h
  split at h
  · next program device hcompile =>
    obtain ⟨⟨hprogram, hlast, hprograms⟩, hbuffers, hpool, hfail, hscarce⟩ :=
      Device.compile_ok hcompile
    cases h
    change before.device.Preserved device
    have hle : before.device.lastHandle ≤ device.lastHandle := by omega
    refine ⟨hle, fun bounded key hkey => ?_, fun _ _ => by rw [hbuffers], fun _ _ => by rw [hpool],
      fun handle hle => ?_, hfail, hscarce⟩
    · rw [hbuffers] at hkey
      exact Nat.le_trans (bounded key hkey) hle
    · rw [hprograms, hprogram]
      exact HandleTable.get?_set_of_le _ hle _
  · cases h

theorem compileAll_preserves {plans : List LaunchPlan} {done kernels : List CompiledKernel}
    (h : exec (compileAll profile done plans) before = (.ok kernels, after)) :
    before.device.Preserved after.device := by
  induction plans generalizing done before with
  | nil =>
    cases h
    exact .refl _
  | cons plan rest ih =>
    simp only [compileAll, exec_bind_eq_ok] at h
    obtain ⟨kernel, mid, hkernel, hrest⟩ := h
    exact (compileKernel_preserves hkernel).trans (ih hrest)

/-- Entries of the log leave the device alone. -/
theorem device_of_records {α : Type} {event : α → Event} {xs : List α}
    (h : exec (xs.forM fun x => MachineM.record (event x)) before = (.ok (), after)) :
    after.device = before.device := by
  induction xs generalizing before with
  | nil =>
    cases h
    rfl
  | cons x xs ih =>
    rw [exec_forM_cons, MachineM.record, exec_modify] at h
    have hrest := ih h
    exact hrest

/-- Compilation leaves the arrays and the programs of others alone. -/
theorem run_preserves (h : exec (run profile f key fingerprint) before = (.ok unit, after)) :
    before.device.Preserved after.device := by
  simp only [run, exec_bind_eq_ok, exec_ofExcept, Prod.mk.injEq] at h
  obtain ⟨outline, _, ⟨_, rfl⟩, _, logged, hlogged, kernels, compiled, hkernels, h⟩ := h
  have hcompiled := compileAll_preserves hkernels
  rw [device_of_records hlogged] at hcompiled
  split at h
  · cases h
  · cases h
    exact hcompiled

/-- The programs of a unit stay on the device while other units are compiled. -/
theorem Ready.preserved {kernels : List CompiledKernel} {first second : Device}
    (ready : Ready kernels first) (h : first.Preserved second) : Ready kernels second := by
  intro kernel hkernel
  obtain ⟨hle, hget⟩ := ready kernel hkernel
  exact ⟨Nat.le_trans hle h.lastHandle, (h.programs _ hle).trans hget⟩

end Lowering

/-! ## A program

Maps that a device can take, with a print and a host function between them. Two of the arguments
name the same shared memory. The array that is returned holds integers, so fractions are cut off on
the way into it. -/

namespace Sample

def blend : Func where
  name := "blend"
  arrays := [⟨"x", .f64, 1, .param, .param 0⟩, ⟨"y", .f64, 1, .param, .param 1⟩,
    ⟨"z", .f64, 1, .param, .param 2⟩, ⟨"t", .i32, 1, .like 0, .scratch⟩]
  params := [0, 1, 2]
  body := [.map 3 .add [.array 0, .array 1], .map 2 .mul [.array 3, .array 0], .print [1],
    .call "reset" [3] [0], .map 3 .sub [.array 0, .array 1]]
  returns := some 3
  serialOnly := false

theorem blend_built : blend.Built := by
  have arrays := (((Func.Building.empty "blend").param "x" .f64 1).param "y" .f64 1).param "z" .f64 1
  have maps := ((arrays.like "t" .i32 0).push (.map 3 .add [.array 0, .array 1])).push
    (.map 2 .mul [.array 3, .array 0])
  have body := ((maps.push (.print [1])).push (.call "reset" [3] [0])).push
    (.map 3 .sub [.array 0, .array 1])
  exact ⟨_, body.returns 3, rfl⟩

/-- A host function that sets the first element of its first output. -/
def table : HostTable := [("reset", fun _ => .ok ⟨[#[5.5]], []⟩)]

/-- The memory that two of the arguments share. -/
def shared : Except (Stop DeviceError) ArrayValue × Device :=
  exec (ArrayValue.share .simulated .f64 [2] #[3.0, 4.0]) {}

def machine : Machine where
  device := shared.2

def args : List ArrayValue :=
  [.vector .f64 #[1.5, 2.0], ⟨.f64, [2], .shared 1⟩, ⟨.f64, [2], .shared 1⟩]

def key (context : DeviceContext) : UnitKey where
  function := 7
  signature :=
    ⟨[⟨⟨.f64, 1⟩, .copied⟩, ⟨⟨.f64, 1⟩, .shared⟩, ⟨⟨.f64, 1⟩, .shared⟩], some ⟨.i32, 1⟩⟩
  context := context

theorem accepted (context : DeviceContext) :
    Signature.ofArgs blend args = .ok (key context).signature := rfl

theorem shared_eq : shared = (.ok ⟨.f64, [2], .shared 1⟩, machine.device) := rfl

theorem bounded : machine.device.Bounded :=
  (ArrayValue.share_ok shared_eq).2.2.bounded (by simp [Device.Bounded, HandleTable.keys])

theorem args_live : ∀ arg ∈ args, arg.Live machine.device ∧ refusal? arg.shape.size = none := by
  obtain ⟨live, fits, _⟩ := ArrayValue.share_ok shared_eq
  have hown : ArrayValue.ofCells? .f64 [2] #[1.5, 2.0] = some (.vector .f64 #[1.5, 2.0]) := rfl
  intro arg harg
  simp only [args, List.mem_cons, List.not_mem_nil, or_false] at harg
  rcases harg with rfl | rfl | rfl
  · exact ⟨ArrayValue.live_ofCells? hown _, rfl⟩
  · exact ⟨live, fits⟩
  · exact ⟨live, fits⟩

def lower (context : DeviceContext) (before : Machine) :
    Except (Stop OffloadError) CompiledUnit × Machine :=
  exec (Lowering.run .simulated blend (key context) .zero) before

/-- What evaluation says about a unit, said about the unit that lowering gives. -/
theorem lower_of_check (context : DeviceContext) (before : Machine)
    (check : CompiledUnit → Machine → Bool)
    (h : passes check (lower context before) = true) :
    ∃ unit lowered, lower context before = (.ok unit, lowered) ∧ check unit lowered = true :=
  exists_of_passes h

end Sample

end ArrayOffload
