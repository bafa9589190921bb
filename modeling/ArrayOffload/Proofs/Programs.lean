import ArrayOffload.Proofs.Persistence

/-!
# Programs of a lowering

Lowering compiles the kernels of a plan one after the other. Each new program goes to the end of the
device's table, under a handle of its own. If a kernel is rejected, the programs before it are given
back, and the table is what it was.

* `Device.Extends`: the table has some new programs at its end, and memory is as before;
* `Lowering.ensures_run`: the programs that a lowering leaves, for each way in which it can end;
* `Lowering.run_again`: a plan that was compiled once is compiled again into the same unit, apart
  from the handles.
-/

namespace ArrayOffload

namespace HandleTable

variable {α : Type}

theorem keys_append (left right : HandleTable α) :
    keys (left ++ right) = left.keys ++ right.keys := by
  simp [keys]

/-- Without the handles of its second part, a table is its first part. -/
theorem filter_append_of_nodup {left right : HandleTable α} (h : (keys (left ++ right)).Nodup) :
    (left ++ right).filter (fun entry => entry.1 ∉ right.keys) = left := by
  rw [keys_append, List.nodup_append] at h
  obtain ⟨_, _, apart⟩ := h
  rw [List.filter_append, List.filter_eq_self.mpr, List.filter_eq_nil_iff.mpr, List.append_nil]
  · intro entry hentry
    have hmem : entry.1 ∈ right.keys := List.mem_map_of_mem hentry
    simpa using hmem
  · intro entry hentry
    have hmem : entry.1 ∈ left.keys := List.mem_map_of_mem hentry
    simpa using fun hright => apart entry.1 hmem entry.1 hright rfl

theorem mem_keys_without {table : HandleTable α} {gone : List Nat} {key : Nat} :
    key ∈ keys (table.filter fun entry => entry.1 ∉ gone) ↔ key ∈ table.keys ∧ key ∉ gone := by
  simp only [keys, List.mem_map, List.mem_filter, decide_eq_true_eq]
  constructor
  · rintro ⟨entry, ⟨hentry, hout⟩, rfl⟩
    exact ⟨⟨entry, hentry, rfl⟩, hout⟩
  · rintro ⟨⟨entry, hentry, rfl⟩, hout⟩
    exact ⟨entry, ⟨hentry, hout⟩, rfl⟩

/-- What is found stays found while other handles are taken away. -/
theorem get?_without {table : HandleTable α} {gone : List Nat} {key : Nat} (h : key ∉ gone) :
    HandleTable.get? (table.filter fun entry => entry.1 ∉ gone) key = table.get? key := by
  induction table with
  | nil => rfl
  | cons entry rest ih =>
    rw [get?_cons, List.filter_cons]
    by_cases hkey : key = entry.1
    · rw [if_pos (by simpa [← hkey] using h), get?_cons, if_pos hkey, if_pos hkey]
    · rw [if_neg hkey]
      split
      · rw [get?_cons, if_neg hkey]
        exact ih
      · exact ih

end HandleTable

namespace Device

/-- Every program has a handle of its own, one that was given out. -/
structure Numbered (device : Device) : Prop where
  nodup : device.programs.keys.Nodup
  bounded : ∀ handle ∈ device.programs.keys, handle ≤ device.lastHandle

/-- The device has some more programs, and the memory that it had. -/
structure Extends (origin : Device) (new : HandleTable Kernel) (device : Device) : Prop where
  programs : device.programs = origin.programs ++ new
  numbered : device.Numbered
  lastHandle : origin.lastHandle ≤ device.lastHandle
  buffers : device.buffers = origin.buffers

theorem Extends.refl {device : Device} (h : device.Numbered) : Extends device [] device :=
  ⟨(List.append_nil _).symm, h, Nat.le_refl _, rfl⟩

/-- A planned failure is no program. -/
theorem Extends.failing {origin device : Device} {new : HandleTable Kernel}
    (h : origin.Extends new device) (failure : Option (Nat × String)) :
    origin.Extends new { device with failCompile := failure } :=
  ⟨h.programs, ⟨h.numbered.nodup, h.numbered.bounded⟩, h.lastHandle, h.buffers⟩

/-- The device with one more program. -/
def loaded (device : Device) (kernel : Kernel) : Device :=
  { device with
    lastHandle := device.lastHandle + 1
    programs := device.programs.set (device.lastHandle + 1) kernel
    counters := { device.counters with compiles := device.counters.compiles + 1 } }

theorem exec_compile (kernel : Kernel) (device : Device) :
    exec (compile kernel) device =
      match device.failCompile with
      | none => (.ok (device.lastHandle + 1), device.loaded kernel)
      | some (0, reason) =>
        (.error (.error (.compileRejected reason)), { device with failCompile := none })
      | some (skip + 1, reason) =>
        (.ok (device.lastHandle + 1),
          { device with failCompile := some (skip, reason) }.loaded kernel) := by
  obtain ⟨lastHandle, buffers, pool, programs, counters, failCompile, failLaunch⟩ := device
  rcases failCompile with _ | ⟨_ | skip, reason⟩ <;> rfl

theorem Extends.loaded {origin device : Device} {new : HandleTable Kernel}
    (h : origin.Extends new device) (kernel : Kernel) :
    origin.Extends (new ++ [(device.lastHandle + 1, kernel)]) (device.loaded kernel) := by
  have hfresh : device.lastHandle + 1 ∉ device.programs.keys :=
    fun hmem => absurd (h.numbered.bounded _ hmem) (by omega)
  have hset : (device.loaded kernel).programs =
      device.programs ++ [(device.lastHandle + 1, kernel)] := by
    change device.programs.set _ _ = _
    rw [HandleTable.set, if_neg fun hc => hfresh (HandleTable.contains_iff.mp hc)]
  refine ⟨?_, ⟨?_, ?_⟩, Nat.le_succ_of_le h.lastHandle, h.buffers⟩
  · rw [hset, h.programs, List.append_assoc]
  · rw [hset, HandleTable.keys_append, List.nodup_append]
    refine ⟨h.numbered.nodup, by simp [HandleTable.keys], ?_⟩
    intro handle hmem other hnew hsame
    rw [HandleTable.keys, List.map_singleton, List.mem_singleton] at hnew
    rw [hsame, hnew] at hmem
    exact hfresh hmem
  · intro handle hmem
    change handle ≤ device.lastHandle + 1
    rw [hset, HandleTable.keys_append, List.mem_append] at hmem
    rcases hmem with hold | hnew
    · exact Nat.le_succ_of_le (h.numbered.bounded handle hold)
    · rw [HandleTable.keys, List.map_singleton, List.mem_singleton] at hnew
      exact Nat.le_of_eq hnew

end Device

namespace Lowering

theorem releaseAll_eq (programs : List Nat) (device : Device) :
    releaseAll programs device =
      { device with programs := device.programs.filter fun entry => entry.1 ∉ programs } := by
  induction programs generalizing device with
  | nil =>
    have hall : (device.programs.filter fun entry => entry.1 ∉ []) = device.programs :=
      List.filter_eq_self.mpr (by simp)
    rw [hall]
    rfl
  | cons handle rest ih =>
    change releaseAll rest (device.releaseProgram handle) = _
    rw [ih]
    simp [Device.releaseProgram, HandleTable.erase, List.filter_filter, Bool.and_comm]

/-- The programs of some kernels, as a device holds them. -/
def entries (kernels : List CompiledKernel) : HandleTable Kernel :=
  kernels.map fun kernel => (kernel.program, kernel.plan.kernel)

theorem keys_entries (kernels : List CompiledKernel) :
    (entries kernels).keys = kernels.map CompiledKernel.program := by
  simp [entries, HandleTable.keys]

end Lowering

/-- A device that was given its new programs back has those from before. -/
theorem Device.Extends.released {origin device : Device} {kernels : List CompiledKernel}
    (h : origin.Extends (Lowering.entries kernels) device) :
    origin.Extends [] (Lowering.releaseAll (kernels.map CompiledKernel.program) device) := by
  have hnodup : (origin.programs ++ Lowering.entries kernels).keys.Nodup := h.programs ▸ h.numbered.nodup
  have hprograms : (Lowering.releaseAll (kernels.map CompiledKernel.program) device).programs =
      origin.programs := by
    rw [Lowering.releaseAll_eq, ← Lowering.keys_entries]
    change device.programs.filter _ = _
    rw [h.programs]
    exact HandleTable.filter_append_of_nodup hnodup
  have hlast : (Lowering.releaseAll (kernels.map CompiledKernel.program) device).lastHandle =
      device.lastHandle := by
    rw [Lowering.releaseAll_eq]
  rw [HandleTable.keys_append, List.nodup_append] at hnodup
  refine ⟨by rw [hprograms, List.append_nil], ⟨?_, ?_⟩, hlast ▸ h.lastHandle, ?_⟩
  · rw [hprograms]
    exact hnodup.1
  · intro handle hmem
    rw [hprograms] at hmem
    rw [hlast]
    refine h.numbered.bounded handle ?_
    rw [h.programs, HandleTable.keys_append]
    exact List.mem_append_left _ hmem
  · rw [Lowering.releaseAll_eq]
    exact h.buffers

namespace Lowering

/-- The device rejected a kernel, for the reason it was told to, and has no new programs. -/
structure Rejected (origin : Device) (planned : Option String) (stop : Stop OffloadError)
    (device : Device) : Prop where
  cause : ∃ reason, planned = some reason ∧ stop = .error (.device (.compileRejected reason))
  extends_nil : origin.Extends [] device

/-- The programs of these kernels are new, and a planned failure has still to happen. -/
def Compiling (origin : Device) (planned : Option String) (done : List CompiledKernel)
    (device : Device) : Prop :=
  origin.Extends (entries done) device ∧ device.failCompile.map (·.2) = planned

theorem ensures_compileKernel (profile : Profile) (origin : Device) (planned : Option String)
    (done : List CompiledKernel) (plan : LaunchPlan) :
    Ensures (fun machine => Compiling origin planned done machine.device)
      (compileKernel profile done plan)
      (fun kernel machine => kernel.plan = plan ∧
        Compiling origin planned (done ++ [kernel]) machine.device)
      (fun stop machine => Rejected origin planned stop machine.device) := by
  intro machine hmachine
  obtain ⟨hextends, hplanned⟩ := hmachine
  have hcompile := Device.exec_compile plan.kernel machine.device
  simp only [compileKernel, exec_bind, exec_get]
  rcases hfail : machine.device.failCompile with _ | ⟨_ | skip, reason⟩ <;>
    rw [hfail] at hcompile hplanned
  · rw [exec] at hcompile
    rw [hcompile]
    refine ⟨rfl, ?_, ?_⟩
    · rw [entries, List.map_append]
      exact hextends.loaded plan.kernel
    · exact (congrArg (Option.map (·.2)) hfail).trans hplanned
  · rw [exec] at hcompile
    rw [hcompile]
    exact ⟨⟨reason, hplanned.symm, rfl⟩, (hextends.failing none).released⟩
  · rw [exec] at hcompile
    rw [hcompile]
    refine ⟨rfl, ?_, hplanned⟩
    rw [entries, List.map_append]
    exact (hextends.failing (some (skip, reason))).loaded plan.kernel

theorem ensures_compileAll (profile : Profile) (origin : Device) (planned : Option String)
    (done : List CompiledKernel) (plans : List LaunchPlan) :
    Ensures (fun machine => Compiling origin planned done machine.device)
      (compileAll profile done plans)
      (fun kernels machine => kernels.map (·.plan) = done.map (·.plan) ++ plans ∧
        Compiling origin planned kernels machine.device)
      (fun stop machine => Rejected origin planned stop machine.device) := by
  induction plans generalizing done with
  | nil => exact Ensures.pure done fun machine hmachine => ⟨(List.append_nil _).symm, hmachine⟩
  | cons plan rest ih =>
    refine (ensures_compileKernel profile origin planned done plan).bind fun kernel => ?_
    intro machine hmachine
    obtain ⟨hplan, hcompiling⟩ := hmachine
    have hrest := ih (done ++ [kernel]) machine hcompiling
    rcases hexec : exec (compileAll profile (done ++ [kernel]) rest) machine with
      ⟨stop | kernels, after⟩ <;> rw [hexec] at hrest
    · exact hrest
    · exact ⟨by simp [hrest.1, hplan], hrest.2⟩

/-! ## Whole units -/

end Lowering

/-- The unit without the handles of its programs. -/
def CompiledUnit.unnumbered (unit : CompiledUnit) : CompiledUnit :=
  { unit with kernels := unit.kernels.map fun kernel => { kernel with program := 0 } }

namespace Lowering

variable {profile : Profile} {f : Func} {key : UnitKey} {fingerprint : ContentHash}
  {before after : Machine} {unit : CompiledUnit}

theorem ensures_records {α : Type} (event : α → Event) (xs : List α) (device : Device) :
    Ensures (fun machine : Machine => machine.device = device)
      (xs.forM fun x => MachineM.record (event x)) (fun _ machine => machine.device = device)
      (fun _ _ => False) :=
  Ensures.forM xs fun _ _ _ hmachine => hmachine

/-- The outline of a unit whose body was drafted without a fault. -/
def Outlined (profile : Profile) (f : Func) (key : UnitKey) (outline : Outline) (body : Draft) :
    Prop :=
  outline? profile f key.signature key.context = some outline ∧ outline.draft = .ok body

/-- The unit of an outline, before its kernels are compiled. -/
def uncompiled (f : Func) (key : UnitKey) (fingerprint : ContentHash) (outline : Outline)
    (body : Draft) : CompiledUnit :=
  assemble f key fingerprint outline body (body.launches.map fun plan => ⟨plan, 0⟩)

theorem unnumbered_assemble {outline : Outline} {body : Draft} {kernels : List CompiledKernel}
    (h : kernels.map (·.plan) = body.launches) :
    (assemble f key fingerprint outline body kernels).unnumbered =
      uncompiled f key fingerprint outline body := by
  simp [uncompiled, assemble, CompiledUnit.unnumbered, ← h]

/-- What a lowering leaves on the device: the programs of the unit that its outline describes, or
nothing if a kernel was rejected. Only a fault can leave programs that nobody knows. -/
theorem ensures_run (profile : Profile) (f : Func) (key : UnitKey) (fingerprint : ContentHash)
    {origin : Device} (numbered : origin.Numbered) :
    Ensures (fun machine => machine.device = origin) (run profile f key fingerprint)
      (fun unit machine => origin.Extends (entries unit.kernels) machine.device ∧
        ∃ outline body, Outlined profile f key outline body ∧
          unit.unnumbered = uncompiled f key fingerprint outline body)
      (fun stop machine => match stop with
        | .error _ => Rejected origin (origin.failCompile.map (·.2)) stop machine.device
        | .fault => (∃ kernels, origin.Extends (entries kernels) machine.device) ∧
          ∀ outline body, ¬ Outlined profile f key outline body) := by
  intro before hbefore
  rw [run, exec_bind, exec_ofExcept]
  cases houtline : outline? profile f key.signature key.context with
  | none =>
    refine ⟨⟨[], ?_⟩, fun outline body h => ?_⟩
    · rw [hbefore]
      exact .refl numbered
    · rw [Outlined, houtline] at h
      cases h.1
  | some outline =>
    have hlogged := ensures_records (Event.fellBack f.name) outline.fallbacks origin before hbefore
    simp only [orFault, exec_bind]
    rcases hexec : exec (outline.fallbacks.forM fun cause => MachineM.record (.fellBack f.name cause))
      before with ⟨_ | _, logged⟩ <;> rw [hexec] at hlogged
    · exact hlogged.elim
    · have hcompiling : Compiling origin (origin.failCompile.map (·.2)) [] logged.device := by
        rw [hlogged]
        exact ⟨.refl numbered, rfl⟩
      have hcompiled := ensures_compileAll profile origin _ [] (launchesOf outline.draft) logged
        hcompiling
      dsimp only
      rcases hkernels : exec (compileAll profile [] (launchesOf outline.draft)) logged with
        ⟨stop | kernels, compiled⟩ <;> rw [hkernels] at hcompiled
      · obtain ⟨reason, _, rfl⟩ := hcompiled.cause
        exact hcompiled
      · obtain ⟨hplans, hextends, _⟩ := hcompiled
        cases hdraft : outline.draft with
        | error draft =>
          refine ⟨⟨kernels, hextends⟩, fun other body h => ?_⟩
          obtain ⟨hother, hbody⟩ := h
          rw [houtline] at hother
          cases hother
          rw [hdraft] at hbody
          cases hbody
        | ok body =>
          rw [hdraft] at hplans
          exact ⟨hextends, outline, body, ⟨houtline, hdraft⟩, unnumbered_assemble hplans⟩

/-- The device was told to reject a kernel, and did. -/
def Refused (planned : Option String) (stop : Stop OffloadError) : Prop :=
  ∃ reason, planned = some reason ∧ stop = .error (.device (.compileRejected reason))

theorem refused_compileKernel (profile : Profile) (planned : Option String)
    (done : List CompiledKernel) (plan : LaunchPlan) :
    Ensures (fun machine => machine.device.failCompile.map (·.2) = planned)
      (compileKernel profile done plan)
      (fun _ machine => machine.device.failCompile.map (·.2) = planned)
      (fun stop _ => Refused planned stop) := by
  intro machine hplanned
  have hcompile := Device.exec_compile plan.kernel machine.device
  simp only [compileKernel, exec_bind, exec_get]
  rcases hfail : machine.device.failCompile with _ | ⟨_ | skip, reason⟩ <;>
    rw [hfail] at hcompile hplanned <;> rw [exec] at hcompile <;> rw [hcompile]
  · exact (congrArg (Option.map (·.2)) hfail).trans hplanned
  · exact ⟨reason, hplanned.symm, rfl⟩
  · exact hplanned

theorem refused_compileAll (profile : Profile) (planned : Option String)
    (done : List CompiledKernel) (plans : List LaunchPlan) :
    Ensures (fun machine => machine.device.failCompile.map (·.2) = planned)
      (compileAll profile done plans)
      (fun _ machine => machine.device.failCompile.map (·.2) = planned)
      (fun stop _ => Refused planned stop) := by
  induction plans generalizing done with
  | nil => exact Ensures.pure done fun _ h => h
  | cons plan rest ih =>
    exact (refused_compileKernel profile planned done plan).bind fun kernel => ih (done ++ [kernel])

/-- With a plan for the function, lowering stops only if the device rejects a kernel. -/
theorem run_refused {outline : Outline} {body : Draft}
    (outlined : Outlined profile f key outline body) {stop : Stop OffloadError}
    (h : exec (run profile f key fingerprint) before = (.error stop, after)) :
    Refused (before.device.failCompile.map (·.2)) stop := by
  obtain ⟨houtline, hdraft⟩ := outlined
  have logged : Ensures
      (fun machine : Machine => machine.device.failCompile.map (·.2) =
        before.device.failCompile.map (·.2))
      (outline.fallbacks.forM fun cause => MachineM.record (.fellBack f.name cause))
      (fun _ machine => machine.device.failCompile.map (·.2) = before.device.failCompile.map (·.2))
      (fun stop _ => Refused (before.device.failCompile.map (·.2)) stop) :=
    Ensures.forM _ fun _ _ _ hmachine => hmachine
  have whole : Ensures (· = before) (run profile f key fingerprint) (fun _ _ => True)
      (fun stop _ => Refused (before.device.failCompile.map (·.2)) stop) := by
    rintro machine rfl
    have found : exec (MonadExcept.ofExcept (orFault (outline? profile f key.signature
        key.context)) : MachineM Outline) machine = (.ok outline, machine) := by
      rw [exec_ofExcept, houtline, orFault]
    rw [run, exec_bind_of_ok found, hdraft]
    refine (logged.bind fun _ => (refused_compileAll profile _ [] _).bind fun kernels => ?_) machine
      rfl
    exact fun _ _ => trivial
  exact whole.of_error rfl h

/-- A function that was lowered once is lowered again from every machine, into the same unit apart
from the handles, unless the device was told to fail. -/
theorem run_again (h : exec (run profile f key fingerprint) before = (.ok unit, after))
    (first : before.device.Numbered) {other : Machine} (second : other.device.Numbered) :
    match exec (run profile f key fingerprint) other with
    | (.ok again, _) => again.unnumbered = unit.unnumbered
    | (.error stop, _) => ∃ reason, other.device.failCompile.map (·.2) = some reason ∧
        stop = .error (.device (.compileRejected reason)) := by
  obtain ⟨_, outline, body, ⟨houtline, hdraft⟩, hunit⟩ :=
    (ensures_run profile f key fingerprint first).of_ok rfl h
  have hagain := ensures_run profile f key fingerprint second other rfl
  rcases hexec : exec (run profile f key fingerprint) other with ⟨stop | again, final⟩ <;>
    rw [hexec] at hagain
  · cases stop with
    | error cause => exact hagain.cause
    | fault => exact (hagain.2 outline body ⟨houtline, hdraft⟩).elim
  · obtain ⟨_, outline', body', ⟨houtline', hdraft'⟩, hsame⟩ := hagain
    rw [houtline] at houtline'
    cases houtline'
    rw [hdraft] at hdraft'
    cases hdraft'
    exact hsame.trans hunit.symm

end Lowering

end ArrayOffload
