import ArrayOffload.Proofs.Accounts
import ArrayOffload.Proofs.Release

/-!
# The cache is transparent

A caller cannot tell a unit from the cache from one that is built right now. Every cached unit came
out of a lowering of the function that is registered under its key, and lowering does not depend on
when it happens: it would give the same unit again, apart from the handles of the programs. The
programs of the unit are on the device for as long as the unit can be found.

* `EngineRequest`, `EngineRequest.handle`: what callers can do with an engine, in any order;
* `Engine.Genuine`: where the units of the cache come from;
* `Engine.Faithful`: the invariant of all requests;
* `compile_transparent`: what callers get.
-/

namespace ArrayOffload

/-! ## Memory -/

/-- The device has the programs that it had, and handles are never given out again. -/
structure MemoryOnly (origin device : Device) : Prop where
  programs : device.programs = origin.programs
  handles : origin.lastHandle ≤ device.lastHandle
  bounded : device.Bounded

theorem ensures_allocShared (profile : Profile) (elem : Elem) (length : Nat) (origin : Device) :
    Ensures (MemoryOnly origin) (Device.allocShared profile elem length)
      (fun _ => MemoryOnly origin) (fun _ => MemoryOnly origin) := by
  unfold Device.allocShared
  split
  · intro device h
    simp only [exec_bind, exec_get, exec_ofExcept]
    cases device.zeroed .buffer elem length with
    | error stop => exact h
    | ok cells =>
      refine ⟨h.programs, Nat.le_succ_of_le h.handles, fun key hkey => ?_⟩
      obtain ⟨buffer, hbuffer⟩ := HandleTable.mem_keys_iff.mp hkey
      change key ≤ device.lastHandle + 1
      by_cases hnew : key = device.lastHandle + 1
      · exact Nat.le_of_eq hnew
      · rw [HandleTable.get?_set, if_neg hnew] at hbuffer
        exact Nat.le_succ_of_le (h.bounded key (HandleTable.mem_keys_iff.mpr ⟨_, hbuffer⟩))
  · exact fun _ h => h

theorem ensures_share (profile : Profile) (elem : Elem) (shape : Shape) (values : Cells)
    (origin : Device) :
    Ensures (MemoryOnly origin) (ArrayValue.share profile elem shape values)
      (fun _ => MemoryOnly origin) (fun _ => MemoryOnly origin) := by
  unfold ArrayValue.share
  cases shape.count? with
  | none => exact fun _ h => h
  | some length =>
    dsimp only
    split
    · refine (ensures_allocShared profile elem length origin).bind fun handle => ?_
      exact fun _ h => ⟨h.programs, h.handles, h.bounded⟩
    · exact fun _ h => h

namespace Engine

/-! ## Where units come from -/

/-- The unit was lowered from the function that is registered under its key. -/
def Genuine (engine : Engine) (key : UnitKey) (unit : CompiledUnit) : Prop :=
  ∃ f before after, engine.functions[key.function]? = some f ∧
    (f.serialOnly = true → key.context.isHost = true) ∧ before.device.Numbered ∧
    exec (Lowering.run engine.profile f key
      (unitFingerprint f.contentHash key.signature key.context)) before = (.ok unit, after)

/-- The invariant: units are genuine, and the books are kept. -/
structure Faithful (engine : Engine) : Prop where
  kept : Kept False engine []
  bounded : engine.machine.device.Bounded
  genuine : ∀ key built, (key, some built) ∈ engine.cache.slots → engine.Genuine key built.unit

variable {engine after : Engine} {f : Func} {key : UnitKey}
  {result : Except (Stop OffloadError) Built}

theorem Genuine.congr {unit : CompiledUnit} (h : engine.Genuine key unit)
    (hsetting : after.setting = engine.setting) : after.Genuine key unit := by
  have hprofile : after.profile = engine.profile := congrArg Setting.profile hsetting
  have hfunctions : after.functions = engine.functions := congrArg Setting.functions hsetting
  unfold Genuine
  rw [hprofile, hfunctions]
  exact h

/-- A cached unit was there before the look-up, or the look-up lowered it. -/
theorem Lookup.slot_cases (h : Lookup engine f key result after) {other : UnitKey} {built : Built}
    (hslot : (other, some built) ∈ after.cache.slots) :
    (other, some built) ∈ engine.cache.slots ∨
      (other = key ∧ ∃ machine, engine.lowering f key = (.ok built.unit, machine)) := by
  have hothers : (other, some built) ∈ engine.cache.others key →
      (other, some built) ∈ engine.cache.slots := fun hmem => (List.mem_filter.mp hmem).1
  cases h with
  | hit _ alike =>
    rw [alike.cache] at hslot
    exact .inl hslot
  | built _ lowered alike =>
    rw [alike.cache, Cache.slots_fill_reserve, List.mem_append] at hslot
    rcases hslot with hold | hnew
    · exact .inl (hothers hold)
    · cases List.mem_singleton.mp hnew
      exact .inr ⟨rfl, _, lowered⟩
  | rejected _ _ alike =>
    rw [alike.cache] at hslot
    exact .inl (hothers (Cache.slots_retire_reserve _ _ ▸ hslot))
  | faulted _ _ alike | undumped _ _ _ alike =>
    rw [alike.cache] at hslot
    rcases List.mem_append.mp hslot with hold | hnew
    · exact .inl (hothers hold)
    · simp at hnew

/-- A look-up adds programs to the device, if it changes it at all. -/
theorem Lookup.extends_device (h : Lookup engine f key result after)
    (numbered : engine.machine.device.Numbered) :
    ∃ new, engine.machine.device.Extends new after.machine.device := by
  cases h with
  | hit _ alike =>
    refine ⟨[], ?_⟩
    rw [alike.device]
    exact .refl numbered
  | built _ lowered alike | undumped _ lowered _ alike =>
    exact ⟨_, alike.device ▸ (lowering_ok numbered lowered).1⟩
  | rejected _ stopped alike | faulted _ stopped alike =>
    obtain ⟨new, hdevice, _⟩ := lowering_error numbered stopped
    exact ⟨new, alike.device ▸ hdevice⟩

/-- A look-up of a registered function leaves genuine units only. -/
theorem Faithful.lookup (h : engine.Faithful) (hfunction : engine.functions[key.function]? = some f)
    (hserial : f.serialOnly = true → key.context.isHost = true)
    (hlookup : Lookup engine f key result after) : after.Faithful := by
  obtain ⟨_, hdevice⟩ := hlookup.extends_device h.kept.numbered
  refine ⟨(h.kept.lookup hlookup).weaken False.elim, ?_, fun other built hslot => ?_⟩
  · intro handle hhandle
    rw [hdevice.buffers] at hhandle
    exact Nat.le_trans (h.bounded handle hhandle) hdevice.lastHandle
  · refine Genuine.congr ?_ hlookup.setting
    rcases hlookup.slot_cases hslot with hold | ⟨rfl, machine, hlowered⟩
    · exact h.genuine other built hold
    · exact ⟨f, engine.machine.record (.cacheMiss other), machine, hfunction, hserial,
        h.kept.numbered, hlowered⟩

/-! ## Compiling -/

theorem exec_compile (context : DeviceContext) (id : FuncId) (args : List ArrayValue)
    (engine : Engine) :
    exec (compile context id args) engine =
      match engine.functions[id]? with
      | none => (.error (.error (.unknownFunction id)), engine)
      | some f => exec (unitFor context id f args) engine := by
  simp only [compile, exec_bind, exec_get, exec_ofExcept, function]
  cases engine.functions[id]? <;> rfl

/-- A unit that a caller gets: the function was registered and the checks were passed. -/
theorem compile_cases {context : DeviceContext} {id : FuncId} {args : List ArrayValue}
    (hrun : exec (compile context id args) engine = (result, after)) :
    (∃ stop, result = .error stop ∧ after = engine) ∨
      ∃ f signature, engine.functions[id]? = some f ∧ Signature.ofArgs f args = .ok signature ∧
        (f.serialOnly = true → context.isHost = true) ∧
        Lookup engine f ⟨id, signature, context⟩ result after := by
  rw [exec_compile] at hrun
  cases hf : engine.functions[id]? with
  | none =>
    rw [hf] at hrun
    cases hrun
    exact .inl ⟨_, rfl, rfl⟩
  | some f =>
    have hunit : exec (unitFor context id f args) engine = (result, after) := by
      rw [hf] at hrun
      exact hrun
    rcases unitFor_cases hunit with ⟨stop, _, hstop, hsame⟩ | ⟨key, hkey, hlookup⟩
    · exact .inl ⟨stop, hstop, hsame⟩
    · obtain ⟨signature, hsignature, rfl, hserial⟩ := keyFor_ok hkey
      exact .inr ⟨f, signature, rfl, hsignature, hserial, hlookup⟩

theorem Faithful.compile (h : engine.Faithful) {context : DeviceContext} {id : FuncId}
    {args : List ArrayValue} (hrun : exec (compile context id args) engine = (result, after)) :
    after.Faithful := by
  rcases compile_cases hrun with ⟨_, _, rfl⟩ | ⟨f, signature, hf, _, hserial, hlookup⟩
  · exact h
  · exact h.lookup hf hserial hlookup

/-! ## The other requests -/

/-- Requests that pass units on or take them away make no new ones. -/
theorem Faithful.untouched (h : engine.Faithful) (hkept : Kept False after [])
    (hsetting : after.setting = engine.setting)
    (hslots : ∀ slot ∈ after.cache.slots, slot ∈ engine.cache.slots)
    (hbuffers : after.machine.device.buffers = engine.machine.device.buffers)
    (hlast : after.machine.device.lastHandle = engine.machine.device.lastHandle) :
    after.Faithful := by
  refine ⟨hkept, ?_, fun key built hslot => ?_⟩
  · intro handle hhandle
    rw [hbuffers] at hhandle
    rw [hlast]
    exact h.bounded handle hhandle
  · exact (h.genuine key built (hslots _ hslot)).congr hsetting

theorem Faithful.hold (h : engine.Faithful) {built : Built} (hbuilt : built ∈ engine.inUse)
    (name : String) : (engine.hold name built).Faithful := by
  obtain ⟨hsetting, hcache, hbuffers, hlast⟩ := engine.untouched_hold name built
  exact h.untouched (h.kept.hold hbuilt name) hsetting (hcache ▸ fun _ hslot => hslot) hbuffers hlast

theorem Faithful.invalidate (h : engine.Faithful) (id : FuncId) :
    (engine.invalidate id).2.Faithful := by
  obtain ⟨hsetting, hcache, hbuffers, hlast⟩ := engine.untouched_invalidate id
  refine h.untouched (h.kept.invalidate id) hsetting ?_ hbuffers hlast
  rw [hcache]
  exact fun _ hslot => (List.mem_filter.mp hslot).1

theorem Faithful.clear (h : engine.Faithful) : engine.clear.Faithful := by
  obtain ⟨hsetting, hcache, hbuffers, hlast⟩ := engine.untouched_clear
  refine h.untouched h.kept.clear hsetting (fun slot hslot => ?_) hbuffers hlast
  rw [hcache] at hslot
  exact absurd hslot List.not_mem_nil

theorem Faithful.dropHeld (h : engine.Faithful) (name : String) :
    (engine.dropHeld name).Faithful := by
  obtain ⟨hsetting, hcache, hbuffers, hlast⟩ := engine.untouched_dropHeld name
  exact h.untouched (h.kept.dropHeld name) hsetting (hcache ▸ fun _ hslot => hslot) hbuffers hlast

/-- Work on the device's memory has nothing to do with units. -/
theorem Faithful.memory (h : engine.Faithful) {machine : Machine}
    (hmemory : MemoryOnly engine.machine.device machine.device) :
    Faithful { engine with machine } :=
  ⟨h.kept.congr rfl rfl rfl hmemory.programs hmemory.handles, hmemory.bounded, h.genuine⟩

theorem exec_onMachine {α : Type} (work : MachineM α) (engine : Engine) :
    (exec (onMachine work) engine).2 = { engine with machine := (exec work engine.machine).2 } := by
  have hrun : work.run.run engine.machine = exec work engine.machine := rfl
  rw [onMachine, exec_bind, exec_get]
  dsimp only
  rw [hrun]
  rcases exec work engine.machine with ⟨result, machine⟩
  rw [exec_bind, exec_set]
  dsimp only
  rw [exec_ofExcept]

theorem Faithful.share (h : engine.Faithful) (elem : Elem) (shape : Shape) (values : Cells) :
    (exec (sharedArray elem shape values) engine).2.Faithful := by
  have hshare := ensures_share engine.profile elem shape values engine.machine.device
    engine.machine.device ⟨rfl, Nat.le_refl _, h.bounded⟩
  have hresult : (exec (sharedArray elem shape values) engine).2 =
      { engine with machine := (exec (MachineM.onDevice
        (ArrayValue.share engine.profile elem shape values)) engine.machine).2 } := by
    rw [sharedArray, exec_bind, exec_get]
    exact exec_onMachine _ engine
  rw [hresult, Call.exec_machine_onDevice]
  refine h.memory ?_
  rcases hexec : exec (ArrayValue.share engine.profile elem shape values) engine.machine.device with
    ⟨_ | _, device⟩ <;> rw [hexec] at hshare <;> exact hshare

theorem invoke_eq (engine : Engine) (context : DeviceContext) (id : FuncId)
    (args : List ArrayValue) : engine.invoke context id args =
      match exec (Engine.compile context id args) engine with
      | (.error stop, after) => ⟨.error stop, args, after⟩
      | (.ok built, after) =>
        let call := built.unit.run after.hosts args after.machine
        let last := { after with machine := call.machine }
        match call.result with
        | .error stop => ⟨.error stop, call.args, last⟩
        | .ok outcome =>
          ⟨.ok outcome, call.args,
            last.record (.invoked built.unit.key outcome.launches outcome.transfers)⟩ := rfl

theorem Faithful.invoke (h : engine.Faithful) (context : DeviceContext) (id : FuncId)
    (args : List ArrayValue) : (engine.invoke context id args).engine.Faithful := by
  rw [invoke_eq]
  rcases hrun : exec (Engine.compile context id args) engine with ⟨stop | built, after⟩
  · exact h.compile hrun
  · have hafter := h.compile hrun
    obtain ⟨hprograms, hhandles, hbounded⟩ :=
      built.unit.run_programs after.hosts args after.machine hafter.bounded
    dsimp only
    split
    · exact hafter.memory ⟨hprograms, hhandles, hbounded⟩
    · next outcome _ =>
      have hrecorded : MemoryOnly after.machine.device
          ((built.unit.run after.hosts args after.machine).machine.record
            (.invoked built.unit.key outcome.launches outcome.transfers)).device :=
        ⟨hprograms, hhandles, hbounded⟩
      exact hafter.memory hrecorded

end Engine

/-- What callers can do with an engine. -/
inductive EngineRequest where
  | register (f : Func)
  | registerHost (name : String) (f : HostFn)
  /-- Make an array in shared memory. -/
  | share (elem : Elem) (shape : Shape) (values : Cells)
  /-- Ask for a unit, and hold it under a name if one is given. -/
  | compile (context : DeviceContext) (id : FuncId) (args : List ArrayValue) (keep : Option String)
  | invoke (context : DeviceContext) (id : FuncId) (args : List ArrayValue)
  | invalidate (id : FuncId)
  | clear
  | drop (name : String)
  | failCompile (skip : Nat) (reason : String)
  | failLaunch (reason : String)

namespace EngineRequest

/-- The engine after a request, whether the request succeeded or not. -/
def handle (engine : Engine) : EngineRequest → Engine
  | register f => (engine.register f).2
  | registerHost name f => engine.registerHost name f
  | share elem shape values => (exec (Engine.sharedArray elem shape values) engine).2
  | compile context id args keep =>
    let (result, after) := exec (Engine.compile context id args) engine
    match result, keep with
    | .ok built, some name => after.hold name built
    | _, _ => after
  | invoke context id args => (engine.invoke context id args).engine
  | invalidate id => (engine.invalidate id).2
  | clear => engine.clear
  | drop name => engine.dropHeld name
  | failCompile skip reason =>
    let device := { engine.machine.device with failCompile := some (skip, reason) }
    { engine with machine := { engine.machine with device } }
  | failLaunch reason =>
    let device := { engine.machine.device with failLaunch := some reason }
    { engine with machine := { engine.machine with device } }

variable {engine : Engine}

theorem handle_faithful (h : engine.Faithful) (request : EngineRequest) :
    (request.handle engine).Faithful := by
  cases request with
  | register f =>
    refine ⟨h.kept.congr rfl rfl rfl rfl (Nat.le_refl _), h.bounded, fun key built hslot => ?_⟩
    obtain ⟨g, before, after, hg, hrest⟩ := h.genuine key built hslot
    refine ⟨g, before, after, ?_, hrest⟩
    change (engine.functions ++ [f])[key.function]? = some g
    rw [List.getElem?_append_left (List.getElem?_eq_some_iff.mp hg).1]
    exact hg
  | registerHost name f => exact ⟨h.kept.congr rfl rfl rfl rfl (Nat.le_refl _), h.bounded, h.genuine⟩
  | share elem shape values => exact h.share elem shape values
  | compile context id args keep =>
    simp only [handle]
    rcases hrun : exec (Engine.compile context id args) engine with ⟨result, after⟩
    have hafter := h.compile hrun
    cases result with
    | error stop => exact hafter
    | ok built =>
      cases keep with
      | none => exact hafter
      | some name =>
        rcases Engine.compile_cases hrun with ⟨_, hstop, _⟩ | ⟨_, _, _, _, _, hlookup⟩
        · cases hstop
        · have huse : built ∈ after.inUse :=
            List.mem_append_left _ (List.mem_filterMap.mpr ⟨_, hlookup.cached, rfl⟩)
          exact hafter.hold huse name
  | invoke context id args => exact h.invoke context id args
  | invalidate id => exact h.invalidate id
  | clear => exact h.clear
  | drop name => exact h.dropHeld name
  | failCompile skip reason => exact h.memory ⟨rfl, Nat.le_refl _, h.bounded⟩
  | failLaunch reason => exact h.memory ⟨rfl, Nat.le_refl _, h.bounded⟩

/-- Whatever callers do, and whether it succeeds or not, the cache stays faithful. -/
theorem handleAll_faithful (h : engine.Faithful) (requests : List EngineRequest) :
    (requests.foldl handle engine).Faithful := by
  induction requests generalizing engine with
  | nil => exact h
  | cons request rest ih => exact ih (handle_faithful h request)

end EngineRequest

/-! ## What callers get -/

/-- Lowering the function now, on whatever machine, gives the unit again apart from the handles of its
programs. It can only fail if the device was told to. -/
def Engine.Rebuilds (engine : Engine) (f : Func) (key : UnitKey) (unit : CompiledUnit) : Prop :=
  ∀ machine : Machine, machine.device.Numbered →
    match exec (Lowering.run engine.profile f key
      (unitFingerprint f.contentHash key.signature key.context)) machine with
    | (.ok again, _) => again.unnumbered = unit.unnumbered
    | (.error stop, _) => ∃ reason, machine.device.failCompile.map (·.2) = some reason ∧
        stop = .error (.device (.compileRejected reason))

theorem Engine.Fresh.faithful {engine : Engine} (h : engine.Fresh)
    (bounded : engine.machine.device.Bounded) : engine.Faithful :=
  ⟨h.kept.weaken False.elim, bounded, by simp [h.cache]⟩

/-- After any requests, whoever asks for a unit gets one for the registered function, the signature of
the arguments and the context, the same that would be built now, with its programs on the device.
Serial functions have units for the host only. -/
theorem compile_transparent {start engine : Engine} (fresh : start.Fresh)
    (bounded : start.machine.device.Bounded) (requests : List EngineRequest)
    (hengine : requests.foldl EngineRequest.handle start = engine) :
    (∀ {context id args built after},
      exec (Engine.compile context id args) engine = (.ok built, after) →
      ∃ f signature, engine.functions[id]? = some f ∧ Signature.ofArgs f args = .ok signature ∧
        built.unit.key = ⟨id, signature, context⟩ ∧ built.unit.function = f ∧
        engine.Rebuilds f built.unit.key built.unit ∧ after.machine.device.Numbered ∧
        built.unit.Loaded after.machine.device ∧
        (f.serialOnly = true → context.isHost = true)) ∧
    ∀ key built, (key, some built) ∈ engine.cache.slots →
      built.unit.function.serialOnly = true → key.context.isHost = true := by
  have hfaithful : engine.Faithful :=
    hengine ▸ EngineRequest.handleAll_faithful (fresh.faithful bounded) requests
  constructor
  · intro context id args built after hrun
    have hafter := hfaithful.compile hrun
    rcases Engine.compile_cases hrun with
      ⟨_, hstop, _⟩ | ⟨f, signature, hf, hsignature, hserial, hlookup⟩
    · cases hstop
    · have hslot := hlookup.cached
      have huse : built ∈ after.inUse :=
        List.mem_append_left _ (List.mem_filterMap.mpr ⟨_, hslot, rfl⟩)
      obtain ⟨g, before, lowered, hg, _, numbered, hlowered⟩ := hafter.genuine _ built hslot
      have hsetting := hlookup.setting
      have hprofile : after.profile = engine.profile := congrArg Engine.Setting.profile hsetting
      have hfunctions : after.functions = engine.functions :=
        congrArg Engine.Setting.functions hsetting
      rw [hfunctions, hf] at hg
      cases hg
      rw [hprofile] at hlowered
      obtain ⟨_, _, _, _, planned⟩ := Lowering.run_planned hlowered
      refine ⟨f, signature, hf, hsignature, planned.key_eq, planned.function_eq, ?_,
        hafter.kept.numbered, hafter.kept.loaded built huse, hserial⟩
      rw [planned.key_eq]
      exact fun machine hmachine => Lowering.run_again hlowered numbered hmachine
  · intro key built hslot hserial
    obtain ⟨f, _, _, _, hhost, _, hlowered⟩ := hfaithful.genuine key built hslot
    obtain ⟨_, _, _, _, planned⟩ := Lowering.run_planned hlowered
    exact hhost (planned.function_eq ▸ hserial)

/-- A unit is built and used, its function is registered once more, a build fails, and units of the
host come and go. -/
def Sample.history : List EngineRequest :=
  [.register blend, .registerHost "reset" fun _ => .ok ⟨[#[5.0]], []⟩, .compile .gpu 0 args none,
    .invoke .gpu 0 args, .register blend, .failCompile 2 "no", .compile .gpu 1 args none,
    .compile .host 0 args (some "mine"), .invalidate 1]

def Sample.served : Engine := Sample.history.foldl EngineRequest.handle { machine := Sample.machine }

theorem compile_transparent_sample :
    ∃ built after, exec (Engine.compile .gpu 0 Sample.args) Sample.served = (.ok built, after) ∧
      ∃ signature, built.unit.key = ⟨0, signature, .gpu⟩ ∧ built.unit.function = Sample.blend ∧
        Sample.served.Rebuilds Sample.blend built.unit.key built.unit ∧
        built.unit.Loaded after.machine.device := by
  have hcheck : (exec (Engine.compile .gpu 0 Sample.args) Sample.served).1.isOk = true := by
    decide +kernel
  have hfunction : Sample.served.functions[0]? = some Sample.blend := by decide +kernel
  rcases hrun : exec (Engine.compile .gpu 0 Sample.args) Sample.served with ⟨_ | built, after⟩
  · rw [hrun] at hcheck
    cases hcheck
  · have hfresh : Engine.Fresh { machine := Sample.machine } := ⟨rfl, rfl, rfl⟩
    obtain ⟨f, signature, hf, _, hkey, hunit, hagain, _, hloaded, _⟩ :=
      (compile_transparent hfresh Sample.bounded Sample.history rfl).1 hrun
    cases hfunction.symm.trans hf
    exact ⟨built, after, rfl, signature, hkey, hunit, hagain, hloaded⟩

end ArrayOffload
