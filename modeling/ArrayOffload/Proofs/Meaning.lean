import ArrayOffload.Proofs.Lockstep
import ArrayOffload.Proofs.Observed
import ArrayOffload.Proofs.Parsing

/-!
# The meaning of plans

A plan whose checks all pass means what its steps mean over a single memory. For a lowered unit that
is the body of its function, so all units of a function mean the same whatever device they were made
for.

* `CompiledUnit.checked_run_eq_reference`: any steps, as long as the call succeeds;
* `Reference.run_eq_of_planned`: the reference of a lowered unit depends on its function only;
* `CompiledUnit.run_eq_of_lowered`: units of one function show the same to their callers.
-/

namespace ArrayOffload

/-! ## Valid copies -/

namespace Call.Tracked

variable {f : Func} {shapes : List Shape} {origin : Device} {call : Call} {ref : Memory}

/-- A valid host copy is the reference's. -/
theorem host_agrees (tracked : Tracked f shapes origin call ref) {id : ArrayId}
    (hcopied : call.tracker.isCopied id = true) (valid : call.tracker.Valid .host id) :
    call.host[id]? = some (.owned (ref.read id)) := by
  obtain ⟨cells, hcells⟩ := (tracked.copies id).mp hcopied
  have hsame := tracked.coherent.host id valid
  simp only [Call.cells?, hcells] at hsame
  rw [hcells, Memory.read, ← hsame, Option.getD_some]

/-- A valid device copy is in an allocated buffer and is the reference's. -/
theorem device_agrees (tracked : Tracked f shapes origin call ref) {id : ArrayId}
    (hcopied : call.tracker.isCopied id = true) (valid : call.tracker.Valid .device id) :
    ∃ handle, call.buffers[id]? = some (some handle) ∧
      call.machine.device.cells? handle = some (ref.read id) := by
  obtain ⟨own, hown⟩ := (tracked.copies id).mp hcopied
  obtain ⟨cells, hcells, _⟩ :=
    tracked.coherent.ref_sized (tracked.coherent.intact.lt_of_storage hown)
  have hsame := tracked.coherent.device id valid
  simp only [deviceCells?, handleOf?, hown, hcells, Option.bind_eq_some_iff,
    Option.join_eq_some_iff] at hsame
  obtain ⟨handle, hhandle, hdevice⟩ := hsame
  refine ⟨handle, hhandle, ?_⟩
  rw [hdevice, Memory.read, hcells, Option.getD_some]

end Call.Tracked

/-- The parts of a unit fit together whatever its steps are. -/
theorem CompiledUnit.Sound.withSteps {unit : CompiledUnit} (sound : unit.Sound)
    (steps : List Step) : CompiledUnit.Sound { unit with steps } :=
  ⟨sound.wellFormed, sound.regions, sound.kernels⟩

/-- Residency checks are sound for every plan. Give a lowered unit any steps that refer to what it
has, in any order. If a call carries them all out, it has printed what the same steps print over a
single memory, and the returned array and the arguments hold what that memory holds in the end. After
each step on the way, the copies that the tracker calls valid are those of that memory. -/
theorem CompiledUnit.checked_run_eq_reference {profile : Profile} {f : Func} {key : UnitKey}
    {fingerprint : ContentHash} {before lowered : Machine} {unit : CompiledUnit} (built : f.Built)
    (hlowered : exec (Lowering.run profile f key fingerprint) before = (.ok unit, lowered))
    {steps : List Step} (indexed : ∀ step ∈ steps, step.WellIndexed unit) {args : List ArrayValue}
    (accepted : Signature.ofArgs f args = .ok key.signature) (table : HostTable)
    {machine : Machine} (bounded : machine.device.Bounded)
    (live : ∀ arg ∈ args, arg.Live machine.device) (loaded : unit.Loaded machine.device) :
    (∀ outcome, ({ unit with steps }.run table args machine).result = .ok outcome →
      ({ unit with steps }.run table args machine).observed =
        Reference.run { unit with steps } table args machine.device.pool) ∧
    ∀ (call : Call) (shapes : List Shape),
      Call.start { unit with steps } table args machine = .ok (call, shapes) →
      ∀ (done : List Step) (mid : Call), done <+: steps →
        exec (done.forM (Call.step { unit with steps } shapes table)) call = (.ok (), mid) →
        ∃ ref, (Memory.start f shapes args machine.device.pool).evaluate f shapes table
            (done.flatMap unit.opsOf) = (.ok (), ref) ∧
          ∀ id, mid.tracker.isCopied id = true →
            (mid.tracker.Valid .host id → mid.host[id]? = some (.owned (ref.read id))) ∧
            (mid.tracker.Valid .device id → ∃ handle,
              mid.buffers[id]? = some (some handle) ∧
              mid.machine.device.cells? handle = some (ref.read id)) := by
  obtain ⟨partition, placed, tracker, body, planned⟩ := Lowering.run_planned hlowered
  have sound := (planned.sound built).withSteps steps
  obtain rfl := planned.function_eq
  have haccepted : unit.key.signature.Accepts unit.function args := by
    rw [planned.key_eq]
    exact Signature.ofArgs_ok accepted
  refine ⟨fun outcome hok => ?_, fun call shapes hstart done mid hdone hexec => ?_⟩
  · obtain ⟨_, _, _, hstart, _⟩ := exists_of_run_ok hok
    rcases run_follows sound indexed hstart haccepted bounded live loaded with
      ⟨stop, hstop, _⟩ | hsame
    · rw [hok] at hstop
      cases hstop
    · exact hsame
  · have started := Call.start_ok hstart
    have tracked := started.tracked sound.wellFormed haccepted bounded live
    have followed := Call.steps_follow sound started.resolved haccepted loaded
      (fun step hstep => indexed step (hdone.subset hstep)) tracked
    unfold Call.Follows at followed
    rw [hexec, started.memory_eq] at followed
    obtain ⟨ref, href, hmid⟩ := followed
    exact ⟨ref, href, fun id hcopied =>
      ⟨fun valid => hmid.host_agrees hcopied valid, fun valid => hmid.device_agrees hcopied valid⟩⟩

/-- Steps for `Sample.blend` that no plan has: arrays are copied in twice, kernels run out of turn
and regions run where the plan does not run them. All checks pass all the same. -/
def Sample.detour : List Step :=
  [.copyIn 0, .copyIn 3, .launch 0, .copyOut 3, .hostRegion 1, .hostOp 3, .copyIn 0, .copyIn 0,
    .launch 2, .launch 0, .copyOut 3, .hostOp 2, .hostRegion 2]

theorem CompiledUnit.checked_run_eq_reference_sample : ∃ unit lowered outcome,
    Sample.lower .gpu Sample.machine = (.ok unit, lowered) ∧
    ({ unit with steps := Sample.detour }.run Sample.table Sample.args lowered).result =
      .ok outcome ∧
    ({ unit with steps := Sample.detour }.run Sample.table Sample.args lowered).observed =
      Reference.run { unit with steps := Sample.detour } Sample.table Sample.args
        lowered.device.pool := by
  obtain ⟨unit, lowered, hlowered, hcheck⟩ := Sample.lower_of_check .gpu Sample.machine
    (fun unit lowered =>
      ({ unit with steps := Sample.detour }.run Sample.table Sample.args lowered).result.toBool &&
      decide (unit.function.arrays.length = 4 ∧ unit.function.body.length = 5 ∧
        unit.kernels.length = 3 ∧ unit.regions.length = 3)) (by decide +kernel)
  simp only [Bool.and_eq_true, decide_eq_true_eq] at hcheck
  obtain ⟨hok, harrays, hbody, hkernels, hregions⟩ := hcheck
  have indexed : ∀ step ∈ Sample.detour, step.WellIndexed unit := by
    simp [Sample.detour, Step.WellIndexed, harrays, hbody, hkernels, hregions]
  have kept := Lowering.run_preserves hlowered
  obtain ⟨hsame, _⟩ := checked_run_eq_reference Sample.blend_built hlowered indexed
    (Sample.accepted .gpu) Sample.table (kept.bounded Sample.bounded)
    (fun arg harg => (Sample.args_live arg harg).1.preserved Sample.bounded kept)
    (Lowering.run_loaded hlowered)
  cases hresult :
      ({ unit with steps := Sample.detour }.run Sample.table Sample.args lowered).result with
  | error stop =>
    rw [hresult] at hok
    cases hok
  | ok outcome => exact ⟨unit, lowered, outcome, hlowered, hresult, hsame outcome hresult⟩

/-! ## The body over a single memory -/

/-- What is seen of a lowered unit's reference depends on the function only. -/
theorem Reference.run_eq_of_planned {profile profile' : Profile} {f : Func} {key key' : UnitKey}
    {partition partition' : Partition} {placed placed' : Placement.Launches}
    {tracker tracker' : Tracker} {body body' : Draft} {unit unit' : CompiledUnit}
    (planned : Lowering.Planned profile f key partition placed tracker body unit)
    (planned' : Lowering.Planned profile' f key' partition' placed' tracker' body' unit')
    (table : HostTable) (args : List ArrayValue) (pool : HandleTable Cells) :
    run unit table args pool = run unit' table args pool := by
  simp only [run, planned.function_eq, planned'.function_eq, planned.opsOf_steps,
    planned'.opsOf_steps]

/-! ## Faults -/

/-- What a host function is asked when a call of it is carried out. -/
def Call.request (f : Func) (call : Call) (callee : String) (reads writes : List ArrayId) :
    HostCall :=
  let named (id : ArrayId) : NamedCells := ⟨f.labelOf id, call.read id⟩
  ⟨callee, reads.map named, writes.map named⟩

/-- From this start, the operations of the body lead to a call of a host function that faults on
what it is asked. -/
def Func.FaultsInCall (f : Func) (shapes : List Shape) (table : HostTable) (call : Call) : Prop :=
  ∃ done callee reads writes rest mid hostFn, f.body = done ++ .call callee reads writes :: rest ∧
    exec (done.forM (Call.hostOp f shapes table)) call = (.ok (), mid) ∧
    table.find? callee = some hostFn ∧
    hostFn (mid.request f callee reads writes) = .error .fault

section
variable {f : Func} {shapes : List Shape} {table : HostTable} {args : List ArrayValue}

/-- Of all operations only calls of host functions fault. -/
theorem Op.effect_fault {call : Call} {op : Op}
    (h : op.effect f shapes table call.read = .error .fault) :
    ∃ callee reads writes hostFn, op = .call callee reads writes ∧
      table.find? callee = some hostFn ∧
      hostFn (call.request f callee reads writes) = .error .fault := by
  cases op with
  | map | reduce | scan | store | print => cases h
  | call callee reads writes =>
    unfold Op.effect at h
    cases hfind : table.find? callee with
    | none =>
      simp only [hfind] at h
      cases h
    | some hostFn =>
      simp only [hfind] at h
      split at h
      · next stop hstop =>
        cases stop with
        | error message => cases h
        | fault => exact ⟨callee, reads, writes, hostFn, rfl, hfind, hstop⟩
      · cases h

namespace Call

/-- Operations of the body fault only in a host function. -/
theorem faults_of_evaluate (wf : f.Checked) (res : Shapes.Resolved f args table shapes)
    {call : Call} (sized : call.Sized f shapes)
    (h : (call.memory.evaluate f shapes table f.body).1 = .error .fault) :
    f.FaultsInCall shapes table call := by
  obtain ⟨final, hexec, _, _⟩ := exec_hostOps wf res sized fun op hop => hop
  rw [h] at hexec
  obtain ⟨done, op, rest, mid, hbody, hdone, hfault⟩ := exec_forM_error hexec
  have hops : ∀ other ∈ done ++ [op], other ∈ f.body := by
    intro other ho
    rw [hbody]
    exact List.mem_append.mpr ((List.mem_append.mp ho).imp_right (by simp_all))
  have hbefore : ∀ other ∈ done, other ∈ f.body := fun other ho => hops other (by simp [ho])
  obtain ⟨after, hafter, _, hsized⟩ := exec_hostOps wf res sized hbefore
  obtain rfl : mid = after := congrArg Prod.snd (hdone.symm.trans hafter)
  rw [exec_hostOp wf res hsized (hops op (by simp))] at hfault
  cases heffect : op.effect f shapes table mid.read with
  | ok effect =>
    rw [heffect] at hfault
    cases hfault
  | error stop =>
    rw [heffect] at hfault
    cases hfault
    obtain ⟨callee, reads, writes, hostFn, rfl, hfind, hcall⟩ := Op.effect_fault heffect
    exact ⟨done, callee, reads, writes, rest, _, hostFn, hbody, hdone, hfind, hcall⟩

end Call

end

/-! ## Lowered units -/

namespace Lowering.Planned

variable {profile : Profile} {f : Func} {key : UnitKey} {partition : Partition}
  {placed : Placement.Launches} {tracker : Tracker} {body : Draft} {unit : CompiledUnit}
  {args : List ArrayValue} {table : HostTable} {machine : Machine}

/-- A lowered unit that starts is never refused: its copies are not stale, there is memory for the
device's copies and for transfers, and no failure is planned. -/
theorem run_observed (planned : Planned profile f key partition placed tracker body unit)
    (built : f.Built) (accepted : key.signature.Accepts f args) (bounded : machine.device.Bounded)
    (live : ∀ arg ∈ args, arg.Live machine.device)
    (fits : ∀ arg ∈ args, refusal? arg.shape.size = none)
    (ample : ∀ demand ∈ machine.device.scarce, ∃ array, demand.purpose = .scratch array)
    (undisturbed : machine.device.failLaunch = none) (loaded : unit.Loaded machine.device)
    {call : Call} {shapes : List Shape}
    (hstart : Call.start unit table args machine = .ok (call, shapes)) :
    (unit.run table args machine).observed =
      Reference.run unit table args machine.device.pool := by
  have sound := planned.sound built
  obtain rfl := planned.function_eq
  have haccepted : unit.key.signature.Accepts unit.function args := by
    rw [planned.key_eq]
    exact accepted
  rcases CompiledUnit.run_follows sound planned.indexed hstart haccepted bounded live
      loaded with ⟨stop, hresult, refused⟩ | hsame
  · have started := Call.start_ok hstart
    cases refused with
    | stale name location state =>
      rcases planned.run_error built.wellFormed accepted hresult with h | h
      · cases h
      · cases h
    | @full id purpose after reason declared working refused =>
      have left : ⟨purpose, after, sizeAt shapes id⟩ ∉ machine.device.scarce := by
        intro hmem
        obtain ⟨array, harray⟩ := ample _ hmem
        exact working array harray
      rw [Demand.refusal?, if_neg left, Option.or_none] at refused
      -- the host holds an array of that size already, so there is memory for another
      obtain ⟨storage, hstorage⟩ : ∃ storage, call.host[id]? = some storage :=
        ⟨_, List.getElem?_eq_getElem (started.host_length ▸ declared)⟩
      rcases started.host_cases sound.wellFormed haccepted hstorage with
        ⟨_, _, arg, _, _, harg, _, _, hsize, _⟩ | ⟨_, _, _, hfits, _⟩
      · rw [← hsize, fits arg (List.mem_of_getElem? harg)] at refused
        cases refused
      · rw [hfits] at refused
        cases refused
    | injected planned =>
      rw [undisturbed] at planned
      cases planned
  · exact hsame

theorem reference_fault (planned : Planned profile f key partition placed tracker body unit)
    (built : f.Built) (accepted : key.signature.Accepts f args)
    (bounded : machine.device.Bounded) (live : ∀ arg ∈ args, arg.Live machine.device)
    {call : Call} {shapes : List Shape}
    (hstart : Call.start unit table args machine = .ok (call, shapes))
    (h : (Reference.run unit table args machine.device.pool).result = .error .fault) :
    f.FaultsInCall shapes table call := by
  have wf := built.wellFormed
  obtain rfl := planned.function_eq
  have haccepted : unit.key.signature.Accepts unit.function args := by
    rw [planned.key_eq]
    exact accepted
  have started := Call.start_ok hstart
  have sized := (started.intact wf haccepted bounded live).sized
  refine Call.faults_of_evaluate wf.toChecked started.resolved sized ?_
  simp only [Reference.run, Call.resolve_of_start hstart, ← started.memory_eq,
    planned.opsOf_steps] at h
  split at h
  · next stop final hfinal =>
    cases h
    exact congrArg Prod.fst hfinal
  · cases h

end Lowering.Planned

/-- Offloading preserves meaning. Take two units of one function for arguments of the same kinds,
lowered for any devices: one may run on the host and the other on a device that takes some of the
regions. If memory runs out, then only where both calls ask for it, at their start. From the same
arguments their callers see the same, whether the calls succeed or fail, and neither call faults
unless a host function faults on what it is asked. -/
theorem CompiledUnit.run_eq_of_lowered {profile profile' : Profile} {f : Func} {key key' : UnitKey}
    {fingerprint fingerprint' : ContentHash} {before before' lowered lowered' : Machine}
    {unit unit' : CompiledUnit}
    (made : f.Built ∨ ∃ source funcs, Source.parseSource source = .ok funcs ∧ f ∈ funcs)
    (hlowered : exec (Lowering.run profile f key fingerprint) before = (.ok unit, lowered))
    (hlowered' : exec (Lowering.run profile' f key' fingerprint') before' = (.ok unit', lowered'))
    {args : List ArrayValue} (accepted : Signature.ofArgs f args = .ok key.signature)
    (accepted' : Signature.ofArgs f args = .ok key'.signature) (table : HostTable)
    {machine : Machine} (bounded : machine.device.Bounded)
    (live : ∀ arg ∈ args, arg.Live machine.device)
    (fits : ∀ arg ∈ args, refusal? arg.shape.size = none)
    (ample : ∀ demand ∈ machine.device.scarce, ∃ array, demand.purpose = .scratch array)
    (undisturbed : machine.device.failLaunch = none)
    (loaded : unit.Loaded machine.device) (loaded' : unit'.Loaded machine.device) :
    (unit.run table args machine).observed = (unit'.run table args machine).observed ∧
    ((unit.run table args machine).result = .error .fault →
      ∃ call shapes, Call.start unit table args machine = .ok (call, shapes) ∧
        f.FaultsInCall shapes table call) ∧
    ((unit'.run table args machine).result = .error .fault →
      ∃ call shapes, Call.start unit' table args machine = .ok (call, shapes) ∧
        f.FaultsInCall shapes table call) := by
  have built : f.Built := by
    rcases made with built | ⟨source, funcs, hparse, hf⟩
    · exact built
    · exact Source.parseSource_built hparse hf
  obtain ⟨_, _, _, _, planned⟩ := Lowering.run_planned hlowered
  obtain ⟨_, _, _, _, planned'⟩ := Lowering.run_planned hlowered'
  have hsignature : key.signature = key'.signature := Except.ok.inj (accepted.symm.trans accepted')
  have hsame : Call.start unit table args machine = Call.start unit' table args machine := by
    simp only [Call.start, planned.function_eq, planned'.function_eq, planned.key_eq,
      planned'.key_eq, hsignature]
  cases hstart : Call.start unit table args machine with
  | error stop =>
    -- neither call starts, for the same reason, and that is no fault
    have rejection : Call.Rejection table stop := by
      refine Call.start_rejection ?_ ?_ hstart
      · rw [planned.function_eq]
        exact built.wellFormed.toChecked
      · rw [planned.key_eq, planned.function_eq]
        exact Signature.ofArgs_ok accepted
    rw [run_of_rejected hstart, run_of_rejected (hsame ▸ hstart)]
    refine ⟨rfl, fun hfault => ?_, fun hfault => ?_⟩ <;>
    · cases hfault
      cases rejection
  | ok opened =>
    obtain ⟨call, shapes⟩ := opened
    have hstart' := hsame ▸ hstart
    have hseen := planned.run_observed built (Signature.ofArgs_ok accepted) bounded live
      fits ample undisturbed loaded hstart
    have hseen' := planned'.run_observed built (Signature.ofArgs_ok accepted') bounded live
      fits ample undisturbed loaded' hstart'
    refine ⟨?_, fun hfault => ⟨call, shapes, rfl, ?_⟩, fun hfault => ⟨call, shapes, hstart', ?_⟩⟩
    · rw [hseen, hseen']
      exact Reference.run_eq_of_planned planned planned' table args machine.device.pool
    · refine planned.reference_fault built (Signature.ofArgs_ok accepted) bounded live hstart ?_
      rw [← hseen, CallResult.observed, hfault]
      rfl
    · refine planned'.reference_fault built (Signature.ofArgs_ok accepted') bounded live hstart' ?_
      rw [← hseen', CallResult.observed, hfault]
      rfl

/-- `Sample.blend` on the host and on a device that takes all its maps. The arguments were made
before both units were compiled; two of them name the same memory. -/
theorem CompiledUnit.run_eq_of_lowered_sample : ∃ host middle unit lowered,
    Sample.lower .host Sample.machine = (.ok host, middle) ∧
    Sample.lower .gpu middle = (.ok unit, lowered) ∧
    host.kernels.length = 0 ∧ unit.kernels.length = 3 ∧
    (unit.run Sample.table Sample.args lowered).result.toBool = true ∧
    (host.run Sample.table Sample.args lowered).observed =
      (unit.run Sample.table Sample.args lowered).observed := by
  obtain ⟨host, middle, hhost, hnone⟩ := Sample.lower_of_check .host Sample.machine
    (fun unit _ => decide (unit.kernels.length = 0)) (by decide +kernel)
  obtain ⟨unit, lowered, hunit, hcheck⟩ :=
    Sample.lower_of_check .gpu (Sample.lower .host Sample.machine).2
      (fun unit lowered => (unit.run Sample.table Sample.args lowered).result.toBool &&
        decide (unit.kernels.length = 3)) (by decide +kernel)
  rw [hhost] at hunit
  simp only [Bool.and_eq_true, decide_eq_true_eq] at hcheck hnone
  have kept := Lowering.run_preserves hunit
  have all := (Lowering.run_preserves hhost).trans kept
  have undisturbed : lowered.device.failLaunch = none := all.failLaunch
  have ample : lowered.device.scarce = [] := all.scarce
  have loaded : host.Loaded lowered.device := fun kernel hkernel =>
    ((Lowering.run_ok hhost).2.preserved kept kernel hkernel).2
  obtain ⟨hsame, _, _⟩ := run_eq_of_lowered (.inl Sample.blend_built) hhost hunit
    (Sample.accepted .host) (Sample.accepted .gpu) Sample.table (all.bounded Sample.bounded)
    (fun arg harg => (Sample.args_live arg harg).1.preserved Sample.bounded all)
    (fun arg harg => (Sample.args_live arg harg).2) (by simp [ample]) undisturbed loaded
    (Lowering.run_loaded hunit)
  exact ⟨host, middle, unit, lowered, hhost, hunit, hnone, hcheck.2, hcheck.1, hsame⟩

end ArrayOffload
