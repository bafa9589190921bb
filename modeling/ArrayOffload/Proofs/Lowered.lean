import ArrayOffload.Plan.Lowering
import ArrayOffload.Proofs.Drafting
import ArrayOffload.Proofs.HandleTable
import ArrayOffload.Proofs.Reference

/-!
# Lowered units

What compilation of a function gives: the finished draft of its body, with a program on the device
for each launch.

* `Lowering.Planned`, `Lowering.run_planned`: the parts of a lowered unit;
* `Lowering.trail?`: the drafts right after each of its steps;
* `Lowering.Planned.path`: they lead through the whole body;
* `Lowering.Planned.sound`, `Lowering.Planned.indexed`: its parts fit together;
* `Lowering.Planned.opsOf_steps`: its steps carry out the body in order;
* `Lowering.run_loaded`: its programs are on the device.
-/

namespace ArrayOffload

/-! ## The operations of a body -/

theorem filterMap_range' {α : Type} (xs : List α) {first count : Nat}
    (h : first + count ≤ xs.length) :
    (List.range' first count).filterMap (xs[·]?) = (xs.drop first).take count := by
  induction count generalizing first with
  | zero => rfl
  | succ count ih =>
    have hlt : first < xs.length := by omega
    rw [List.range'_succ, List.filterMap_cons, List.getElem?_eq_getElem hlt,
      ih (by omega), List.drop_eq_getElem_cons hlt, List.take_succ_cons]

/-- The operations at the positions of a segment. -/
theorem Partition.Sound.ops_eq {f : Func} {p : Partition} {n : Nat} (sound : p.Sound f n)
    (segment : Segment) :
    segment.ops f p.regions = (segment.positions p.regions).filterMap (f.body[·]?) := by
  cases segment with
  | region index =>
    cases h : p.regions[index]? with
    | none => simp [Segment.ops, Segment.positions, h]
    | some region =>
      obtain ⟨_, hsound⟩ := sound.regions h
      have hlt := hsound.first_lt
      have hle := hsound.stop_le
      simp only [Segment.ops, Segment.positions, h, Option.elim_some, Region.ops]
      rw [filterMap_range' f.body (by omega), List.drop_take]
  | hostOp index => cases h : f.body[index]? <;> simp [Segment.ops, Segment.positions, h]

/-- The segments of a body hold its operations, each once, in order. -/
theorem Partition.Sound.ops_segments {f : Func} {p : Partition}
    (sound : p.Sound f f.body.length) : p.segments.flatMap (Segment.ops f p.regions) = f.body := by
  have hops : Segment.ops f p.regions = fun segment =>
      (segment.positions p.regions).filterMap (f.body[·]?) := funext sound.ops_eq
  rw [hops, ← List.filterMap_flatMap, sound.covered, List.range_eq_range',
    filterMap_range' f.body (by omega), List.drop_zero, List.take_length]

/-! ## Placements -/

theorem Placement.choose?_implements {profile : Profile} {f : Func} {region : Region}
    {plan : LaunchPlan} (h : choose? profile f region = some (.ok plan)) :
    plan.Implements f region := by
  unfold choose? at h
  split at h
  · next hlaunch =>
    cases h
    exact launchOf_implements hlaunch
  · cases h
  · cases h

/-- What is placed on the device is the launch of its region. -/
theorem Lowering.place?_fits {profile : Profile} {f : Func} {strategy : Strategy}
    {partition : Partition} {n : Nat} (sound : partition.Sound f n) {placed : Placement.Launches}
    {fallbacks : List RegionError}
    (h : place? profile f strategy partition.regions = some (placed, fallbacks)) :
    Placement.Fits f partition.regions placed := by
  intro index plan region hplaced hregion
  cases strategy with
  | hostParallel =>
    cases h
    simp only [Placement.allOnHost, List.getElem?_map, hregion, Option.map_some,
      Option.join_some] at hplaced
    cases hplaced
  | offload =>
    simp only [place?, Option.map_eq_some_iff, Prod.mk.injEq] at h
    obtain ⟨choices, hchoices, rfl, _⟩ := h
    obtain ⟨choice, hchoice, hchosen⟩ := get?_of_map_some (mapM_some hchoices) hregion
    cases choice with
    | error cause => simp [Placement.launches, hchoice, Except.toOption] at hplaced
    | ok found =>
      simp only [Placement.launches, List.getElem?_map, hchoice, Option.map_some, Except.toOption,
        Option.join_some, Option.some.injEq] at hplaced
      subst hplaced
      have impl := Placement.choose?_implements hchosen
      exact ⟨impl.parts.2.1.trans (sound.regions hregion).1, impl⟩

/-! ## Programs -/

/-- A new program gets a new handle; memory stays as it is. -/
theorem Device.compile_ok {kernel : Kernel} {device after : Device} {handle : Nat}
    (h : exec (compile kernel) device = (.ok handle, after)) :
    (handle = device.lastHandle + 1 ∧ after.lastHandle = handle ∧
      after.programs = device.programs.set handle kernel) ∧
    after.buffers = device.buffers ∧ after.pool = device.pool ∧
      after.failLaunch = device.failLaunch ∧ after.scarce = device.scarce := by
  simp only [compile, exec_bind_eq_ok] at h
  obtain ⟨failure, mid, hfailure, h⟩ := h
  -- Only the planned failure has changed so far.
  have hmid : mid.lastHandle = device.lastHandle ∧ mid.programs = device.programs ∧
      mid.buffers = device.buffers ∧ mid.pool = device.pool ∧
      mid.failLaunch = device.failLaunch ∧ mid.scarce = device.scarce := by
    simp only [takeCompileFailure, exec_bind_eq_ok, exec_get, Prod.mk.injEq,
      Except.ok.injEq] at hfailure
    obtain ⟨_, _, ⟨rfl, rfl⟩, hfailure⟩ := hfailure
    split at hfailure
    · cases hfailure
      exact ⟨rfl, rfl, rfl, rfl, rfl, rfl⟩
    · cases hfailure
      exact ⟨rfl, rfl, rfl, rfl, rfl, rfl⟩
    · cases hfailure
      exact ⟨rfl, rfl, rfl, rfl, rfl, rfl⟩
  obtain ⟨hlast, hprograms, hmemory⟩ := hmid
  cases failure with
  | some reason => cases h
  | none =>
    cases h
    exact ⟨⟨congrArg (· + 1) hlast, rfl, by simp [hprograms, hlast]⟩, hmemory⟩

namespace Lowering

/-- These programs are on the device. -/
def Ready (kernels : List CompiledKernel) (device : Device) : Prop :=
  ∀ kernel ∈ kernels, kernel.program ≤ device.lastHandle ∧
    device.programs.get? kernel.program = some kernel.plan.kernel

variable {profile : Profile} {f : Func} {key : UnitKey} {fingerprint : ContentHash}
  {before after : Machine} {unit : CompiledUnit}

theorem compileKernel_ok {done : List CompiledKernel} {plan : LaunchPlan}
    {kernel : CompiledKernel} (ready : Ready done before.device)
    (h : exec (compileKernel profile done plan) before = (.ok kernel, after)) :
    kernel.plan = plan ∧ Ready (done ++ [kernel]) after.device := by
  simp only [compileKernel, exec_bind, exec_get] at h
  split at h
  · next program device hcompile =>
    obtain ⟨⟨hprogram, hlast, hprograms⟩, _⟩ := Device.compile_ok hcompile
    cases h
    refine ⟨rfl, fun other ho => ?_⟩
    change other.program ≤ device.lastHandle ∧ device.programs.get? other.program = _
    rw [hlast, hprograms, HandleTable.get?_set]
    rcases List.mem_append.mp ho with hold | hnew
    · obtain ⟨hle, hget⟩ := ready other hold
      rw [if_neg (by omega), hget]
      exact ⟨by omega, rfl⟩
    · rw [List.mem_singleton] at hnew
      subst hnew
      exact ⟨Nat.le_refl _, by rw [if_pos rfl]⟩
  · cases h

theorem compileAll_ok {plans : List LaunchPlan} {done kernels : List CompiledKernel}
    (ready : Ready done before.device)
    (h : exec (compileAll profile done plans) before = (.ok kernels, after)) :
    kernels.map (·.plan) = done.map (·.plan) ++ plans ∧ Ready kernels after.device := by
  induction plans generalizing done before with
  | nil =>
    cases h
    exact ⟨by simp, ready⟩
  | cons plan rest ih =>
    simp only [compileAll, exec_bind_eq_ok] at h
    obtain ⟨kernel, mid, hkernel, hrest⟩ := h
    obtain ⟨hplan, hready⟩ := compileKernel_ok ready hkernel
    obtain ⟨hplans, hall⟩ := ih hready hrest
    exact ⟨by simp [hplans, hplan], hall⟩

/-! ## The parts of a unit -/

/-- The unit of a function under a key, and how its plan came about. -/
structure Planned (profile : Profile) (f : Func) (key : UnitKey) (partition : Partition)
    (placed : Placement.Launches) (tracker : Tracker) (body : Draft) (unit : CompiledUnit) :
    Prop where
  partitioned : f.partition? = some partition
  places : place? profile f (strategyFor key.context) partition.regions =
    some (placed, unit.fallbacks)
  started : Tracker.start? f key.signature = some tracker
  drafted : (Draft.start tracker).extendAll f partition.regions placed partition.segments = .ok body
  key_eq : unit.key = key
  function_eq : unit.function = f
  regions_eq : unit.regions = partition.regions
  steps_eq : unit.steps = body.finish.steps
  bindings_eq : unit.bindings = body.finish.tracker.bindings
  transfers_eq : unit.transfers = body.finish.transfers
  bodyEnd_eq : unit.bodyEnd = body.tracker.states
  atExit_eq : unit.atExit = body.finish.tracker.states
  plans_eq : unit.kernels.map (·.plan) = body.launches

/-- A lowered unit is planned, and its programs are on the device. -/
theorem run_ok (h : exec (run profile f key fingerprint) before = (.ok unit, after)) :
    (∃ partition placed tracker body, Planned profile f key partition placed tracker body unit) ∧
      Ready unit.kernels after.device := by
  simp only [run, exec_bind_eq_ok, exec_ofExcept, Prod.mk.injEq, orFault_eq_ok] at h
  obtain ⟨outline, _, ⟨houtline, rfl⟩, _, logged, _, kernels, compiled, hkernels, h⟩ := h
  obtain ⟨hplans, hready⟩ := compileAll_ok (by simp [Ready]) hkernels
  simp only [outline?, Option.bind_eq_bind, Option.bind_eq_some_iff] at houtline
  obtain ⟨partition, hpartition, tracker, htracker, ⟨placed, fallbacks⟩, hplaced, hsame⟩ := houtline
  cases hsame
  cases hbody : (Draft.start tracker).extendAll f partition.regions placed partition.segments with
  | error draft =>
    rw [hbody] at h
    cases h
  | ok body =>
    rw [hbody] at h
    cases h
    refine ⟨⟨partition, placed, tracker, body, hpartition, hplaced, htracker, hbody, rfl, rfl, rfl,
      rfl, rfl, rfl, rfl, rfl, ?_⟩, hready⟩
    simpa [launchesOf, hbody, assemble] using hplans

theorem run_planned (h : exec (run profile f key fingerprint) before = (.ok unit, after)) :
    ∃ partition placed tracker body,
      Planned profile f key partition placed tracker body unit := (run_ok h).1

theorem run_loaded (h : exec (run profile f key fingerprint) before = (.ok unit, after)) :
    unit.Loaded after.device := fun kernel hk => ((run_ok h).2 kernel hk).2

/-- The drafts right after each step of a plan. -/
def trail? (profile : Profile) (f : Func) (signature : Signature) (context : DeviceContext) :
    Option (List Draft) := do
  let partition ← f.partition?
  let tracker ← Tracker.start? f signature
  let (placed, _) ← place? profile f (strategyFor context) partition.regions
  let start := Draft.start tracker
  match start.extendAll f partition.regions placed partition.segments with
  | .error _ => none
  | .ok body =>
    some (start.bodyTrail f partition.regions placed partition.segments ++ body.finishTrail)

end Lowering

/-! ## Steps and what they refer to -/

namespace Step

/-- The record of a transfer that is the step of this number. -/
def transfer? (index : Nat) : Step → Option Transfer
  | .copyIn id => some ⟨id, .toDevice, index⟩
  | .copyOut id => some ⟨id, .toHost, index⟩
  | .launch _ | .hostRegion _ | .hostOp _ => none

/-- The records of all transfers among some steps, in order. -/
def transfers (steps : List Step) : List Transfer :=
  steps.zipIdx.filterMap fun (step, index) => step.transfer? index

def isLaunch : Step → Bool
  | .launch _ => true
  | .copyIn _ | .copyOut _ | .hostRegion _ | .hostOp _ => false

def isCopyIn : Step → Bool
  | .copyIn _ => true
  | .copyOut _ | .launch _ | .hostRegion _ | .hostOp _ => false

def isCopyOut : Step → Bool
  | .copyOut _ => true
  | .copyIn _ | .launch _ | .hostRegion _ | .hostOp _ => false

/-- Records are counted by counting the steps that have one. -/
theorem countP_transfers {counted : Transfer → Bool} {kind : Step → Bool}
    (h : ∀ step index, (transfer? index step).any counted = kind step) (steps : List Step) :
    (transfers steps).countP counted = steps.countP kind := by
  have hfrom : ∀ (steps : List Step) (start : Nat),
      ((steps.zipIdx start).filterMap fun (step, index) => step.transfer? index).countP counted =
        steps.countP kind := by
    intro steps
    induction steps with
    | nil => exact fun _ => rfl
    | cons step rest ih =>
      intro start
      have hstep := h step start
      cases ht : step.transfer? start with
      | none => simp_all [List.zipIdx_cons, ← hstep]
      | some record => simp_all [List.zipIdx_cons, List.countP_cons, ← hstep]
  exact hfrom steps 0

theorem copyIns_transfers (steps : List Step) :
    ((transfers steps).filter (·.direction = .toDevice)).length = steps.countP isCopyIn := by
  rw [← List.countP_eq_length_filter]
  exact countP_transfers (fun step index => by cases step <;> rfl) steps

theorem copyOuts_transfers (steps : List Step) :
    ((transfers steps).filter (·.direction = .toHost)).length = steps.countP isCopyOut := by
  rw [← List.countP_eq_length_filter]
  exact countP_transfers (fun step index => by cases step <;> rfl) steps

theorem length_transfers (steps : List Step) :
    (transfers steps).length = steps.countP isCopyIn + steps.countP isCopyOut := by
  rw [List.length_eq_countP_add_countP (fun record => record.direction = .toDevice)]
  refine congr (congrArg _ ?_) ?_
  · exact countP_transfers (fun step index => by cases step <;> rfl) steps
  · exact countP_transfers (fun step index => by cases step <;> rfl) steps

theorem transfers_append (steps : List Step) (step : Step) :
    transfers (steps ++ [step]) = transfers steps ++ (step.transfer? steps.length).toList := by
  simp only [transfers, List.zipIdx_append, List.filterMap_append, Nat.zero_add]
  cases h : step.transfer? steps.length <;> simp [h]

end Step

namespace Draft

variable {f : Func} {regions : List Region} {draft next last : Draft} {step : Step}
  {ops : List Op} {trail : List Draft}

/-- What a draft keeps track of agrees with its steps. -/
structure Tallied (draft : Draft) : Prop where
  transfers : draft.transfers = Step.transfers draft.steps
  launches : draft.launches.length = draft.steps.countP Step.isLaunch

theorem Emits.tallied (h : Emits f regions draft step ops next) (tallied : draft.Tallied) :
    next.Tallied := by
  refine ⟨?_, ?_⟩
  · rw [h.steps, Step.transfers_append, ← tallied.transfers]
    cases h with
    | copyIn | copyOut => rfl
    | launch | hostRegion | hostOp => exact (List.append_nil _).symm
  · rw [h.steps, List.countP_append, ← tallied.launches]
    cases h with
    | launch => exact List.length_append
    | copyIn | copyOut | hostRegion | hostOp => rfl

theorem Path.tallied (h : Path f regions draft trail ops last) (tallied : draft.Tallied) :
    last.Tallied := by
  induction h with
  | nil => exact tallied
  | cons emits _ ih => exact ih (emits.tallied tallied)

theorem Emits.launches (h : Emits f regions draft step ops next) :
    draft.launches <+: next.launches := by
  cases h with
  | launch => exact List.prefix_append _ _
  | copyIn | copyOut | hostRegion | hostOp => exact List.prefix_refl _

theorem Path.launches (h : Path f regions draft trail ops last) :
    draft.launches <+: last.launches := by
  induction h with
  | nil => exact List.prefix_refl _
  | cons emits _ ih => exact emits.launches.trans ih

/-- The launches of a path carry out regions. -/
theorem Path.implements (h : Path f regions draft trail ops last)
    (hold : ∀ plan ∈ draft.launches, ∃ region,
      regions[plan.kernel.region]? = some region ∧ plan.Implements f region) :
    ∀ plan ∈ last.launches, ∃ region,
      regions[plan.kernel.region]? = some region ∧ plan.Implements f region := by
  induction h with
  | nil => exact hold
  | cons emits _ ih =>
    refine ih ?_
    cases emits with
    | @launch plan region hregion impl =>
      intro other ho
      rcases List.mem_append.mp ho with ho | ho
      · exact hold other ho
      · rw [List.mem_singleton] at ho
        exact ⟨region, ho ▸ hregion, ho ▸ impl⟩
    | copyIn | copyOut | hostRegion | hostOp => exact hold

section
variable {unit : CompiledUnit} (hfunction : unit.function = f) (hregions : unit.regions = regions)

include hfunction hregions

/-- A step of a unit stands for the operations that it was emitted for. -/
theorem Emits.opsOf (h : Emits f regions draft step ops next)
    (hplans : next.launches <+: unit.kernels.map (·.plan)) : unit.opsOf step = ops := by
  subst hfunction hregions
  cases h with
  | copyIn | copyOut => rfl
  | @launch plan region hregion impl =>
    have hplan : (unit.kernels.map (·.plan))[draft.launches.length]? = some plan := by
      obtain ⟨more, hmore⟩ := hplans
      simp [← hmore, launched]
    rw [List.getElem?_map, Option.map_eq_some_iff] at hplan
    obtain ⟨kernel, hkernel, rfl⟩ := hplan
    simp [CompiledUnit.opsOf, hkernel, hregion]
  | hostRegion hregion => simp [CompiledUnit.opsOf, hregion]
  | hostOp hop => simp [CompiledUnit.opsOf, hop]

theorem Path.opsOf_steps (h : Path f regions draft trail ops last)
    (hplans : last.launches <+: unit.kernels.map (·.plan)) :
    last.steps.flatMap unit.opsOf = draft.steps.flatMap unit.opsOf ++ ops := by
  induction h with
  | nil => exact (List.append_nil _).symm
  | cons emits path ih =>
    rw [ih hplans, emits.steps, List.flatMap_append, List.flatMap_singleton,
      emits.opsOf hfunction hregions (path.launches.trans hplans), List.append_assoc]

theorem Emits.indexed (h : Emits f regions draft step ops next)
    (hc : draft.tracker.Covers f.arrays.length)
    (hplans : next.launches <+: unit.kernels.map (·.plan)) : step.WellIndexed unit := by
  subst hfunction hregions
  cases h with
  | copyIn valid => exact valid.lt hc
  | copyOut valid => exact valid.lt hc
  | launch =>
    have := hplans.length_le
    simp only [launched, List.length_append, List.length_map, List.length_singleton] at this
    exact this
  | hostRegion hregion => exact (List.getElem?_eq_some_iff.mp hregion).1
  | hostOp hop => exact (List.getElem?_eq_some_iff.mp hop).1

theorem Path.indexed (h : Path f regions draft trail ops last)
    (hc : draft.tracker.Covers f.arrays.length)
    (hplans : last.launches <+: unit.kernels.map (·.plan))
    (hold : ∀ step ∈ draft.steps, step.WellIndexed unit) :
    ∀ step ∈ last.steps, step.WellIndexed unit := by
  induction h with
  | nil => exact hold
  | cons emits path ih =>
    refine ih (emits.covers hc) hplans fun step hstep => ?_
    rw [emits.steps] at hstep
    rcases List.mem_append.mp hstep with hstep | hstep
    · exact hold step hstep
    · rw [List.mem_singleton.mp hstep]
      exact emits.indexed hfunction hregions hc (path.launches.trans hplans)

end

theorem launches_finish (draft : Draft) : draft.finish.launches = draft.launches := by
  have hcopies : ∀ (ids : List ArrayId) (draft : Draft),
      (ids.foldl copyOut draft).launches = draft.launches := by
    intro ids
    induction ids with
    | nil => exact fun _ => rfl
    | cons id rest ih => exact fun draft => ih (draft.copyOut id)
  exact hcopies _ draft

end Draft

/-! ## Whole plans -/

namespace Lowering.Planned

variable {profile : Profile} {f : Func} {key : UnitKey} {partition : Partition}
  {placed : Placement.Launches} {tracker : Tracker} {body : Draft} {unit : CompiledUnit}
  (planned : Planned profile f key partition placed tracker body unit)

include planned

theorem trail?_eq :
    trail? profile f key.signature key.context =
      some ((Draft.start tracker).bodyTrail f partition.regions placed partition.segments ++
        body.finishTrail) := by
  simp [trail?, planned.partitioned, planned.started, planned.places, planned.drafted]

theorem covers : (Draft.start tracker).tracker.Covers f.arrays.length :=
  (Tracker.start?_ok planned.started).1

theorem body_path :
    Draft.Path f partition.regions (Draft.start tracker)
      ((Draft.start tracker).bodyTrail f partition.regions placed partition.segments) f.body
      body := by
  have sound := Func.partition?_sound planned.partitioned
  have path := Draft.extendAll_path (place?_fits sound planned.places)
    (Tracker.Steady.start planned.started) planned.drafted
  rwa [sound.ops_segments] at path

/-- The drafts of a plan form a path through the body, and at its end the host has valid copies of
all that escapes. -/
theorem path_escapes :
    Draft.Path f partition.regions (Draft.start tracker)
        ((Draft.start tracker).bodyTrail f partition.regions placed partition.segments ++
          body.finishTrail) f.body body.finish ∧
      ∀ binding ∈ body.finish.tracker.bindings, binding.escapes = true →
        body.finish.tracker.Valid .host binding.array := by
  have first := planned.body_path
  have steady := first.steady (Tracker.Steady.start planned.started)
  have covers := first.covers planned.covers
  have hbound : ∀ binding ∈ body.tracker.bindings, ∃ state,
      body.tracker.state? binding.array = some state := by
    intro binding hbinding
    rw [first.bindings] at hbinding
    have hlt := Tracker.array_lt planned.started hbinding
    exact ⟨_, List.getElem?_eq_getElem (covers.states ▸ hlt)⟩
  obtain ⟨last, hescapes⟩ := Draft.finish_path f partition.regions steady hbound
  refine ⟨?_, fun binding hbinding => hescapes binding (last.bindings ▸ hbinding)⟩
  have path := first.append last
  rwa [List.append_nil] at path

theorem path :
    Draft.Path f partition.regions (Draft.start tracker)
      ((Draft.start tracker).bodyTrail f partition.regions placed partition.segments ++
        body.finishTrail) f.body body.finish := planned.path_escapes.1

theorem plans_finish : unit.kernels.map (·.plan) = body.finish.launches := by
  rw [planned.plans_eq, body.launches_finish]

theorem region_sound {index : Nat} {region : Region} (h : unit.regions[index]? = some region) :
    region.Sound f := by
  rw [planned.regions_eq] at h
  exact ((Func.partition?_sound planned.partitioned).regions h).2

theorem exists_region {kernel : CompiledKernel} (h : kernel ∈ unit.kernels) :
    ∃ region, unit.regions[kernel.plan.kernel.region]? = some region ∧
      kernel.plan.Implements f region := by
  rw [planned.regions_eq]
  refine planned.path.implements (by simp [Draft.start]) kernel.plan ?_
  rw [← planned.plans_finish]
  exact List.mem_map_of_mem h

/-- The parts of a lowered unit fit together. -/
theorem sound (built : f.Built) : unit.Sound where
  wellFormed := planned.function_eq ▸ built.wellFormed
  regions h := planned.function_eq ▸ planned.region_sound h
  kernels _ hkernel := planned.function_eq ▸ planned.exists_region hkernel

theorem indexed : ∀ step ∈ unit.steps, step.WellIndexed unit := by
  rw [planned.steps_eq]
  exact planned.path.indexed planned.function_eq planned.regions_eq planned.covers
    (planned.plans_finish ▸ List.prefix_refl _) (by simp [Draft.start])

/-- The steps of a lowered unit carry out the body in order, each operation once. -/
theorem opsOf_steps : unit.steps.flatMap unit.opsOf = f.body := by
  rw [planned.steps_eq, planned.path.opsOf_steps planned.function_eq planned.regions_eq
    (planned.plans_finish ▸ List.prefix_refl _)]
  rfl

theorem tallied : body.finish.Tallied := planned.path.tallied ⟨rfl, rfl⟩

theorem transfers_steps : unit.transfers = Step.transfers unit.steps := by
  rw [planned.transfers_eq, planned.steps_eq, planned.tallied.transfers]

theorem kernels_length : unit.kernels.length = unit.steps.countP Step.isLaunch := by
  rw [planned.steps_eq, ← planned.tallied.launches, ← planned.plans_finish, List.length_map]

end Lowering.Planned

end ArrayOffload
