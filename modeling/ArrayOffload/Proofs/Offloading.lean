import ArrayOffload.Proofs.ExactPartition
import ArrayOffload.Proofs.Extension
import ArrayOffload.Proofs.Planning

/-!
# What a unit carries out, and where

The steps of a lowered unit go through the body once, in order. On the host nothing is launched or
moved. On a device, a region is launched exactly if kernels can express it and the device supports
and accepts it; each of the others has its reason among the fallbacks.

* `Profile.Runs`, `Placement.launchOf_ok_iff`: the regions that a device runs;
* `Profile.Refuses`, `Placement.launchOf_error`: why a region stays on the host;
* `CompiledUnit.Complete`: nothing of the body is dropped, repeated or moved around;
* `Lowering.run_complete`: lowering gives such a unit, unless the device rejects a kernel.
-/

namespace ArrayOffload

/-! ## Regions that a device runs -/

/-- Kernels can express the region, and the device supports and accepts its kernel. -/
structure Profile.Runs (profile : Profile) (f : Func) (region : Region) : Prop where
  expressible : ∀ out op input, .scan out op input ∉ region.ops f
  rank_le : region.space.rank ≤ profile.maxRank
  elems : ∀ use ∈ region.uses, ∃ decl, f.decl? use.array = some decl ∧ decl.elem ∈ profile.elems
  accepted : ∃ kernel bindings, Kernel.ofRegion f region = .ok (kernel, bindings) ∧
    profile.accepts kernel = .ok ()

theorem Region.Sound.kernelless?_eq_none_iff {f : Func} {region : Region}
    (sound : region.Sound f) :
    region.kernelless? = none ↔ ∀ out op input, .scan out op input ∉ region.ops f := by
  rw [Region.kernelless?, List.find?_eq_none]
  constructor
  · intro h out op input hscan
    obtain ⟨kind, hkind, heq⟩ := sound.parallel hscan
    cases heq
    exact h .scan hkind rfl
  · intro h kind hkind
    have hmem : some kind ∈ (region.ops f).map Op.parallelKind? := by
      rw [sound.kinds]
      exact List.mem_map_of_mem hkind
    obtain ⟨op, hop, heq⟩ := List.mem_map.mp hmem
    cases op with
    | map | reduce =>
      cases heq
      simp [ParallelKind.hasKernel]
    | scan out op input => exact absurd hop (h out op input)
    | store | print | call => cases heq

namespace Placement

variable {profile : Profile} {f : Func} {region : Region}

theorem checkElems_ok_iff {index : Nat} {uses : List ArrayUse} :
    checkElems profile f index uses = .ok () ↔
      ∀ use ∈ uses, ∃ decl, f.decl? use.array = some decl ∧ decl.elem ∈ profile.elems := by
  induction uses with
  | nil => simp [checkElems]
  | cons use rest ih =>
    rw [checkElems, bind_eq_ok, List.forall_mem_cons, ← ih]
    constructor
    · rintro ⟨decl, hdecl, h⟩
      split at h
      · next helem => exact ⟨⟨decl, orFault_eq_ok.mp hdecl, helem⟩, h⟩
      · cases h
    · rintro ⟨⟨decl, hdecl, helem⟩, h⟩
      exact ⟨decl, orFault_eq_ok.mpr hdecl, by rw [if_pos helem]; exact h⟩

theorem launchOf_ok_iff (sound : region.Sound f) :
    (∃ plan, launchOf profile f region = .ok plan) ↔ profile.Runs f region := by
  constructor
  · rintro ⟨plan, h⟩
    unfold launchOf at h
    cases hkind : region.kernelless? with
    | some kind =>
      simp only [hkind] at h
      split at h <;> cases h
    | none =>
      simp only [hkind] at h
      split at h
      · cases h
      · next hrank =>
        simp only [bind_eq_ok] at h
        obtain ⟨_, helems, ⟨kernel, bindings⟩, hkernel, _, haccepts, _⟩ := h
        exact ⟨sound.kernelless?_eq_none_iff.mp hkind, Nat.le_of_not_lt hrank,
          checkElems_ok_iff.mp helems, kernel, bindings, hkernel, haccepts⟩
  · rintro ⟨expressible, rank_le, elems, kernel, bindings, hkernel, haccepts⟩
    refine ⟨⟨kernel, region.space.extentOf, bindings⟩, ?_⟩
    unfold launchOf
    simp only [sound.kernelless?_eq_none_iff.mpr expressible, if_neg (Nat.not_lt_of_le rank_le),
      checkElems_ok_iff.mpr elems, hkernel, haccepts, bind, Except.bind, pure, Except.pure]

end Placement

/-! ## Reasons to stay on the host -/

/-- If there is a reason to stop, it names the region. -/
abbrev NamesRegion {α : Type} (region : Nat) (work : Except (Stop RegionError) α) : Prop :=
  Rejects (fun stop => ∀ cause, stop = .error cause → cause.region = region) work

theorem names_orFault {α : Type} (region : Nat) (found : Option α) :
    NamesRegion region (orFault found) := by
  cases found with
  | some a => exact .ok a
  | none => exact .error nofun

theorem names_error {α : Type} (region : Nat) (cause : RegionCause) :
    NamesRegion region (.error (.error ⟨region, cause⟩) : Except (Stop RegionError) α) :=
  .error fun _ h => by cases h; rfl

theorem Kernel.bodyIn_names (f : Func) (index : Nat) (bindings : List ArrayId) (ops : List Op) :
    NamesRegion index (bodyIn f index bindings ops) := by
  induction ops with
  | nil => exact .ok []
  | cons op rest ih =>
    rw [bodyIn]
    cases opIn? bindings op with
    | some kernelOp => exact ih.bind fun body _ => .ok _
    | none => exact (names_orFault _ _).bind fun text _ => names_error _ _

theorem Kernel.ofRegion_names (f : Func) (region : Region) :
    NamesRegion region.index (ofRegion f region) :=
  (names_orFault _ _).bind fun _ _ => (bodyIn_names f _ _ _).bind fun _ _ => .ok _

/-- The reason names the region, or it is what the device answered for its kernel. -/
def Profile.Explains (profile : Profile) (f : Func) (region : Region) (cause : RegionError) :
    Prop :=
  cause.region = region.index ∨
    ∃ kernel bindings, Kernel.ofRegion f region = .ok (kernel, bindings) ∧
      profile.accepts kernel = .error (.error cause)

/-- The region is not one that the device runs, and this is the reason. -/
structure Profile.Refuses (profile : Profile) (f : Func) (region : Region) (cause : RegionError) :
    Prop where
  not_runs : ¬ profile.Runs f region
  explains : profile.Explains f region cause

namespace Placement

variable {profile : Profile} {f : Func} {region : Region}

theorem checkElems_names (profile : Profile) (f : Func) (index : Nat) (uses : List ArrayUse) :
    NamesRegion index (checkElems profile f index uses) := by
  induction uses with
  | nil => exact .ok ()
  | cons use rest ih =>
    refine (names_orFault _ _).bind fun decl _ => ?_
    split
    · exact ih
    · exact names_error _ _

theorem launchOf_explained (profile : Profile) (f : Func) (region : Region) :
    Rejects (fun stop => ∀ cause, stop = .error cause → profile.Explains f region cause)
      (launchOf profile f region) := by
  have named : ∀ {α : Type} {work : Except (Stop RegionError) α}, NamesRegion region.index work →
      Rejects (fun stop => ∀ cause, stop = .error cause → profile.Explains f region cause) work :=
    fun hwork stop hstop cause hcause => .inl (hwork stop hstop cause hcause)
  unfold launchOf
  cases region.kernelless? with
  | some kind => exact named (names_error _ _)
  | none =>
    dsimp only
    split
    · exact named (names_error _ _)
    · refine (named (checkElems_names profile f _ _)).bind fun _ _ => ?_
      refine (named (Kernel.ofRegion_names f region)).bind fun made hmade => ?_
      refine Rejects.bind (fun stop hstop cause hcause => ?_) fun _ _ => .ok _
      exact .inr ⟨made.1, made.2, hmade, hcause ▸ hstop⟩

theorem launchOf_error (sound : region.Sound f) {cause : RegionError}
    (h : launchOf profile f region = .error (.error cause)) : profile.Refuses f region cause := by
  refine ⟨fun runs => ?_, launchOf_explained profile f region _ h cause rfl⟩
  obtain ⟨plan, hplan⟩ := (launchOf_ok_iff sound).mpr runs
  rw [h] at hplan
  cases hplan

/-- A choice is the launch of the region, or the reason why there is none. -/
theorem choose?_cases {choice : Choice} (h : choose? profile f region = some choice) :
    (∃ plan, choice = .ok plan ∧ launchOf profile f region = .ok plan) ∨
      ∃ cause, choice = .error cause ∧ launchOf profile f region = .error (.error cause) := by
  unfold choose? at h
  split at h
  · next hlaunch =>
    cases h
    exact .inl ⟨_, rfl, hlaunch⟩
  · next hlaunch =>
    cases h
    exact .inr ⟨_, rfl, hlaunch⟩
  · cases h

theorem choose?_isOk (sound : region.Sound f) {choice : Choice}
    (h : choose? profile f region = some choice) :
    choice.toOption.isSome = true ↔ profile.Runs f region := by
  rw [← launchOf_ok_iff sound]
  rcases choose?_cases h with ⟨plan, rfl, hplan⟩ | ⟨cause, rfl, hcause⟩
  · simp [Except.toOption, hplan]
  · simp [Except.toOption, hcause]

/-- The fallbacks are the reasons of the regions that are not launched. -/
theorem fallbacks_refuse {regions : List Region} {choices : List Choice}
    (sound : ∀ region ∈ regions, region.Sound f)
    (h : regions.map (choose? profile f) = choices.map some) {offloaded : Region → Bool}
    (hoffloaded : ∀ region ∈ regions, offloaded region = true ↔ profile.Runs f region) :
    List.Forall₂ (profile.Refuses f) (regions.filter fun region => !offloaded region)
      (fallbacks choices) := by
  induction regions generalizing choices with
  | nil =>
    cases choices with
    | nil => exact .nil
    | cons => cases h
  | cons region rest ih =>
    cases choices with
    | nil => cases h
    | cons choice more =>
      simp only [List.map_cons, List.cons.injEq] at h
      have htail := ih (fun other ho => sound other (by simp [ho])) h.2
        fun other ho => hoffloaded other (by simp [ho])
      have hhead := hoffloaded region (by simp)
      have hsound := sound region (by simp)
      rw [List.filter_cons, fallbacks, List.filterMap_cons]
      rcases choose?_cases h.1 with ⟨plan, rfl, hplan⟩ | ⟨cause, rfl, hcause⟩
      · rw [hhead.mpr ((launchOf_ok_iff hsound).mp ⟨plan, hplan⟩)]
        exact htail
      · have refuses := launchOf_error hsound hcause
        rw [if_pos (by simpa using mt hhead.mp refuses.not_runs)]
        exact .cons refuses htail

end Placement

/-! ## Steps and positions -/

def Step.launch? : Step → Option Nat
  | .launch kernel => some kernel
  | .copyIn _ | .copyOut _ | .hostRegion _ | .hostOp _ => none

namespace CompiledUnit

/-- The positions in the body that a step stands for. -/
def positionsOf (unit : CompiledUnit) : Step → List Nat
  | .copyIn _ | .copyOut _ => []
  | .launch index => unit.kernels[index]?.elim [] fun kernel =>
      (Segment.region kernel.plan.kernel.region).positions unit.regions
  | .hostRegion index => (Segment.region index).positions unit.regions
  | .hostOp index => (Segment.hostOp index).positions unit.regions

/-- Whether the unit launches the region of this number. -/
def offloads (unit : CompiledUnit) (region : Nat) : Bool :=
  unit.kernels.any (·.plan.kernel.region = region)

/-- The regions that the unit does not launch. -/
def remaining (unit : CompiledUnit) : List Region :=
  unit.regions.filter fun region => !unit.offloads region.index

theorem flatMap_copies (unit : CompiledUnit) (ids : List ArrayId) :
    (ids.map Step.copyIn).flatMap unit.positionsOf = [] ∧
      (ids.map Step.copyOut).flatMap unit.positionsOf = [] := by
  simp [positionsOf]

/-- The kernel of a launch that the unit has. -/
theorem exists_kernel {unit : CompiledUnit} {launches : List LaunchPlan} {plan : LaunchPlan}
    (h : launches ++ [plan] <+: unit.kernels.map (·.plan)) :
    ∃ kernel, unit.kernels[launches.length]? = some kernel ∧ kernel.plan = plan := by
  obtain ⟨more, hmore⟩ := h
  have hplan : (unit.kernels.map (·.plan))[launches.length]? = some plan := by
    simp [← hmore]
  rwa [List.getElem?_map, Option.map_eq_some_iff] at hplan

end CompiledUnit

namespace Draft

variable {f : Func} {regions : List Region} {placed : Placement.Launches}
  {draft next last : Draft} {segment : Segment} {rest segments : List Segment} {step : Step}
  {ops : List Op} {trail : List Draft}

/-- Launches are numbered in order. -/
theorem Emits.numbered (h : Emits f regions draft step ops next)
    (hdraft : draft.steps.filterMap Step.launch? = List.range draft.launches.length) :
    next.steps.filterMap Step.launch? = List.range next.launches.length := by
  rw [h.steps, List.filterMap_append, hdraft]
  cases h with
  | launch => simp [launched, Step.launch?, List.range_succ]
  | copyIn | copyOut | hostRegion | hostOp => exact List.append_nil _

theorem Path.numbered (h : Path f regions draft trail ops last)
    (hdraft : draft.steps.filterMap Step.launch? = List.range draft.launches.length) :
    last.steps.filterMap Step.launch? = List.range last.launches.length := by
  induction h with
  | nil => exact hdraft
  | cons emits _ ih => exact ih (emits.numbered hdraft)

section
variable {unit : CompiledUnit} (fits : Placement.Fits f regions placed)
  (hregions : unit.regions = regions)

include fits hregions

/-- What a segment adds stands for the positions of the segment. -/
theorem Extends.positions (h : Extends f regions placed draft rest segment next)
    (hplans : next.launches <+: unit.kernels.map (·.plan)) :
    next.steps.flatMap unit.positionsOf =
      draft.steps.flatMap unit.positionsOf ++ segment.positions regions := by
  subst hregions
  have hlaunches := h.launches
  cases h with
  | @host _ step _ _ outs honHost _ =>
    have hstep : unit.positionsOf step = segment.positions unit.regions := by
      cases honHost with
      | op | region => rfl
    simp only [worked, (foldl_copyOut outs draft).1, List.flatMap_append, List.flatMap_singleton,
      (unit.flatMap_copies outs).2, hstep, List.append_nil]
  | @launch index region plan ins outs hregion hplaced _ _ =>
    rw [hlaunches, Segment.plan?, hplaced] at hplans
    obtain ⟨kernel, hkernel, rfl⟩ := CompiledUnit.exists_kernel hplans
    have hstep : unit.positionsOf (.launch draft.launches.length) =
        (Segment.region index).positions unit.regions := by
      rw [CompiledUnit.positionsOf, hkernel, Option.elim_some, (fits _ _ _ hplaced hregion).1]
    obtain ⟨hready, hcount, _⟩ := foldl_copyIn ins draft
    simp only [(foldl_copyOut outs _).1, launched, hready, hcount, List.flatMap_append,
      List.flatMap_singleton, (unit.flatMap_copies _).1, (unit.flatMap_copies _).2, hstep,
      List.append_nil]

theorem ExtendsAll.positions (h : ExtendsAll f regions placed draft segments last)
    (hplans : last.launches <+: unit.kernels.map (·.plan)) :
    last.steps.flatMap unit.positionsOf =
      draft.steps.flatMap unit.positionsOf ++ segments.flatMap (Segment.positions regions) := by
  induction h with
  | nil => exact (List.append_nil _).symm
  | cons first later ih =>
    have hnext := (later.launches ▸ List.prefix_append _ _ : _ <+: _).trans hplans
    rw [ih hplans, first.positions fits hregions hnext, List.flatMap_cons, List.append_assoc]

end

end Draft

/-! ## On the host -/

/-- At the start, no host copy is stale. -/
theorem Tracker.start?_fresh {f : Func} {signature : Signature} {tracker : Tracker}
    (h : start? f signature = some tracker) (id : ArrayId) :
    tracker.state? id ≠ some .deviceValid := by
  obtain ⟨covers, hbindings⟩ := start?_ok h
  intro hs
  have hlt : id < f.arrays.length := covers.states ▸ (List.getElem?_eq_some_iff.mp hs).1
  obtain ⟨binding, _, _, hstate⟩ := hbindings (List.getElem?_eq_getElem hlt)
  rw [hs, Option.some.injEq] at hstate
  cases ha : binding.allocator <;> simp [ha, Allocator.initial] at hstate

namespace Draft

variable {f : Func} {regions : List Region} {placed : Placement.Launches}
  {draft next last : Draft} {segment : Segment} {rest segments : List Segment}

/-- Nothing has been launched or moved, and no host copy is stale. -/
structure HostOnly (draft : Draft) : Prop where
  launches : draft.launches = []
  transfers : draft.transfers = []
  fresh : ∀ id, draft.tracker.state? id ≠ some .deviceValid

theorem HostOnly.not_needsCopyOut (h : draft.HostOnly) (id : ArrayId) :
    draft.tracker.needsCopyOut? id ≠ some true := fun hstale =>
  h.fresh id (Tracker.needsCopyOut?_true hstale).2

theorem Extends.hostOnly (h : Extends f regions placed draft rest segment next)
    (hplaced : ∀ i : Nat, placed[i]?.join = none) (hdraft : draft.HostOnly) : next.HostOnly := by
  cases h with
  | @host _ step _ writes outs _ hrefreshes =>
    obtain rfl := hrefreshes.eq_nil fun id _ => hdraft.not_needsCopyOut id
    exact ⟨hdraft.launches, hdraft.transfers, fun id hid =>
      hdraft.fresh id (Tracker.keepsFresh_hostWrite.foldl hid)⟩
  | @launch index _ _ _ _ _ hplan _ _ =>
    rw [hplaced index] at hplan
    cases hplan

theorem ExtendsAll.hostOnly (h : ExtendsAll f regions placed draft segments last)
    (hplaced : ∀ i : Nat, placed[i]?.join = none) (hdraft : draft.HostOnly) : last.HostOnly := by
  induction h with
  | nil => exact hdraft
  | cons first _ ih => exact ih (first.hostOnly hplaced hdraft)

theorem HostOnly.finish_eq (h : draft.HostOnly) : draft.finish = draft := by
  have hnone : draft.tracker.exitCopyOuts = [] := by
    simp only [Tracker.exitCopyOuts, List.map_eq_nil_iff, List.filter_eq_nil_iff, Bool.and_eq_true,
      decide_eq_true_eq, not_and]
    exact fun binding _ _ => h.not_needsCopyOut binding.array
  rw [finish, hnone]
  rfl

end Draft

/-! ## Whole units -/

/-- The unit carries out the body, each operation once, in order, and leaves to the host what the
device does not run. -/
structure CompiledUnit.Complete (profile : Profile) (f : Func) (key : UnitKey)
    (unit : CompiledUnit) : Prop where
  partitioned : ∃ segments, f.partition? = some ⟨unit.regions, segments⟩
  positions : unit.steps.flatMap unit.positionsOf = List.range f.body.length
  numbered : unit.steps.filterMap Step.launch? = List.range unit.kernels.length
  kernels : ∀ kernel ∈ unit.kernels, ∃ region,
    unit.regions[kernel.plan.kernel.region]? = some region ∧ kernel.plan.Implements f region
  increasing : (unit.kernels.map (·.plan.kernel.region)).Pairwise (· < ·)
  onHost : key.context.isHost = true →
    unit.kernels = [] ∧ unit.transfers = [] ∧ unit.fallbacks = []
  offloaded : key.context.isHost = false → ∀ region ∈ unit.regions,
    unit.offloads region.index = true ↔ profile.Runs f region
  fallbacks : key.context.isHost = false →
    List.Forall₂ (profile.Refuses f) unit.remaining unit.fallbacks
  /-- A device that says which region it refuses is quoted with that region. -/
  named : key.context.isHost = false →
    (∀ kernel cause, profile.accepts kernel = .error (.error cause) →
      cause.region = kernel.region) →
    unit.fallbacks.map (·.region) = unit.remaining.map (·.index)

theorem Profile.Explains.region_eq {profile : Profile} {f : Func} {region : Region}
    {cause : RegionError} (h : profile.Explains f region cause)
    (truthful : ∀ kernel cause, profile.accepts kernel = .error (.error cause) →
      cause.region = kernel.region) : cause.region = region.index := by
  rcases h with hindex | ⟨kernel, bindings, hkernel, hrefused⟩
  · exact hindex
  · have implements : LaunchPlan.Implements f region ⟨kernel, region.space.extentOf, bindings⟩ :=
      ⟨hkernel, rfl⟩
    exact (truthful kernel cause hrefused).trans implements.parts.2.1

namespace Lowering.Planned

variable {profile : Profile} {f : Func} {key : UnitKey} {partition : Partition}
  {placed : Placement.Launches} {tracker : Tracker} {body : Draft} {unit : CompiledUnit}
  (planned : Planned profile f key partition placed tracker body unit)

include planned

theorem fits : Placement.Fits f partition.regions placed :=
  place?_fits (Func.partition?_sound planned.partitioned) planned.places

theorem extended :
    Draft.ExtendsAll f partition.regions placed (Draft.start tracker) partition.segments body :=
  Draft.extendAll_cases planned.drafted

theorem positions_steps : unit.steps.flatMap unit.positionsOf = List.range f.body.length := by
  have hbody := planned.extended.positions planned.fits planned.regions_eq
    (planned.plans_eq ▸ List.prefix_refl _)
  rw [planned.steps_eq, Draft.finish, (Draft.foldl_copyOut _ body).1, List.flatMap_append, hbody,
    (unit.flatMap_copies _).2, List.append_nil]
  exact (Func.partition?_sound planned.partitioned).covered

theorem numbered_steps : unit.steps.filterMap Step.launch? = List.range unit.kernels.length := by
  rw [planned.steps_eq, planned.path.numbered rfl, ← planned.plans_finish, List.length_map]

/-- The kernels are those of the regions at which a launch is placed, in order. -/
theorem kernel_regions : unit.kernels.map (·.plan.kernel.region) =
    (List.range unit.regions.length).filter fun i => placed[i]?.join.isSome := by
  have placedAt : ∀ indices : List Nat, (∀ i ∈ indices, i < partition.regions.length) →
      (indices.filterMap fun i => placed[i]?.join).map (·.kernel.region) =
        indices.filter fun i => placed[i]?.join.isSome := by
    intro indices
    induction indices with
    | nil => exact fun _ => rfl
    | cons i rest ih =>
      intro hlt
      have hrest := ih fun j hj => hlt j (by simp [hj])
      rw [List.filterMap_cons, List.filter_cons]
      cases hplaced : placed[i]?.join with
      | none => exact hrest
      | some plan =>
        have hregion := List.getElem?_eq_getElem (hlt i (by simp))
        simp only [List.map_cons, hrest, (planned.fits i plan _ hplaced hregion).1,
          Option.isSome_some, if_true]
  have hlaunches : body.launches =
      (List.range partition.regions.length).filterMap fun i => placed[i]?.join := by
    rw [planned.extended.launches, ← (Func.partition?_maximal planned.partitioned).numbered,
      List.filterMap_filterMap]
    refine congrArg (partition.segments.filterMap ·) (funext fun segment => ?_)
    cases segment <;> rfl
  have hplans : unit.kernels.map (·.plan.kernel.region) =
      (unit.kernels.map (·.plan)).map (·.kernel.region) := by
    rw [List.map_map]
    rfl
  rw [hplans, planned.plans_eq, hlaunches, planned.regions_eq]
  exact placedAt _ fun i hi => List.mem_range.mp hi

theorem offloads_iff {i : Nat} :
    unit.offloads i = true ↔ i < unit.regions.length ∧ placed[i]?.join.isSome = true := by
  have hmem : unit.offloads i = true ↔ i ∈ unit.kernels.map (·.plan.kernel.region) := by
    simp [CompiledUnit.offloads]
  rw [hmem, planned.kernel_regions, List.mem_filter, List.mem_range]

/-- On the host, nothing is launched or moved, and nothing has fallen back. -/
theorem host_only (hhost : key.context.isHost = true) :
    unit.kernels = [] ∧ unit.transfers = [] ∧ unit.fallbacks = [] := by
  have hplaces := planned.places
  rw [strategyFor, if_pos hhost, place?, Option.some.injEq, Prod.mk.injEq] at hplaces
  obtain ⟨rfl, hfallbacks⟩ := hplaces
  have hplaced : ∀ i : Nat, (Placement.allOnHost partition.regions)[i]?.join = none := by
    intro i
    rw [Placement.allOnHost, List.getElem?_map]
    cases partition.regions[i]? <;> rfl
  have hbody := planned.extended.hostOnly hplaced ⟨rfl, rfl, Tracker.start?_fresh planned.started⟩
  refine ⟨?_, ?_, hfallbacks.symm⟩
  · have hplans := planned.plans_eq
    rwa [hbody.launches, List.map_eq_nil_iff] at hplans
  · rw [planned.transfers_eq, hbody.finish_eq, hbody.transfers]

/-- On a device, a region is launched exactly if the device runs it. -/
theorem offloads_iff_runs (hdevice : key.context.isHost = false) {i : Nat} {region : Region}
    (h : unit.regions[i]? = some region) : unit.offloads i = true ↔ profile.Runs f region := by
  have hplaces := planned.places
  rw [strategyFor, hdevice, if_neg (by simp), place?, Option.map_eq_some_iff] at hplaces
  obtain ⟨choices, hchoices, hplaced⟩ := hplaces
  obtain ⟨rfl, _⟩ := Prod.mk.inj hplaced
  rw [planned.regions_eq] at h
  obtain ⟨choice, hchoice, hchosen⟩ := get?_of_map_some (mapM_some hchoices) h
  have sound := ((Func.partition?_sound planned.partitioned).regions h).2
  rw [planned.offloads_iff, planned.regions_eq, ← Placement.choose?_isOk sound hchosen]
  simp [Placement.launches, hchoice, (List.getElem?_eq_some_iff.mp h).1]

theorem region_index {i : Nat} {region : Region} (h : unit.regions[i]? = some region) :
    region.index = i := by
  rw [planned.regions_eq] at h
  exact ((Func.partition?_sound planned.partitioned).regions h).1

theorem offloaded (hdevice : key.context.isHost = false) :
    ∀ region ∈ unit.regions, unit.offloads region.index = true ↔ profile.Runs f region := by
  intro region hregion
  obtain ⟨i, hi⟩ := List.mem_iff_getElem?.mp hregion
  rw [planned.region_index hi]
  exact planned.offloads_iff_runs hdevice hi

/-- Every region that is not launched has its reason among the fallbacks. -/
theorem refused (hdevice : key.context.isHost = false) :
    List.Forall₂ (profile.Refuses f) unit.remaining unit.fallbacks := by
  have hplaces := planned.places
  rw [strategyFor, hdevice, if_neg (by simp), place?, Option.map_eq_some_iff] at hplaces
  obtain ⟨choices, hchoices, hplaced⟩ := hplaces
  have hfallbacks : Placement.fallbacks choices = unit.fallbacks := (Prod.mk.inj hplaced).2
  rw [← hfallbacks]
  rw [← planned.regions_eq] at hchoices
  refine Placement.fallbacks_refuse (fun region hregion => ?_) (mapM_some hchoices)
    (planned.offloaded hdevice)
  obtain ⟨i, hi⟩ := List.mem_iff_getElem?.mp hregion
  exact planned.region_sound hi

theorem complete : unit.Complete profile f key where
  partitioned := ⟨partition.segments, by rw [planned.regions_eq]; exact planned.partitioned⟩
  positions := planned.positions_steps
  numbered := planned.numbered_steps
  kernels _ hkernel := planned.exists_region hkernel
  increasing := by
    rw [planned.kernel_regions]
    exact List.pairwise_lt_range.filter _
  onHost := planned.host_only
  offloaded := planned.offloaded
  fallbacks := planned.refused
  named hdevice truthful := by
    have hsame : List.Forall₂ (fun region cause => cause.region = region.index) unit.remaining
        unit.fallbacks :=
      (planned.refused hdevice).imp fun _ _ refuses => refuses.explains.region_eq truthful
    have hmaps := List.forall₂_map_left_iff.mpr (List.forall₂_map_right_iff.mpr hsame.flip)
    rwa [List.forall₂_eq_eq_eq] at hmaps

end Lowering.Planned

/-- Lowering a function that was built, for any device and context: it carries out the body exactly
and falls back exactly where it must, and it fails only if the device rejects a kernel. -/
theorem Lowering.run_complete {profile : Profile} {f : Func} {key : UnitKey}
    {args : List ArrayValue} (built : f.Built)
    (accepted : Signature.ofArgs f args = .ok key.signature) (answers : profile.Answers f)
    (fingerprint : ContentHash) (machine : Machine) :
    (∀ unit lowered, exec (run profile f key fingerprint) machine = (.ok unit, lowered) →
      unit.Complete profile f key) ∧
    ∀ stop lowered, exec (run profile f key fingerprint) machine = (.error stop, lowered) →
      ∃ reason, machine.device.failCompile.map (·.2) = some reason ∧
        stop = .error (.device (.compileRejected reason)) := by
  constructor
  · intro unit lowered hrun
    obtain ⟨partition, placed, tracker, body, planned⟩ := run_planned hrun
    exact planned.complete
  · intro stop lowered hrun
    obtain ⟨outline, body, outlined⟩ := exists_outlined_of_answers built.wellFormed.toChecked
      (Signature.ofArgs_ok accepted) answers
    exact run_refused outlined hrun

/-! ## A device that takes what has a shader -/

namespace Shader

theorem opText_names (index : Nat) (types : List String) (op : KernelOp) :
    NamesRegion index (opText index types op) := by
  cases op with
  | map out op args =>
    refine (Rejects.mapM fun operand _ => ?_).bind fun operands _ =>
      (names_orFault _ _).bind fun _ _ => (names_orFault _ _).bind fun _ _ => .ok _
    unfold operandExpr
    split
    · exact .ok _
    · split
      · exact .ok _
      · exact names_error _ _
  | reduce out op input => exact (names_orFault _ _).bind fun _ _ => .ok _

/-- A kernel without a shader is refused with its region. -/
theorem lower_names (kernel : Kernel) : NamesRegion kernel.region (lower kernel) := by
  unfold lower
  dsimp only
  split
  · exact names_error _ _
  · refine (Rejects.mapM fun param _ => ?_).bind fun types _ =>
      (Rejects.mapM fun op _ => opText_names _ types op).bind fun _ _ => .ok _
    unfold paramType
    split
    · exact .ok _
    · exact names_error _ _

end Shader

namespace Sample

def shading : Profile where
  name := "shading"
  elems := [.f32, .i32]
  maxRank := 3
  accepts kernel := Shader.lower kernel >>= fun _ => .ok ()
  sharedMemory := false

theorem shading_answers {f : Func} (wf : f.Checked) : shading.Answers f := by
  intro region kernel bindings sound hkernel
  have implements : LaunchPlan.Implements f region ⟨kernel, region.space.extentOf, bindings⟩ :=
    ⟨hkernel, rfl⟩
  exact (Shader.lower_faultless wf sound implements).bind fun _ _ => .ok ()

theorem shading_truthful (kernel : Kernel) (cause : RegionError)
    (h : shading.accepts kernel = .error (.error cause)) : cause.region = kernel.region :=
  ((Shader.lower_names kernel).bind fun _ _ => .ok ()) _ h cause rfl

theorem stages_built : stages.Built := by
  have arrays := (((Func.Building.empty "stages").param "x" .f32 1).like "t" .f32 0).fixed "s" .f32
    [1]
  have first := ((arrays.like "u" .f32 1).push (.map 1 .mul [.array 0, .array 0])).push
    (.map 3 .add [.array 1, .array 0])
  have sums := ((first.push (.reduce 2 .sum 3)).push (.print [2])).push
    (.map 2 .mul [.array 2, .scalar ⟨0x7ff0000000000000⟩])
  have body := ((sums.push (.map 1 .neg [.array 3])).push (.scan 3 .sum 1)).push
    (.map 3 .add [.array 3, .array 0])
  exact ⟨_, body.returns 3, rfl⟩

def stagesArgs : List ArrayValue := [.vector .f32 #[1.0, 2.0]]

def stagesKey (context : DeviceContext) : UnitKey where
  function := 9
  signature := ⟨[⟨⟨.f32, 1⟩, .copied⟩], some ⟨.f32, 1⟩⟩
  context := context

theorem stages_accepted (context : DeviceContext) :
    Signature.ofArgs stages stagesArgs = .ok (stagesKey context).signature := rfl

end Sample

/-- The regions with the infinite constant and with the scan stay on the host. -/
theorem Lowering.run_complete_sample : ∃ unit lowered,
    exec (run Sample.shading Sample.stages (Sample.stagesKey .gpu) .zero) {} =
      (.ok unit, lowered) ∧
    unit.Complete Sample.shading Sample.stages (Sample.stagesKey .gpu) ∧
    unit.kernels.map (·.plan.kernel.region) = [0, 1, 3, 5] ∧
    unit.fallbacks.map (·.region) = [2, 4] ∧
    unit.fallbacks.map (·.region) = unit.remaining.map (·.index) := by
  have hpasses : passes (fun unit _ =>
      decide (unit.kernels.map (·.plan.kernel.region) = [0, 1, 3, 5] ∧
        unit.fallbacks.map (·.region) = [2, 4]))
      (exec (run Sample.shading Sample.stages (Sample.stagesKey .gpu) .zero) {}) = true := by
    decide +kernel
  obtain ⟨unit, lowered, hlowered, hcheck⟩ := exists_of_passes hpasses
  obtain ⟨hkernels, hfallbacks⟩ := of_decide_eq_true hcheck
  have answers := Sample.shading_answers Sample.stages_built.wellFormed.toChecked
  have complete := (run_complete Sample.stages_built (Sample.stages_accepted .gpu) answers .zero
    {}).1 unit lowered hlowered
  exact ⟨unit, lowered, hlowered, complete, hkernels, hfallbacks,
    complete.named rfl Sample.shading_truthful⟩

end ArrayOffload
