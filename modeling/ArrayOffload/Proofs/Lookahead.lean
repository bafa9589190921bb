import ArrayOffload.Proofs.Offloading
import ArrayOffload.Proofs.Schedule

/-!
# Transfers are exact

Planning looks ahead when it launches a region: what the host uses before the device writes it again
is copied out at once. So no work on the host finds a stale copy, and the only other copy-outs are
those at the end. This module says so about the steps of a unit alone.

* `Draft.Foresees`: what is stale on the host is not used there before the device writes it;
* `Draft.ExtendsAll.scheduled`: drafts emit schedules, because the look-ahead of the segments is the
  one of the steps;
* `Func.owed`: the arrays that are copied out at the end;
* `Lowering.run_transfers`: where each transfer of a lowered unit stands, and why.
-/

namespace ArrayOffload

/-! ## The look-ahead of segments -/

theorem Region.access?_eq_none_iff {region : Region} {id : ArrayId} :
    region.access? id = none ↔ id ∉ region.reads ++ region.writes := by
  rw [List.mem_append, ← Region.Sound.mem_arrays, Region.access?, Option.map_eq_none_iff,
    List.find?_eq_none, List.mem_map]
  simp

theorem Region.Sound.access?_writes {f : Func} {region : Region} (sound : region.Sound f)
    {id : ArrayId} {access : Access} (h : region.access? id = some access) :
    access.writes = true ↔ id ∈ region.writes := by
  rw [Region.access?, Option.map_eq_some_iff] at h
  obtain ⟨use, hfound, rfl⟩ := h
  have huse := List.mem_of_find?_eq_some hfound
  have harray : use.array = id := by simpa using List.find?_some hfound
  subst harray
  rw [← sound.usedWith_array huse, sound.mem_writes, sound.usedWith Access.merge_writes]
  simp only [Op.usedWith_writes]

section
variable {f : Func} {regions : List Region} {placed : Placement.Launches} {segment : Segment}
  {step : Step} {reads writes : List ArrayId}

/-- Work on the host uses its arrays at once. -/
theorem Segment.OnHost.hostTouchesFirst_cons
    (h : segment.OnHost f regions placed step reads writes) (id : ArrayId) (rest : List Segment) :
    hostTouchesFirst f regions placed id (segment :: rest) =
      (decide (id ∈ reads ++ writes) || hostTouchesFirst f regions placed id rest) := by
  cases h with
  | op hop => simp [hostTouchesFirst, hop, Op.touches]
  | @region index region hregion hplaced =>
    rw [hostTouchesFirst, hregion, Option.bind_some]
    cases haccess : region.access? id with
    | none => simp [Region.access?_eq_none_iff.mp haccess]
    | some access =>
      have hused : id ∈ region.reads ++ region.writes := by
        refine Classical.byContradiction fun hnot => ?_
        rw [Region.access?_eq_none_iff.mpr hnot] at haccess
        cases haccess
      simp only [hplaced, Option.isNone_none, if_true, hused, decide_true, Bool.true_or]

/-- A launch hides what it writes from the look-ahead. -/
theorem hostTouchesFirst_launch {index : Nat} {region : Region} {plan : LaunchPlan}
    (sound : region.Sound f) (hregion : regions[index]? = some region)
    (hplaced : placed[index]?.join = some plan) (id : ArrayId) (rest : List Segment) :
    hostTouchesFirst f regions placed id (.region index :: rest) =
      (decide (id ∉ region.writes) && hostTouchesFirst f regions placed id rest) := by
  rw [hostTouchesFirst, hregion, Option.bind_some]
  cases haccess : region.access? id with
  | none =>
    have hnot := Region.access?_eq_none_iff.mp haccess
    rw [List.mem_append, not_or] at hnot
    simp [hnot.2]
  | some access =>
    have hwrites := sound.access?_writes haccess
    simp only [hplaced, Option.isNone_some]
    cases hw : access.writes with
    | true => simp [hwrites.mp hw]
    | false =>
      have hnot : id ∉ region.writes := fun hmem => by simp [hwrites.mpr hmem] at hw
      simp [hnot]

section
variable {unit : CompiledUnit} (hfunction : unit.function = f) (hregions : unit.regions = regions)

include hfunction hregions

theorem Segment.OnHost.touchedOnHost (h : segment.OnHost f regions placed step reads writes)
    (id : ArrayId) : unit.touchedOnHost id step = decide (id ∈ reads ++ writes) := by
  subst hfunction hregions
  cases h with
  | op hop => simp [CompiledUnit.touchedOnHost, hop, Op.touches]
  | @region index region hregion =>
    simp only [CompiledUnit.touchedOnHost, hregion, Option.any_some, Region.touches]
    rw [Bool.eq_iff_iff, List.any_eq_true, decide_eq_true_eq, List.mem_append,
      ← Region.Sound.mem_arrays, List.mem_map]
    simp

theorem Segment.OnHost.track (h : segment.OnHost f regions placed step reads writes)
    (tracker : Tracker) : unit.track tracker step = writes.foldl Tracker.hostWrite tracker := by
  subst hfunction hregions
  cases h with
  | op hop => simp [CompiledUnit.track, hop]
  | region hregion => simp [CompiledUnit.track, hregion]

end

theorem Segment.OnHost.isHostWork (h : segment.OnHost f regions placed step reads writes) :
    step.isHostWork = true ∧ ∀ (unit : CompiledUnit) (id : ArrayId),
      unit.writtenOnDevice id step = false := by
  cases h <;> exact ⟨rfl, fun _ _ => rfl⟩

end

theorem Tracker.copyInSet?_sublist {tracker : Tracker} {region : Region} {ins : List ArrayId}
    (h : tracker.copyInSet? region = some ins) : ins.Sublist (region.uses.map (·.array)) := by
  simp only [copyInSet?, Option.map_eq_some_iff] at h
  obtain ⟨found, hfound, rfl⟩ := h
  have harrays : (found.filter fun _ => true).map (·.1) =
      (region.uses.filter fun _ => true).map (·.array) := by
    refine filter_of_map_some (mapM_some hfound) fun use _ entry hentry => ⟨rfl, ?_⟩
    obtain ⟨_, _, rfl⟩ := Option.map_eq_some_iff.mp hentry
    rfl
  rw [List.filter_true, List.filter_true] at harrays
  rw [← harrays]
  exact List.filter_sublist.map _

namespace Draft

variable {f : Func} {regions : List Region} {placed : Placement.Launches}
  {draft next last : Draft} {segment : Segment} {rest segments : List Segment}

theorem Extends.steady (h : Extends f regions placed draft rest segment next)
    (steady : draft.tracker.Steady) : next.tracker.Steady := by
  cases h with
  | @host _ _ _ writes outs _ _ =>
    rw [worked, (foldl_copyOut outs draft).2.2]
    exact (steady.foldl Tracker.Steady.copyOut outs).foldl Tracker.Steady.hostWrite writes
  | @launch _ region _ ins outs _ _ _ _ =>
    rw [(foldl_copyOut outs _).2.2, launched, (foldl_copyIn ins draft).2.2]
    exact ((steady.foldl Tracker.Steady.copyIn ins).foldl Tracker.Steady.deviceWrite
      region.writes).foldl Tracker.Steady.copyOut outs

/-- What is stale on the host is not used there before the device writes it. -/
def Foresees (f : Func) (regions : List Region) (placed : Placement.Launches) (draft : Draft)
    (segments : List Segment) : Prop :=
  ∀ id, draft.tracker.state? id = some .deviceValid →
    hostTouchesFirst f regions placed id segments = false

/-- Where the look-ahead was right, work on the host copies nothing out. -/
theorem Foresees.no_copyOuts {step : Step} {reads writes outs : List ArrayId}
    (h : draft.Foresees f regions placed (segment :: rest))
    (honHost : segment.OnHost f regions placed step reads writes)
    (hrefreshes : draft.tracker.Refreshes (reads ++ writes) outs) : outs = [] := by
  refine hrefreshes.eq_nil fun id hid hstale => ?_
  have hfalse := h id (Tracker.needsCopyOut?_true hstale).2
  rw [honHost.hostTouchesFirst_cons, decide_eq_true hid] at hfalse
  cases hfalse

theorem Extends.foresees (sound : ∀ region ∈ regions, region.Sound f)
    (h : Extends f regions placed draft rest segment next) (steady : draft.tracker.Steady)
    (foresees : draft.Foresees f regions placed (segment :: rest)) :
    next.Foresees f regions placed rest := by
  intro id hstale
  cases h with
  | host honHost hrefreshes =>
    obtain rfl := foresees.no_copyOuts honHost hrefreshes
    have hfalse := foresees id (Tracker.keepsFresh_hostWrite.foldl hstale)
    rw [honHost.hostTouchesFirst_cons, Bool.or_eq_false_iff] at hfalse
    exact hfalse.2
  | @launch index region plan ins outs hregion hplaced hins hrefreshes =>
    have hsound := sound region (List.mem_of_getElem? hregion)
    rw [(foldl_copyOut outs _).2.2] at hstale
    have hnot := Tracker.not_mem_of_copyOuts hstale
    have hlaunched := Tracker.keepsFresh_copyOut.foldl hstale
    rw [launched, (foldl_copyIn ins draft).2.2] at hlaunched
    by_cases hwritten : id ∈ region.writes
    · -- a written array that the host needs would have been copied out
      have hsteady := (steady.foldl Tracker.Steady.copyIn ins).foldl Tracker.Steady.deviceWrite
        region.writes
      have hneeds := Tracker.needsCopyOut?_eq_true_iff.mpr
        ⟨hsteady.isCopied hlaunched (by simp), hlaunched⟩
      refine Bool.eq_false_iff.mpr fun htouches => hnot (hrefreshes.mem_iff.mpr ⟨?_, hneeds⟩)
      exact List.mem_filter.mpr ⟨hwritten, htouches⟩
    · rw [Tracker.local_deviceWrite.state?_foldl _ hwritten] at hlaunched
      have hfalse := foresees id (Tracker.keepsFresh_copyIn.foldl hlaunched)
      rwa [hostTouchesFirst_launch hsound hregion hplaced, decide_eq_true hwritten,
        Bool.true_and] at hfalse

/-- The transfers that planning puts around a launch. -/
theorem surrounds_launch {unit : CompiledUnit} {region : Region} {kernel : CompiledKernel}
    {index : Nat} {ins outs : List ArrayId} {steps : List Step} {tracker : Tracker}
    (sound : region.Sound f) (implements : kernel.plan.Implements f region)
    (hkernel : unit.kernels[index]? = some kernel)
    (hregion : unit.regions[kernel.plan.kernel.region]? = some region) (steady : tracker.Steady)
    (hins : tracker.copyInSet? region = some ins)
    (hrefreshes : (region.writes.foldl Tracker.deviceWrite
      (ins.foldl Tracker.copyIn tracker)).Refreshes
        (region.writes.filter fun id => hostTouchesFirst f regions placed id rest) outs)
    (ahead : ∀ id, hostTouchesFirst f regions placed id rest = true ↔ unit.NeededOnHost id steps) :
    unit.Surrounds tracker index ins outs steps := by
  have hwrites : unit.launchWrites index = region.writes :=
    CompiledUnit.launchWrites_eq hkernel hregion
  have hstale := (Tracker.copyInSet?_ok hins).1
  have hlist := Tracker.copyInSet?_sublist hins
  have hcopies : (region.writes.foldl Tracker.deviceWrite
      (ins.foldl Tracker.copyIn tracker)).isCopied = tracker.isCopied :=
    Tracker.isCopied_congr ((Tracker.local_deviceWrite.bindings_foldl _ _).trans
      (Tracker.local_copyIn.bindings_foldl _ _))
  refine ⟨⟨kernel, hkernel, by simp [hregion], fun id hid => ?_⟩,
    hlist.nodup sound.arrays_nodup, fun id hid => ?_,
    hrefreshes.nodup, fun id hid => ?_, fun {id} => ?_⟩
  · rw [implements.bindings_eq]
    exact hlist.subset hid
  · exact ⟨steady.isCopied (hstale id hid) (by simp), Tracker.stale_device_iff.mpr (hstale id hid)⟩
  · rw [CompiledUnit.replay_launch, hwrites, Tracker.stale_host_iff]
    exact (Tracker.needsCopyOut?_true (hrefreshes.mem_iff.mp hid).2).2
  · rw [hrefreshes.mem_iff, List.mem_filter, Tracker.needsCopyOut?_eq_true_iff, hcopies, hwrites,
      ahead]
    constructor
    · exact fun ⟨⟨hwritten, hneeded⟩, hcopied, _⟩ => ⟨hwritten, hcopied, hneeded⟩
    · rintro ⟨hwritten, hcopied, hneeded⟩
      obtain ⟨state, hs⟩ := Tracker.local_copyIn.exists_state_foldl ins tracker
        (Tracker.exists_state_of_copyInSet? hins hwritten)
      refine ⟨⟨hwritten, hneeded⟩, hcopied, Tracker.state?_deviceWrites hwritten ?_ hs⟩
      rwa [Tracker.isCopied_congr (Tracker.local_copyIn.bindings_foldl _ _)]

section
variable {unit : CompiledUnit} (fits : Placement.Fits f regions placed)
  (sound : ∀ region ∈ regions, region.Sound f) (hfunction : unit.function = f)
  (hregions : unit.regions = regions) {steps : List Step} {final : Tracker}

include fits sound hfunction hregions

/-- What a segment adds continues a schedule at its front, and the look-ahead goes through it. -/
theorem Extends.scheduled (h : Extends f regions placed draft rest segment next)
    (hplans : next.launches <+: unit.kernels.map (·.plan)) (steady : draft.tracker.Steady)
    (foresees : draft.Foresees f regions placed (segment :: rest))
    (later : unit.Scheduled next.tracker steps final)
    (ahead : ∀ id, hostTouchesFirst f regions placed id rest = true ↔ unit.NeededOnHost id steps) :
    ∃ added, next.steps = draft.steps ++ added ∧
      unit.Scheduled draft.tracker (added ++ steps) final ∧
      ∀ id, hostTouchesFirst f regions placed id (segment :: rest) = true ↔
        unit.NeededOnHost id (added ++ steps) := by
  have hlaunches := h.launches
  cases h with
  | @host _ step reads writes outs honHost hrefreshes =>
    obtain rfl := foresees.no_copyOuts honHost hrefreshes
    have htouched := honHost.touchedOnHost hfunction hregions
    refine ⟨[step], rfl, .host honHost.isHostWork.1 (fun id hid hstale => ?_) ?_, fun id => ?_⟩
    · have hfalse := foresees id (Tracker.stale_host_iff.mp hstale)
      rw [honHost.hostTouchesFirst_cons, ← htouched, hid] at hfalse
      cases hfalse
    · rw [honHost.track hfunction hregions]
      exact later
    · rw [List.singleton_append, CompiledUnit.neededOnHost_cons, honHost.hostTouchesFirst_cons,
        Bool.or_eq_true, ahead, htouched]
      simp [honHost.isHostWork.2]
  | @launch index region plan ins outs hregion hplaced hins hrefreshes =>
    have hsound := sound region (List.mem_of_getElem? hregion)
    rw [hlaunches, Segment.plan?, hplaced] at hplans
    obtain ⟨kernel, hkernel, rfl⟩ := CompiledUnit.exists_kernel hplans
    obtain ⟨hindex, implements⟩ := fits _ _ _ hplaced hregion
    have hlaunched : unit.regions[kernel.plan.kernel.region]? = some region := by
      rw [hregions, hindex, hregion]
    have hwrites := CompiledUnit.launchWrites_eq hkernel hlaunched
    have around := surrounds_launch hsound implements hkernel hlaunched steady hins hrefreshes ahead
    obtain ⟨hready, hcount, htracker⟩ := foldl_copyIn ins draft
    obtain ⟨hsteps, _, hmoved⟩ :=
      foldl_copyOut outs ((ins.foldl copyIn draft).launched region kernel.plan)
    refine ⟨ins.map .copyIn ++ .launch draft.launches.length :: outs.map .copyOut, ?_, ?_,
      fun id => ?_⟩
    · rw [hsteps, launched, hready, hcount]
      simp
    · rw [List.append_assoc, List.cons_append]
      refine .launch around ?_
      rw [List.append_cons, CompiledUnit.replay_append, CompiledUnit.replay_launch,
        CompiledUnit.replay_copyOuts, hwrites, ← htracker]
      rwa [hmoved] at later
    · rw [List.append_assoc, (CompiledUnit.neededOnHost_copies ins).1, List.cons_append,
        CompiledUnit.neededOnHost_cons, (CompiledUnit.neededOnHost_copies outs).2,
        hostTouchesFirst_launch hsound hregion hplaced, Bool.and_eq_true, ahead]
      simp [CompiledUnit.touchedOnHost, CompiledUnit.writtenOnDevice, hwrites]

/-- The steps of a body form a schedule. -/
theorem ExtendsAll.scheduled (h : ExtendsAll f regions placed draft segments last)
    (hplans : last.launches <+: unit.kernels.map (·.plan)) (steady : draft.tracker.Steady)
    (foresees : draft.Foresees f regions placed segments) :
    ∃ steps, last.steps = draft.steps ++ steps ∧
      unit.Scheduled draft.tracker steps last.tracker ∧
      ∀ id, hostTouchesFirst f regions placed id segments = true ↔ unit.NeededOnHost id steps := by
  induction h with
  | nil draft =>
    refine ⟨[], (List.append_nil _).symm, .done _, fun id => ?_⟩
    simp [hostTouchesFirst, CompiledUnit.not_neededOnHost_nil]
  | @cons draft next last segment rest first later ih =>
    have hnext := (later.launches ▸ List.prefix_append _ _ : next.launches <+: last.launches)
    obtain ⟨steps, hsteps, scheduled, ahead⟩ := ih hplans (first.steady steady)
      (first.foresees sound steady foresees)
    obtain ⟨added, hadded, whole, through⟩ := first.scheduled fits sound hfunction hregions
      (hnext.trans hplans) steady foresees scheduled ahead
    exact ⟨added ++ steps, by rw [hsteps, hadded, List.append_assoc], whole, through⟩

end

end Draft

/-! ## The end of a plan -/

/-- The escaping arrays that are copied and stale on the host, in order of declaration. -/
def Func.owed (f : Func) (tracker : Tracker) : List ArrayId :=
  (f.arrays.zipIdx.filter fun entry => f.escapes entry.2 entry.1 && tracker.isCopied entry.2 &&
    decide (tracker.state? entry.2 = some .deviceValid)).map (·.2)

theorem Func.owed_nodup (f : Func) (tracker : Tracker) : (f.owed tracker).Nodup := by
  have hlist : (f.owed tracker).Sublist (f.arrays.zipIdx.map (·.2)) := List.filter_sublist.map _
  refine hlist.nodup ?_
  rw [List.zipIdx_map_snd]
  exact List.nodup_range'

theorem Tracker.exitCopyOuts_eq {f : Func} {signature : Signature} {start tracker : Tracker}
    (h : start? f signature = some start) (hbindings : tracker.bindings = start.bindings) :
    tracker.exitCopyOuts = f.owed tracker := by
  simp only [start?, Option.map_eq_some_iff] at h
  obtain ⟨bindings, hfound, rfl⟩ := h
  rw [exitCopyOuts, hbindings]
  refine filter_of_map_some (mapM_some hfound) fun entry _ binding hof => ?_
  obtain ⟨harray, _, hescapes⟩ := bindingOf?_array hof
  refine ⟨?_, harray⟩
  rw [hescapes, harray, Bool.and_assoc]
  refine congrArg (f.escapes entry.2 entry.1 && ·) ?_
  rw [Bool.eq_iff_iff, decide_eq_true_eq, needsCopyOut?_eq_true_iff]
  simp

namespace CompiledUnit

/-- The transfers of a unit are those that residency asks for, where they are due. -/
structure MovesExactly (f : Func) (start : Tracker) (unit : CompiledUnit)
    (body exit : List Step) : Prop where
  steps : unit.steps = body ++ exit
  bodyEnd : unit.bodyEnd = (unit.replay start body).states
  needed : ∀ {before : List Step} {step : Step} {after : List Step},
    unit.steps = before ++ step :: after → unit.Needed (unit.replay start before) step
  inPlace : ∀ {before : List Step} {step : Step} {after : List Step},
    body = before ++ step :: after → unit.InPlace start.isCopied before step after
  exit_eq : exit = (f.owed (unit.replay start body)).map .copyOut
  copied : ∀ transfer ∈ unit.transfers, start.isCopied transfer.array = true

end CompiledUnit

/-- A transfer is recorded for a step that makes it. -/
theorem Step.exists_of_mem_transfers {steps : List Step} {transfer : Transfer}
    (h : transfer ∈ Step.transfers steps) :
    .copyIn transfer.array ∈ steps ∨ .copyOut transfer.array ∈ steps := by
  simp only [Step.transfers, List.mem_filterMap] at h
  obtain ⟨⟨step, index⟩, hmem, htransfer⟩ := h
  have hstep := List.fst_mem_of_mem_zipIdx hmem
  cases step with
  | copyIn id =>
    cases htransfer
    exact .inl hstep
  | copyOut id =>
    cases htransfer
    exact .inr hstep
  | launch | hostRegion | hostOp => cases htransfer

namespace Lowering.Planned

variable {profile : Profile} {f : Func} {key : UnitKey} {partition : Partition}
  {placed : Placement.Launches} {tracker : Tracker} {body : Draft} {unit : CompiledUnit}
  (planned : Planned profile f key partition placed tracker body unit)

include planned

theorem scheduled : unit.Scheduled tracker body.steps body.tracker := by
  have sound : ∀ region ∈ partition.regions, region.Sound f := by
    intro region hregion
    obtain ⟨i, hi⟩ := List.mem_iff_getElem?.mp hregion
    exact ((Func.partition?_sound planned.partitioned).regions hi).2
  have foresees : (Draft.start tracker).Foresees f partition.regions placed partition.segments :=
    fun id hstale => absurd hstale (Tracker.start?_fresh planned.started id)
  obtain ⟨steps, hsteps, scheduled, _⟩ := planned.extended.scheduled planned.fits sound
    planned.function_eq planned.regions_eq (planned.plans_eq ▸ List.prefix_refl _)
    (Tracker.Steady.start planned.started) foresees
  rw [hsteps]
  exact scheduled

theorem steps_exit : unit.steps = body.steps ++ (f.owed body.tracker).map .copyOut := by
  rw [planned.steps_eq, Draft.finish, (Draft.foldl_copyOut _ body).1,
    Tracker.exitCopyOuts_eq planned.started planned.body_path.bindings]

theorem moves_exactly :
    unit.MovesExactly f tracker body.steps ((f.owed body.tracker).map .copyOut) := by
  have hend := planned.scheduled.replay_eq
  have needed : ∀ {before : List Step} {step : Step} {after : List Step},
      unit.steps = before ++ step :: after → unit.Needed (unit.replay tracker before) step := by
    intro before step after hcut
    rw [planned.steps_exit] at hcut
    rcases append_eq_cut hcut with ⟨more, hbody, _⟩ | ⟨more, rfl, hexit⟩
    · exact (planned.scheduled.sited hbody).1
    · obtain ⟨front, id, back, howed, rfl, rfl, rfl⟩ := map_eq_cut hexit
      have hid : id ∈ f.owed body.tracker := by simp [howed]
      simp only [Func.owed, List.mem_map, List.mem_filter, Bool.and_eq_true,
        decide_eq_true_eq] at hid
      obtain ⟨entry, ⟨_, ⟨_, hcopied⟩, hstale⟩, rfl⟩ := hid
      rw [CompiledUnit.replay_append, hend, CompiledUnit.replay_copyOuts]
      refine ⟨?_, CompiledUnit.stale_in_row Tracker.local_copyOut (howed ▸ f.owed_nodup _)
        (Tracker.stale_host_iff.mpr hstale)⟩
      rwa [Tracker.isCopied_congr (Tracker.local_copyOut.bindings_foldl _ _)]
  refine ⟨planned.steps_exit, hend ▸ planned.bodyEnd_eq, needed,
    fun hcut => (planned.scheduled.sited hcut).2, hend ▸ rfl, fun transfer htransfer => ?_⟩
  rw [planned.transfers_steps] at htransfer
  rcases Step.exists_of_mem_transfers htransfer with hstep | hstep <;>
    · obtain ⟨before, after, hcut⟩ := List.append_of_mem hstep
      have hmoved := (needed hcut).1
      rwa [CompiledUnit.isCopied_replay] at hmoved

end Lowering.Planned

/-- The transfers of a lowered unit. Each array is moved while it is copied and out of date at the
target. Copy-ins lead up to a launch that binds the array. A copy-out follows a launch that writes
the array, if the host is the next to need it, or stands at the end, if the array escapes. -/
theorem Lowering.run_transfers {profile : Profile} {f : Func} {key : UnitKey}
    {fingerprint : ContentHash} {machine after : Machine} {unit : CompiledUnit}
    (lowered : exec (run profile f key fingerprint) machine = (.ok unit, after)) :
    ∃ start body exit, Tracker.start? f key.signature = some start ∧
      unit.MovesExactly f start body exit := by
  obtain ⟨partition, placed, tracker, body, planned⟩ := run_planned lowered
  exact ⟨tracker, body.steps, _, planned.started, planned.moves_exactly⟩

/-- The first array is only read, so it never comes back; the second stays on the device until the
scan; the fourth is copied out early, and once more at the end. -/
theorem Lowering.run_transfers_sample : ∃ unit lowered,
    exec (run Sample.shading Sample.stages (Sample.stagesKey .gpu) .zero) {} =
      (.ok unit, lowered) ∧
    unit.steps = [.copyIn 0, .copyIn 1, .copyIn 3, .launch 0, .copyOut 3, .copyIn 2, .launch 1,
      .copyOut 2, .hostOp 3, .hostRegion 2, .launch 2, .copyOut 1, .hostRegion 4, .copyIn 3,
      .launch 3, .copyOut 3] ∧
    ∃ start body exit, Tracker.start? Sample.stages (Sample.stagesKey .gpu).signature = some start ∧
      unit.MovesExactly Sample.stages start body exit := by
  have hpasses : passes (fun unit _ => decide (unit.steps =
      [.copyIn 0, .copyIn 1, .copyIn 3, .launch 0, .copyOut 3, .copyIn 2, .launch 1,
        .copyOut 2, .hostOp 3, .hostRegion 2, .launch 2, .copyOut 1, .hostRegion 4, .copyIn 3,
        .launch 3, .copyOut 3]))
      (exec (run Sample.shading Sample.stages (Sample.stagesKey .gpu) .zero) {}) = true := by
    decide +kernel
  obtain ⟨unit, lowered, hlowered, hsteps⟩ := exists_of_passes hpasses
  exact ⟨unit, lowered, hlowered, of_decide_eq_true hsteps, run_transfers hlowered⟩

end ArrayOffload
