import ArrayOffload.Proofs.Buffers
import ArrayOffload.Proofs.Lockstep
import ArrayOffload.Proofs.Lookahead
import ArrayOffload.Proofs.Observed

/-!
# Leaving a copy-out out

A call whose plan lacks one copy-out goes as planned until the host's copy is looked at, and is
refused there. One use on the host does not look: a region that writes the array without reading it
has no need of the old elements.

* `CompiledUnit.overwrittenNext`: the next use on the host only writes the array;
* `CompiledUnit.MovesExactly.after_copyOut`: what follows a copy-out in a plan;
* `Call.shadows_while_idle`: until then, the call keeps beside the planned one;
* `CompiledUnit.run_without_copyOut`: how a call ends that lacks a copy-out.
-/

namespace ArrayOffload

/-! ## What follows a copy-out -/

namespace CompiledUnit

variable {unit : CompiledUnit} {id : ArrayId} {step : Step} {steps : List Step} {f : Func}
  {start tracker : Tracker} {body exit before mid after front back : List Step}

/-- The next use of the array on the host is a region that writes it without reading it. -/
def overwrittenNext (unit : CompiledUnit) (id : ArrayId) (steps : List Step) : Bool :=
  match steps.find? (unit.touchedOnHost id) with
  | some (.hostRegion index) => unit.regions[index]?.any fun region => id ∉ region.reads
  | _ => false

/-- The first use on the host, and the steps before it. -/
theorem NeededOnHost.first (h : unit.NeededOnHost id steps) :
    ∃ before step after, steps = before ++ step :: after ∧ unit.touchedOnHost id step = true ∧
      ∀ other ∈ before, unit.touchedOnHost id other = false ∧
        unit.writtenOnDevice id other = false := by
  induction steps with
  | nil => exact absurd h not_neededOnHost_nil
  | cons step steps ih =>
    cases htouched : unit.touchedOnHost id step with
    | true => exact ⟨[], step, steps, rfl, htouched, by simp⟩
    | false =>
      rcases neededOnHost_cons.mp h with htouched' | ⟨hwritten, hneeded⟩
      · rw [htouched] at htouched'
        cases htouched'
      · obtain ⟨before, found, after, rfl, hfound, hbefore⟩ := ih hneeded
        refine ⟨step :: before, found, after, rfl, hfound, fun other ho => ?_⟩
        rcases List.mem_cons.mp ho with rfl | ho
        · exact ⟨htouched, hwritten⟩
        · exact hbefore other ho

section
variable {rest : List Step} (hidle : ∀ other ∈ mid, unit.Idle id other)
  (htouched : unit.touchedOnHost id step = true)

include hidle htouched

theorem overwrittenNext_eq : unit.overwrittenNext id (mid ++ step :: rest) =
    match step with
    | .hostRegion index => unit.regions[index]?.any fun region => id ∉ region.reads
    | _ => false := by
  have hmid : mid.find? (unit.touchedOnHost id) = none :=
    List.find?_eq_none.mpr fun other ho => by simp [(hidle other ho).1]
  have hfind : (mid ++ step :: rest).find? (unit.touchedOnHost id) = some step := by
    simp [List.find?_append, hmid, htouched]
  rw [overwrittenNext, hfind]
  cases step <;> rfl

theorem overwrites_of_true (h : unit.overwrittenNext id (mid ++ step :: rest) = true) :
    ∃ index region, step = .hostRegion index ∧ unit.regions[index]? = some region ∧
      id ∉ region.reads ∧ id ∈ region.writes := by
  rw [overwrittenNext_eq hidle htouched] at h
  cases step with
  | copyIn | copyOut | launch | hostOp => cases h
  | hostRegion index =>
    cases hregion : unit.regions[index]? with
    | none => simp [hregion] at h
    | some region =>
      have hreads : id ∉ region.reads := by simpa [hregion] using h
      refine ⟨index, region, rfl, hregion, hreads, ?_⟩
      by_contra hwrites
      have huntouched := Region.touches_eq_false.mpr ⟨hreads, hwrites⟩
      rw [touchedOnHost, hregion, Option.any_some, huntouched] at htouched
      cases htouched

theorem reads_of_false (h : unit.overwrittenNext id (mid ++ step :: rest) = false) {index : Nat}
    {region : Region} (hstep : step = .hostRegion index)
    (hregion : unit.regions[index]? = some region) : id ∈ region.reads := by
  rw [overwrittenNext_eq hidle htouched] at h
  subst hstep
  simpa [hregion] using h

end

theorem overwrittenNext_of_idle (h : ∀ other ∈ steps, unit.Idle id other) :
    unit.overwrittenNext id steps = false := by
  have hfind : steps.find? (unit.touchedOnHost id) = none :=
    List.find?_eq_none.mpr fun other ho => by simp [(h other ho).1]
  rw [overwrittenNext, hfind]

/-- A step in which the array is idle leaves its state alone. -/
theorem Idle.state?_track (idle : unit.Idle id step) (tracker : Tracker) :
    (unit.track tracker step).state? id = tracker.state? id := by
  obtain ⟨htouched, hwritten, hin, hout⟩ := idle
  cases step with
  | copyIn other => exact Tracker.local_copyIn.state?_of_ne _ fun heq => hin (heq ▸ rfl)
  | copyOut other => exact Tracker.local_copyOut.state?_of_ne _ fun heq => hout (heq ▸ rfl)
  | launch index =>
    refine Tracker.local_deviceWrite.state?_foldl _ ?_
    simpa [writtenOnDevice] using hwritten
  | hostRegion index =>
    refine Tracker.local_hostWrite.state?_foldl _ ?_
    cases hregion : unit.regions[index]? with
    | none => simp
    | some region =>
      rw [touchedOnHost, hregion, Option.any_some, Region.touches_eq_false] at htouched
      exact htouched.2
  | hostOp index =>
    refine Tracker.local_hostWrite.state?_foldl _ ?_
    cases hop : unit.function.body[index]? with
    | none => simp
    | some op =>
      rw [touchedOnHost, hop, Option.any_some, Op.touches, Bool.or_eq_false_iff,
        decide_eq_false_iff_not, decide_eq_false_iff_not] at htouched
      exact htouched.2

namespace MovesExactly

variable (moves : unit.MovesExactly f start body exit)

include moves

/-- While the host and the device both have the array, it is not moved. -/
theorem idle (hcut : unit.steps = before ++ (mid ++ after))
    (hstate : (unit.replay start before).state? id = some .bothValid)
    (hunused : ∀ step ∈ mid, unit.touchedOnHost id step = false ∧
      unit.writtenOnDevice id step = false) : ∀ step ∈ mid, unit.Idle id step := by
  induction mid generalizing before with
  | nil => simp
  | cons step mid ih =>
    have needed := moves.needed hcut
    have hidle : unit.Idle id step := by
      obtain ⟨htouched, hwritten⟩ := hunused step (by simp)
      refine ⟨htouched, hwritten, ?_, ?_⟩
      · rintro rfl
        have hstale := Tracker.stale_device_iff.mp needed.2
        rw [hstate] at hstale
        cases hstale
      · rintro rfl
        have hstale := Tracker.stale_host_iff.mp needed.2
        rw [hstate] at hstale
        cases hstale
    have hnext : (unit.replay start (before ++ [step])).state? id = some .bothValid := by
      rw [replay_append]
      exact (hidle.state?_track _).trans hstate
    have hrest := ih (by simpa using hcut) hnext fun other ho => hunused other (by simp [ho])
    intro other ho
    rcases List.mem_cons.mp ho with rfl | ho
    · exact hidle
    · exact hrest other ho

theorem state_copyOut (hcut : unit.steps = front ++ .copyOut id :: back) :
    start.isCopied id = true ∧ (unit.replay start front).state? id = some .deviceValid ∧
      (unit.replay start (front ++ [.copyOut id])).state? id = some .bothValid := by
  obtain ⟨hcopied, hstale⟩ := moves.needed hcut
  rw [isCopied_replay] at hcopied
  have hstate := Tracker.stale_host_iff.mp hstale
  refine ⟨hcopied, hstate, ?_⟩
  rw [replay_append]
  change ((unit.replay start front).copyOut id).state? id = _
  rw [Tracker.copyOut, if_pos hstate, Tracker.state?_withState, if_pos rfl, hstate]
  rfl

/-- After a copy-out the array is idle until the host uses it. If the host does not, the array is
idle to the end, and its caller sees it. -/
theorem after_copyOut (hcut : unit.steps = front ++ .copyOut id :: back) :
    (∃ mid step rest, back = mid ++ step :: rest ∧ (∀ other ∈ mid, unit.Idle id other) ∧
      unit.touchedOnHost id step = true) ∨
    (∀ other ∈ back, unit.Idle id other) ∧
      ∃ decl, f.decl? id = some decl ∧ f.escapes id decl = true := by
  obtain ⟨hcopied, _, hstate⟩ := moves.state_copyOut hcut
  have hsteps := moves.steps.symm.trans hcut
  rcases append_eq_cut hsteps with ⟨more, hbody, rfl⟩ | ⟨more, rfl, hexit⟩
  · -- the copy-out was made for the first use on the host
    obtain ⟨first, index, ids, rfl, hwritten⟩ := moves.inPlace hbody
    rw [List.append_assoc, List.cons_append] at hbody
    have launch := moves.inPlace hbody id hwritten hcopied
    have hneeded := launch.mp ⟨ids, more, rfl⟩
    rw [(neededOnHost_copies ids).2, neededOnHost_cons] at hneeded
    obtain ⟨mid, step, rest, rfl, htouched, hunused⟩ :=
      (hneeded.resolve_left (by simp [touchedOnHost])).2.first
    refine .inl ⟨mid, step, rest ++ exit, by simp, ?_, htouched⟩
    exact moves.idle (by simpa using hcut) hstate hunused
  · -- at the end there are copy-outs only, each of another array
    rw [moves.exit_eq] at hexit
    obtain ⟨done, _, rest, howed, rfl, hid, rfl⟩ := map_eq_cut hexit
    cases hid
    have hnodup := howed ▸ f.owed_nodup (unit.replay start body)
    refine .inr ⟨fun other ho => ?_, ?_⟩
    · obtain ⟨moved, hmoved, rfl⟩ := List.mem_map.mp ho
      refine ⟨rfl, rfl, by simp, ?_⟩
      rintro ⟨⟩
      exact (List.nodup_cons.mp (List.nodup_append.mp hnodup).2.1).1 hmoved
    · have hmem : id ∈ f.owed (unit.replay start body) := by simp [howed]
      simp only [Func.owed, List.mem_map, List.mem_filter, Bool.and_eq_true] at hmem
      obtain ⟨entry, ⟨hentry, ⟨hescapes, _⟩, _⟩, rfl⟩ := hmem
      exact ⟨entry.1, (List.mk_mem_zipIdx_iff_getElem?.mp hentry), hescapes⟩

end MovesExactly

end CompiledUnit

/-! ## Plans, cut in two -/

namespace Draft

variable {f : Func} {regions : List Region} {draft next last : Draft} {step : Step}
  {ops : List Op} {trail : List Draft} {before after steps : List Step} {unit : CompiledUnit}

/-- The next step of a path is one that is in order. -/
theorem Path.emits {rest : List Step} (path : Path f regions draft trail ops last)
    (hsteps : last.steps = draft.steps ++ step :: rest) :
    ∃ done next, Emits f regions draft step done next := by
  cases path with
  | nil =>
    have hnil := List.append_right_eq_self.mp hsteps.symm
    cases hnil
  | @cons _ next _ found done more trail emits path =>
    obtain ⟨others, hothers⟩ := path.steps.2.1
    rw [← hothers, emits.steps, List.append_assoc, List.append_cancel_left_eq,
      List.singleton_append, List.cons.injEq] at hsteps
    obtain ⟨rfl, _⟩ := hsteps
    exact ⟨done, next, emits⟩

/-- A path can be cut between any two steps. -/
theorem Path.cut (path : Path f regions draft trail ops last)
    (hsteps : last.steps = draft.steps ++ (before ++ after)) :
    ∃ mid first done second more, Path f regions draft first done mid ∧
      Path f regions mid second more last ∧ mid.steps = draft.steps ++ before := by
  induction path generalizing before with
  | nil draft =>
    obtain ⟨rfl, _⟩ := List.append_eq_nil_iff.mp (List.append_right_eq_self.mp hsteps.symm)
    exact ⟨draft, [], [], [], [], .nil _, .nil _, by simp⟩
  | @cons draft next last step ops more trail emits path ih =>
    cases before with
    | nil => exact ⟨draft, [], [], _, _, .nil _, .cons emits path, by simp⟩
    | cons found before =>
      obtain ⟨others, hothers⟩ := path.steps.2.1
      rw [← hothers, emits.steps, List.append_assoc, List.append_cancel_left_eq,
        List.singleton_append, List.cons_append, List.cons.injEq] at hsteps
      obtain ⟨rfl, rfl⟩ := hsteps
      obtain ⟨mid, first, done, second, rest, hfirst, hsecond, hmid⟩ := ih hothers.symm
      refine ⟨mid, _, _, second, rest, .cons emits hfirst, hsecond, ?_⟩
      rw [hmid, emits.steps, List.append_assoc]
      rfl

section
variable (hfunction : unit.function = f) (hregions : unit.regions = regions)

include hfunction hregions

theorem Emits.track_eq (emits : Emits f regions draft step ops next)
    (hplans : next.launches <+: unit.kernels.map (·.plan)) :
    next.tracker = unit.track draft.tracker step := by
  subst hfunction hregions
  cases emits with
  | copyIn | copyOut => rfl
  | @launch plan region hregion impl valid =>
    have hplan : (unit.kernels.map (·.plan))[draft.launches.length]? = some plan := by
      obtain ⟨more, hmore⟩ := hplans
      simp [← hmore, launched]
    rw [List.getElem?_map, Option.map_eq_some_iff] at hplan
    obtain ⟨kernel, hkernel, rfl⟩ := hplan
    rw [CompiledUnit.track, CompiledUnit.launchWrites_eq hkernel hregion]
    rfl
  | hostRegion hregion =>
    rw [CompiledUnit.track, hregion]
    rfl
  | hostOp hop =>
    rw [CompiledUnit.track, hop]
    rfl

/-- The tracker of a draft is what its steps lead to. -/
theorem Path.replay_eq (path : Path f regions draft trail ops last)
    (hplans : last.launches <+: unit.kernels.map (·.plan))
    (hsteps : last.steps = draft.steps ++ steps) :
    last.tracker = unit.replay draft.tracker steps := by
  induction path generalizing steps with
  | nil draft =>
    obtain rfl := List.append_right_eq_self.mp hsteps.symm
    rfl
  | cons emits path ih =>
    obtain ⟨others, hothers⟩ := path.steps.2.1
    rw [← hothers, emits.steps, List.append_assoc, List.append_cancel_left_eq,
      List.singleton_append] at hsteps
    subst hsteps
    rw [ih hplans hothers.symm, emits.track_eq hfunction hregions (path.launches.trans hplans)]
    rfl

end

end Draft

/-- A plan, cut between two steps. -/
theorem Lowering.Planned.cut {profile : Profile} {f : Func} {key : UnitKey} {partition : Partition}
    {placed : Placement.Launches} {tracker : Tracker} {body : Draft} {unit : CompiledUnit}
    (planned : Planned profile f key partition placed tracker body unit) {before after : List Step}
    (hcut : unit.steps = before ++ after) :
    ∃ draft first done second more,
      Draft.Path f partition.regions (Draft.start tracker) first done draft ∧
      Draft.Path f partition.regions draft second more body.finish ∧
      body.finish.steps = draft.steps ++ after ∧ draft.launches <+: unit.kernels.map (·.plan) ∧
      draft.steps = (Draft.start tracker).steps ++ before ∧
      draft.tracker = unit.replay tracker before := by
  have hsteps : body.finish.steps = (Draft.start tracker).steps ++ (before ++ after) := by
    rw [← planned.steps_eq, hcut]
    rfl
  obtain ⟨draft, first, done, second, more, hfirst, hsecond, hdraft⟩ := planned.path.cut hsteps
  have hplans : draft.launches <+: unit.kernels.map (·.plan) :=
    hsecond.launches.trans (planned.plans_finish ▸ List.prefix_refl _)
  refine ⟨draft, first, done, second, more, hfirst, hsecond, ?_, hplans, hdraft,
    hfirst.replay_eq planned.function_eq planned.regions_eq hplans hdraft⟩
  rw [hsteps, hdraft, List.append_assoc]

/-- The state that an array has before it is written does not matter after. -/
theorem Tracker.hostWrites_withState {tracker : Tracker} {id : ArrayId} {ids : List ArrayId}
    (hid : id ∈ ids) (hcopied : tracker.isCopied id = true) (state : Residency) :
    ids.foldl hostWrite (tracker.withState id state) = ids.foldl hostWrite tracker := by
  induction ids generalizing tracker with
  | nil => cases hid
  | cons written rest ih =>
    rw [List.foldl_cons, List.foldl_cons]
    by_cases heq : written = id
    · subst heq
      have hsame : (tracker.withState written state).isCopied written = true := hcopied
      rw [hostWrite, hostWrite, if_pos hsame, if_pos hcopied, withState_withState]
    · rw [apart_hostWrite tracker state heq]
      refine ih ((List.mem_cons.mp hid).resolve_left (Ne.symm heq)) ?_
      rw [isCopied_congr (local_hostWrite.bindings tracker written), hcopied]

namespace Call

section
variable {profile : Profile} {f : Func} {key : UnitKey} {partition : Partition}
  {placed : Placement.Launches} {tracker : Tracker} {body : Draft} {unit : CompiledUnit}
  (planned : Lowering.Planned profile f key partition placed tracker body unit)
  {args : List ArrayValue} {shapes : List Shape} {table : HostTable} {machine : Machine}
  {before after : List Step} {call mid : Call} {id : ArrayId}

include planned

/-- Between two steps, the call's tracker is what the steps so far lead to. -/
theorem tracker_replay (started : Started unit table args machine call shapes)
    (hcut : unit.steps = before ++ after)
    (hexec : exec (before.forM (Call.step unit shapes table)) call = (.ok (), mid)) :
    mid.tracker = unit.replay tracker before := by
  obtain ⟨draft, _, _, _, _, hfirst, _, _, hplans, hdraft, htracker⟩ := planned.cut hcut
  have hstart : (Ledger.opening tracker machine.device).tracker = (Draft.start tracker).tracker :=
    rfl
  have moved := steps_ledger planned.function_eq planned.regions_eq
    (planned.function_eq ▸ started.resolved) planned.covers hstart hfirst hplans hdraft
  have hafter := moved.of_ok (start_ledger planned started) hexec
  exact (congrArg Ledger.tracker hafter).trans htracker

/-- At the end of the plan the host has what the caller sees. -/
theorem ending_as_planned :
    Ensures (fun call => call.tracker = body.finish.tracker) (ending f shapes args)
      (fun _ _ => True) fun stop _ => Failure stop := by
  intro call hcall
  obtain ⟨path, escapes⟩ := planned.path_escapes
  have covers : call.ledger.tracker.Covers f.arrays.length := by
    change call.tracker.Covers f.arrays.length
    rw [hcall]
    exact path.covers planned.covers
  have checks : Moves call.ledger ((Tracked.escaping body.finish.tracker).forM (checkReadable .host))
      call.ledger := by
    refine Ensures.forM _ fun array harray => moves_checkReadable covers ?_
    obtain ⟨binding, hbinding, rfl⟩ := List.mem_map.mp harray
    obtain ⟨hmem, hescapes⟩ := List.mem_filter.mp hbinding
    change call.tracker.Valid .host binding.array
    rw [hcall]
    exact escapes binding hmem hescapes
  have whole : Ensures (fun other => other.ledger = call.ledger) (ending f shapes args)
      (fun _ _ => True) fun stop _ => Failure stop := by
    refine Ensures.get fun other hother => ?_
    have htracker : other.tracker = body.finish.tracker :=
      (congrArg Ledger.tracker hother).trans hcall
    simp only [htracker]
    exact checks.bind fun _ => (keeps_returned _ _ _).before fun result =>
      Ensures.get fun _ _ => Ensures.pure _ fun _ _ => trivial
  exact whole call rfl

variable (res : Shapes.Resolved f args table shapes)

include res

/-- From a tracker as planned, the rest of the steps go as planned. -/
theorem steps_as_planned (hcut : unit.steps = before ++ after) :
    Ensures (fun call => call.tracker = unit.replay tracker before)
      (after.forM (Call.step unit shapes table))
      (fun _ call => call.tracker = body.finish.tracker) fun stop _ => Failure stop := by
  intro call hcall
  obtain ⟨draft, _, _, _, _, hfirst, hsecond, hsteps, _, _, htracker⟩ := planned.cut hcut
  have hledger : call.ledger.tracker = draft.tracker := hcall.trans htracker.symm
  have moved := steps_ledger planned.function_eq planned.regions_eq res
    (hfirst.covers planned.covers) hledger hsecond (planned.plans_finish ▸ List.prefix_refl _) hsteps
  exact moved.weaken (fun _ h => h) (fun _ _ h => congrArg Ledger.tracker h) (fun _ _ h => h) call rfl

/-- A region that writes an array without reading it does not see what state the array was in. -/
theorem steps_overwritten {index : Nat} {region : Region}
    (hcut : unit.steps = before ++ .hostRegion index :: after)
    (hregion : unit.regions[index]? = some region) (hcopied : tracker.isCopied id = true)
    (hreads : id ∉ region.reads) (hwrites : id ∈ region.writes) (state : Residency) :
    Ensures (fun call => call.tracker = (unit.replay tracker before).withState id state)
      ((.hostRegion index :: after).forM (Call.step unit shapes table))
      (fun _ call => call.tracker = body.finish.tracker) fun stop _ => Failure stop := by
  intro call hcall
  obtain ⟨draft, _, _, _, _, hfirst, hsecond, hsteps, _, _, htracker⟩ := planned.cut hcut
  obtain ⟨_, _, emits⟩ := hsecond.emits hsteps
  have covers : call.ledger.tracker.Covers f.arrays.length := by
    have hdraft := hfirst.covers planned.covers
    rw [htracker] at hdraft
    have hlength := hdraft.states
    change call.tracker.Covers f.arrays.length
    rw [hcall]
    exact ⟨hdraft.bindings, by simpa [Tracker.withState] using hlength⟩
  have valid : ∀ array ∈ region.reads, call.ledger.tracker.Valid .host array := by
    intro array harray
    have hne : array ≠ id := fun heq => hreads (heq ▸ harray)
    cases emits with
    | hostRegion hfound hvalid =>
      rw [planned.regions_eq, hfound, Option.some.injEq] at hregion
      obtain ⟨found, hstate, hv⟩ := hvalid array (hregion ▸ harray)
      refine ⟨found, ?_, hv⟩
      change call.tracker.state? array = some found
      rw [hcall, Tracker.state?_withState, if_neg hne, ← htracker, hstate]
  have work := moves_hostWork res covers region.writes (region.ops f) (fun _ => Region.mem_body) valid
  have hafter : region.writes.foldl Tracker.hostWrite call.tracker =
      unit.replay tracker (before ++ [.hostRegion index]) := by
    have hkept : (unit.replay tracker before).isCopied id = true := by
      rw [CompiledUnit.isCopied_replay, hcopied]
    rw [hcall, Tracker.hostWrites_withState hwrites hkept, CompiledUnit.replay_append]
    simp only [CompiledUnit.replay, List.foldl_cons, List.foldl_nil, CompiledUnit.track, hregion,
      Option.elim_some]
  have first : Moves call.ledger (Call.step unit shapes table (.hostRegion index))
      { call.ledger with tracker := unit.replay tracker (before ++ [.hostRegion index]) } := by
    rw [← hafter]
    refine work.congr fun other => ?_
    rw [Call.step, hregion, exec_bind, exec_expect, orFault, planned.function_eq]
    rfl
  have rest := steps_as_planned planned res (List.append_cons before _ after ▸ hcut)
  exact (first.bind fun _ => rest.weaken (fun _ h => congrArg Ledger.tracker h) (fun _ _ h => h)
    fun _ _ h => h) call rfl

end

/-! ## Calls that lack a copy-out -/

section
variable {unit : CompiledUnit} {shapes : List Shape} {table : HostTable} {args : List ArrayValue}
  {call : Call}

theorem body_ok {outcome : Outcome} {final : Call}
    (h : exec (body unit shapes table args) call = (.ok outcome, final)) :
    ∃ last, exec (unit.steps.forM (step unit shapes table)) call = (.ok (), last) ∧
      exec (ending unit.function shapes args) last = (.ok outcome, final) := by
  rw [exec_body] at h
  rcases hexec : exec (unit.steps.forM (step unit shapes table)) call with ⟨stop | _, last⟩ <;>
    rw [hexec] at h
  · cases h
  · exact ⟨last, rfl, h⟩

/-- The steps of a unit are carried out with the parts of the unit, whatever they are. -/
theorem exec_body_steps (steps : List Step) :
    exec (body { unit with steps } shapes table args) call =
      match exec (steps.forM (step unit shapes table)) call with
      | (.ok _, mid) => exec (ending unit.function shapes args) mid
      | (.error stop, mid) => (.error stop, mid) :=
  exec_body { unit with steps } shapes table args call

end

/-- The checks at the end stop where the copy is missing, if the caller sees the array. -/
theorem Shadows.ending_stops {f : Func} {shapes : List Shape} {args : List ArrayValue} {id : ArrayId}
    {call other final : Call} {outcome : Outcome} (h : Shadows id call other) {binding : Binding}
    (hbinding : call.tracker.bindings[id]? = some binding)
    (hid : id ∈ Tracked.escaping call.tracker)
    (hok : exec (ending f shapes args) call = (.ok outcome, final)) :
    exec (ending f shapes args) other =
      (.error (.error (.residency binding.name .host .deviceValid)), other) := by
  have hsame : Tracked.escaping other.tracker = Tracked.escaping call.tracker := by
    rw [h.tracker]
    rfl
  rw [ending, exec_bind, exec_get] at hok ⊢
  simp only [hsame]
  exact h.work_stops hbinding hid hok

section
variable {profile : Profile} {f : Func} {key : UnitKey} {partition : Partition}
  {placed : Placement.Launches} {tracker : Tracker} {body : Draft} {unit : CompiledUnit}
  (planned : Lowering.Planned profile f key partition placed tracker body unit)
  {args : List ArrayValue} {shapes : List Shape} {table : HostTable} {machine : Machine}
  {front back mid after : List Step} {call last : Call} {id : ArrayId}

include planned

/-- While the array is idle, a call that lacks a copy-out keeps beside the planned one. -/
theorem shadows_while_idle (sound : unit.Sound)
    (started : Started unit table args machine call shapes)
    (accepted : unit.key.signature.Accepts unit.function args)
    (hcut : unit.steps = front ++ .copyOut id :: (mid ++ after))
    (hidle : ∀ step ∈ mid, unit.Idle id step)
    (hexec : exec (unit.steps.forM (Call.step unit shapes table)) call = (.ok (), last)) :
    ∃ near other,
      exec ((front ++ .copyOut id :: mid).forM (Call.step unit shapes table)) call =
        (.ok (), near) ∧
      exec (after.forM (Call.step unit shapes table)) near = (.ok (), last) ∧
      exec ((front ++ mid).forM (Call.step unit shapes table)) call = (.ok (), other) ∧
      Shadows id near other := by
  obtain ⟨hcopied, hstate, _⟩ := planned.moves_exactly.state_copyOut hcut
  have hsplit : unit.steps = (front ++ .copyOut id :: mid) ++ after := by simp [hcut]
  rw [hsplit] at hexec
  obtain ⟨near, hnear, hafter⟩ := exec_forM_append_ok hexec
  obtain ⟨prior, hprior, hrest⟩ := exec_forM_append_ok hnear
  obtain ⟨moved, hmoved, hmid⟩ := exec_forM_cons_ok hrest
  have backed : Backed [] prior :=
    (Ensures.forM front fun step _ => backs_step started.resolved step).of_ok
      (started.backed sound.wellFormed accepted) hprior
  have shadows : Shadows id moved prior := by
    have htracker := tracker_replay planned started hcut hprior
    refine shadows_copyOut backed ?_ ?_ hmoved
    · rw [htracker, CompiledUnit.isCopied_replay, hcopied]
    · rw [htracker, hstate]
  have mirrors : Shadowed id (mid.forM (Call.step unit shapes table)) :=
    Mirrors.forM mid fun step hstep => shadowed_step sound shapes table (hidle step hstep)
  obtain ⟨other, hother, beside⟩ := mirrors.of_ok shadows hmid
  refine ⟨near, other, hnear, hafter, ?_, beside⟩
  rw [exec_forM_append, hprior]
  exact hother

/-- The tracker of a call names the arrays as they are declared. -/
theorem exists_binding {near : Call} {before : List Step} (hcopied : tracker.isCopied id = true)
    (started : Started unit table args machine call shapes) (hcut : unit.steps = before ++ after)
    (hexec : exec (before.forM (Call.step unit shapes table)) call = (.ok (), near)) :
    ∃ decl binding, f.decl? id = some decl ∧ near.tracker.bindings[id]? = some binding ∧
      binding.name = decl.name ∧ (f.escapes id decl = true → id ∈ Tracked.escaping near.tracker) := by
  obtain ⟨covers, hbindings⟩ := Tracker.start?_ok planned.started
  obtain ⟨_, _, _, _, _, hfirst, _, _, _, _, hdraft⟩ := planned.cut hcut
  have hkept : near.tracker.bindings = tracker.bindings := by
    rw [tracker_replay planned started hcut hexec, ← hdraft, hfirst.bindings]
    rfl
  obtain ⟨found, hfound⟩ : ∃ binding, tracker.bindings[id]? = some binding := by
    cases hb : tracker.bindings[id]? with
    | none => simp [Tracker.isCopied, hb] at hcopied
    | some binding => exact ⟨binding, rfl⟩
  have hlt : id < f.arrays.length := covers.bindings ▸ (List.getElem?_eq_some_iff.mp hfound).1
  obtain ⟨decl, hdecl⟩ := Func.exists_decl hlt
  obtain ⟨binding, hbinding, hof, _⟩ := hbindings hdecl
  obtain ⟨harray, hname, hescapes⟩ := Tracker.bindingOf?_array hof
  refine ⟨decl, binding, hdecl, hkept ▸ hbinding, hname, fun h => ?_⟩
  refine List.mem_map.mpr ⟨binding, List.mem_filter.mpr ⟨?_, hescapes.trans h⟩, harray⟩
  exact List.mem_of_getElem? (hkept ▸ hbinding)

section
variable (sound : unit.Sound) (started : Started unit table args machine call shapes)
  (accepted : unit.key.signature.Accepts unit.function args)
  (hcut : unit.steps = front ++ .copyOut id :: back) {outcome : Outcome} {final : Call}
  (hbody : exec (Call.body unit shapes table args) call = (.ok outcome, final))

include sound started accepted hcut hbody

/-- A call that lacks a copy-out stops where the host's copy is first looked at. -/
theorem body_stops (hnext : unit.overwrittenNext id back = false) :
    ∃ decl stopped, f.decl? id = some decl ∧
      exec (Call.body { unit with steps := front ++ back } shapes table args) call =
        (.error (.error (.residency decl.name .host .deviceValid)), stopped) := by
  have hcopied := (planned.moves_exactly.state_copyOut hcut).1
  obtain ⟨last, hsteps, hending⟩ := body_ok hbody
  rw [exec_body_steps]
  rcases planned.moves_exactly.after_copyOut hcut with
    ⟨mid, step, rest, rfl, hidle, htouched⟩ | ⟨hidle, decl, hdecl, hescapes⟩
  · -- the host uses the array in some step, which looks at the copy first
    obtain ⟨near, other, hnear, hrest, hother, shadows⟩ :=
      shadows_while_idle planned sound started accepted hcut hidle hsteps
    have hsplit : unit.steps = (front ++ .copyOut id :: mid) ++ step :: rest := by simp [hcut]
    obtain ⟨decl, binding, hdecl, hbinding, hname, _⟩ :=
      exists_binding planned hcopied started hsplit hnear
    obtain ⟨_, hstep, _⟩ := exec_forM_cons_ok hrest
    have hstops := shadows.step_stops hbinding htouched
      (CompiledUnit.reads_of_false hidle htouched hnext) hstep
    refine ⟨decl, other, hdecl, ?_⟩
    rw [← List.append_assoc, exec_forM_append, hother]
    simp only [exec_forM_cons, hstops, hname]
  · -- the caller sees the array, so the copy is looked at in the end
    have hcut' : unit.steps = front ++ .copyOut id :: (back ++ []) := by simp [hcut]
    obtain ⟨near, other, hnear, hrest, hother, shadows⟩ :=
      shadows_while_idle planned sound started accepted hcut' hidle hsteps
    cases hrest
    have hsplit : unit.steps = (front ++ .copyOut id :: back) ++ [] := by simp [hcut]
    obtain ⟨found, binding, hfound, hbinding, hname, hescaping⟩ :=
      exists_binding planned hcopied started hsplit hnear
    rw [hdecl, Option.some.injEq] at hfound
    subst hfound
    refine ⟨decl, other, hdecl, ?_⟩
    rw [hother]
    simp only [shadows.ending_stops hbinding (hescaping hescapes) hending, hname]

/-- A call that lacks a copy-out of what is overwritten next does not miss it. -/
theorem body_overwritten (hnext : unit.overwrittenNext id back = true)
    {stop : Stop OffloadError} {stopped : Call}
    (hstop : exec (Call.body { unit with steps := front ++ back } shapes table args) call =
      (.error stop, stopped)) : Failure stop := by
  have hcopied := (planned.moves_exactly.state_copyOut hcut).1
  have res : Shapes.Resolved f args table shapes := planned.function_eq ▸ started.resolved
  obtain ⟨last, hsteps, _⟩ := body_ok hbody
  rw [exec_body_steps] at hstop
  rcases planned.moves_exactly.after_copyOut hcut with
    ⟨mid, step, rest, rfl, hidle, htouched⟩ | ⟨hidle, _⟩
  · obtain ⟨index, region, rfl, hregion, hreads, hwrites⟩ :=
      CompiledUnit.overwrites_of_true hidle htouched hnext
    obtain ⟨near, other, hnear, _, hother, shadows⟩ :=
      shadows_while_idle planned sound started accepted hcut hidle hsteps
    have hsplit : unit.steps = (front ++ .copyOut id :: mid) ++ .hostRegion index :: rest := by
      simp [hcut]
    have htracker := shadows.tracker
    rw [tracker_replay planned started hsplit hnear] at htracker
    have steps := steps_overwritten planned res hsplit hregion hcopied hreads hwrites .deviceValid
      other htracker
    rw [← List.append_assoc, exec_forM_append, hother] at hstop
    dsimp only at hstop
    rcases hrest : exec ((Step.hostRegion index :: rest).forM (Call.step unit shapes table)) other with
      ⟨found | _, ended⟩ <;> rw [hrest] at steps hstop
    · cases hstop
      exact steps
    · rw [planned.function_eq] at hstop
      exact (ending_as_planned planned).of_error steps hstop
  · rw [CompiledUnit.overwrittenNext_of_idle hidle] at hnext
    cases hnext

end

end

end Call

/-- Of a call that succeeds, leave one copy-out out. If the next use of the array on the host is a
region that writes it without reading it, no stale copy is reported. Otherwise the call is refused,
because the host's copy of that array is stale. -/
theorem CompiledUnit.run_without_copyOut {profile : Profile} {f : Func} {key : UnitKey}
    {fingerprint : ContentHash} {before lowered : Machine} {unit : CompiledUnit} (built : f.Built)
    (hlowered : exec (Lowering.run profile f key fingerprint) before = (.ok unit, lowered))
    {args : List ArrayValue} (accepted : Signature.ofArgs f args = .ok key.signature)
    {table : HostTable} {machine : Machine} {outcome : Outcome}
    (hok : (unit.run table args machine).result = .ok outcome) {front back : List Step}
    {id : ArrayId} (hcut : unit.steps = front ++ .copyOut id :: back) :
    (unit.overwrittenNext id back = false → ∃ decl, f.decl? id = some decl ∧
      ({ unit with steps := front ++ back }.run table args machine).result =
        .error (.error (.residency decl.name .host .deviceValid))) ∧
    (unit.overwrittenNext id back = true → ∀ array location state,
      ({ unit with steps := front ++ back }.run table args machine).result ≠
        .error (.error (.residency array location state))) := by
  obtain ⟨partition, placed, tracker, body, planned⟩ := Lowering.run_planned hlowered
  have sound := planned.sound built
  have accepts : unit.key.signature.Accepts unit.function args := by
    rw [planned.key_eq, planned.function_eq]
    exact Signature.ofArgs_ok accepted
  obtain ⟨call, shapes, final, hstart, hbody⟩ := exists_of_run_ok hok
  have started := Call.start_ok hstart
  have hstart' : Call.start { unit with steps := front ++ back } table args machine =
      .ok (call, shapes) := hstart
  constructor
  · intro hnext
    obtain ⟨decl, stopped, hdecl, hstops⟩ :=
      Call.body_stops planned sound started accepts hcut hbody hnext
    exact ⟨decl, hdecl, by rw [run_of_error hstart' hstops]⟩
  · intro hnext array location state hresult
    rcases cases_of_run_error hresult with hrejected | ⟨_, _, stopped, hagain, hstops⟩
    · rw [hstart'] at hrejected
      cases hrejected
    · rw [hstart'] at hagain
      cases hagain
      cases Call.body_overwritten planned sound started accepts hcut hbody hnext hstops

namespace Sample

/-- The steps of `stages` up to its first copy-out, which is of an array that a scan overwrites. -/
def doubling : List Step := [.copyIn 0, .copyIn 1, .copyIn 3, .launch 0]

/-- The steps from there to the copy-out of an array that is printed next. -/
def summing : List Step := [.copyIn 2, .launch 1]

def scanning : List Step :=
  [.hostOp 3, .hostRegion 2, .launch 2, .copyOut 1, .hostRegion 4, .copyIn 3, .launch 3, .copyOut 3]

end Sample

/-- What is printed has to be copied out; what the scan overwrites does not. -/
theorem CompiledUnit.run_without_copyOut_sample : ∃ unit lowered outcome,
    exec (Lowering.run Sample.shading Sample.stages (Sample.stagesKey .gpu) .zero) {} =
      (.ok unit, lowered) ∧
    unit.steps =
      Sample.doubling ++ Step.copyOut 3 :: (Sample.summing ++ Step.copyOut 2 :: Sample.scanning) ∧
    (unit.run Sample.table Sample.stagesArgs lowered).result = .ok outcome ∧
    ({ unit with steps := Sample.doubling ++ Step.copyOut 3 :: Sample.summing ++ Sample.scanning }.run
      Sample.table Sample.stagesArgs lowered).result =
        .error (.error (.residency "s" .host .deviceValid)) ∧
    ∀ array location state,
      ({ unit with
          steps := Sample.doubling ++ (Sample.summing ++ Step.copyOut 2 :: Sample.scanning) }.run
        Sample.table Sample.stagesArgs lowered).result ≠
          .error (.error (.residency array location state)) := by
  have hpasses : passes (fun unit lowered =>
      decide (unit.steps =
        Sample.doubling ++ Step.copyOut 3 :: (Sample.summing ++ Step.copyOut 2 :: Sample.scanning) ∧
        unit.overwrittenNext 3 (Sample.summing ++ Step.copyOut 2 :: Sample.scanning) = true ∧
        unit.overwrittenNext 2 Sample.scanning = false) &&
      (unit.run Sample.table Sample.stagesArgs lowered).result.toBool)
      (exec (Lowering.run Sample.shading Sample.stages (Sample.stagesKey .gpu) .zero) {}) = true := by
    decide +kernel
  obtain ⟨unit, lowered, hlowered, hcheck⟩ := exists_of_passes hpasses
  simp only [Bool.and_eq_true, decide_eq_true_eq] at hcheck
  obtain ⟨⟨hsteps, hscanned, hprinted⟩, hok⟩ := hcheck
  cases hresult : (unit.run Sample.table Sample.stagesArgs lowered).result with
  | error stop =>
    rw [hresult] at hok
    cases hok
  | ok outcome =>
    have hcut : unit.steps =
        (Sample.doubling ++ Step.copyOut 3 :: Sample.summing) ++ .copyOut 2 :: Sample.scanning := by
      rw [hsteps]
      rfl
    obtain ⟨decl, hdecl, hrefused⟩ := (run_without_copyOut Sample.stages_built hlowered
      (Sample.stages_accepted .gpu) hresult hcut).1 hprinted
    cases hdecl
    exact ⟨unit, lowered, outcome, hlowered, hsteps, hresult, hrefused,
      (run_without_copyOut Sample.stages_built hlowered (Sample.stages_accepted .gpu) hresult
        hsteps).2 hscanned⟩

/-- Not every copy-out is needed: without that of an array which the scan overwrites, the call of
`Sample.stages` succeeds too. -/
theorem CompiledUnit.copyOut_dispensable : Sample.stages.Built ∧
    Signature.ofArgs Sample.stages Sample.stagesArgs = .ok (Sample.stagesKey .gpu).signature ∧
    ∃ unit lowered planned outcome,
      exec (Lowering.run Sample.shading Sample.stages (Sample.stagesKey .gpu) .zero) {} =
        (.ok unit, lowered) ∧
      unit.steps =
        Sample.doubling ++ Step.copyOut 3 :: (Sample.summing ++ Step.copyOut 2 :: Sample.scanning) ∧
      (unit.run Sample.table Sample.stagesArgs lowered).result = .ok planned ∧
      ({ unit with
          steps := Sample.doubling ++ (Sample.summing ++ Step.copyOut 2 :: Sample.scanning) }.run
        Sample.table Sample.stagesArgs lowered).result = .ok outcome := by
  have hpasses : passes (fun unit lowered =>
      decide (unit.steps =
        Sample.doubling ++ Step.copyOut 3 :: (Sample.summing ++ Step.copyOut 2 :: Sample.scanning)) &&
      (unit.run Sample.table Sample.stagesArgs lowered).result.toBool &&
      ({ unit with
          steps := Sample.doubling ++ (Sample.summing ++ Step.copyOut 2 :: Sample.scanning) }.run
        Sample.table Sample.stagesArgs lowered).result.toBool)
      (exec (Lowering.run Sample.shading Sample.stages (Sample.stagesKey .gpu) .zero) {}) = true := by
    decide +kernel
  obtain ⟨unit, lowered, hlowered, hcheck⟩ := exists_of_passes hpasses
  simp only [Bool.and_eq_true, decide_eq_true_eq] at hcheck
  obtain ⟨⟨hsteps, hfull⟩, hless⟩ := hcheck
  cases hplanned : (unit.run Sample.table Sample.stagesArgs lowered).result with
  | error stop =>
    rw [hplanned] at hfull
    cases hfull
  | ok planned =>
    cases houtcome : ({ unit with
        steps := Sample.doubling ++ (Sample.summing ++ Step.copyOut 2 :: Sample.scanning) }.run
      Sample.table Sample.stagesArgs lowered).result with
    | error stop =>
      rw [houtcome] at hless
      cases hless
    | ok outcome =>
      exact ⟨Sample.stages_built, Sample.stages_accepted .gpu, unit, lowered, planned, outcome,
        hlowered, hsteps, hplanned, houtcome⟩

end ArrayOffload
