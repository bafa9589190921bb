import ArrayOffload.Proofs.Frame
import ArrayOffload.Proofs.Persistence
import ArrayOffload.Proofs.Rejection

/-!
# Plan and call in lockstep

The tracker of a plan and the tracker of a call that carries it out go through the same states. Each
step was emitted when the plan's tracker allowed it, so the call's tracker allows it too.

* `Call.ledger`: the tracker of a call and its counts;
* `Call.step_ledger`: one emitted step, however it ends;
* `Call.steps_ledger`: the steps of a path, and the tracker right after each.
-/

namespace ArrayOffload

/-- The tracker of a call, and what has been counted. -/
structure Ledger where
  tracker : Tracker
  launches : Nat
  transfers : Nat
  copyIns : Nat
  copyOuts : Nat

namespace Ledger

/-- The ledger of a call before its first step. -/
def opening (tracker : Tracker) (device : Device) : Ledger :=
  ⟨tracker, 0, 0, device.counters.copyIns, device.counters.copyOuts⟩

/-- The ledger after a step that left this tracker. -/
def after (ledger : Ledger) (tracker : Tracker) : Step → Ledger
  | .copyIn _ =>
    { ledger with
      tracker, transfers := ledger.transfers + 1, copyIns := ledger.copyIns + 1 }
  | .copyOut _ =>
    { ledger with
      tracker, transfers := ledger.transfers + 1, copyOuts := ledger.copyOuts + 1 }
  | .launch _ => { ledger with tracker, launches := ledger.launches + 1 }
  | .hostRegion _ | .hostOp _ => { ledger with tracker }

/-- The ledger after steps that left this tracker. -/
def afterAll (ledger : Ledger) (tracker : Tracker) (steps : List Step) : Ledger :=
  { tracker
    launches := ledger.launches + steps.countP Step.isLaunch
    transfers := ledger.transfers + (steps.countP Step.isCopyIn + steps.countP Step.isCopyOut)
    copyIns := ledger.copyIns + steps.countP Step.isCopyIn
    copyOuts := ledger.copyOuts + steps.countP Step.isCopyOut }

theorem afterAll_nil (ledger : Ledger) : ledger.afterAll ledger.tracker [] = ledger := rfl

theorem afterAll_cons (ledger : Ledger) (mid tracker : Tracker) (step : Step) (steps : List Step) :
    (ledger.after mid step).afterAll tracker steps = ledger.afterAll tracker (step :: steps) := by
  cases step <;>
    simp [after, afterAll, List.countP_cons, Step.isLaunch, Step.isCopyIn, Step.isCopyOut] <;>
    omega

end Ledger

namespace Call

def ledger (call : Call) : Ledger :=
  ⟨call.tracker, call.launches, call.transfers, call.machine.device.counters.copyIns,
    call.machine.device.counters.copyOuts⟩

/-- From one ledger to another, or a stop for a reason other than a stale copy. -/
abbrev Moves {α : Type} (before : Ledger) (work : CallM α) (after : Ledger) : Prop :=
  Ensures (fun call => call.ledger = before) work (fun _ call => call.ledger = after)
    fun stop _ => Failure stop

abbrev KeepsLedger {α : Type} (work : CallM α) : Prop := Keeps ledger Failure work

/-! ## Single actions -/

theorem ledger_withDevice (call : Call) (device : Device) :
    (call.withDevice device).ledger =
      { call.ledger with copyIns := device.books.copyIns, copyOuts := device.books.copyOuts } := rfl

theorem keepsLedger_of_rest {α : Type} {work : CallM α} (h : KeepsRest work) : KeepsLedger work :=
  h.mono fun _ _ hrest => congrArg (fun call => call.ledger) hrest

theorem keepsLedger_onDevice {α : Type} {work : DeviceM α} (h : Device.KeepsBooks work) :
    KeepsLedger (onDevice work) := by
  intro ledger
  refine ensures_onDevice fun call hcall => (h call.machine.device.books).weaken (fun _ hd => hd ▸ rfl)
    (fun _ device hbooks => ?_) fun stop device hbooks => ⟨?_, .ofDevice stop⟩
  · rw [ledger_withDevice, hbooks]
    exact hcall
  · rw [ledger_withDevice, hbooks.1]
    exact hcall

/-- Buffers are allocated without a transfer. -/
theorem keepsLedger_bufferOf (id : ArrayId) (elem : Elem) (length : Nat) :
    KeepsLedger (bufferOf id elem length) := by
  intro ledger call hcall
  rw [exec_bufferOf]
  cases call.buffers[id]? with
  | none => exact ⟨hcall, .fault⟩
  | some found =>
    cases found with
    | some handle => exact hcall
    | none =>
      cases call.machine.device.zeroed .buffer elem length with
      | error stop => exact ⟨hcall, .ofDevice stop⟩
      | ok cells => exact hcall

variable {f : Func} {args : List ArrayValue} {shapes : List Shape} {table : HostTable}
  {ledger : Ledger} {count : Nat}

/-- A read of a valid copy is in order. -/
theorem moves_checkReadable (hc : ledger.tracker.Covers count) {location : Location} {id : ArrayId}
    (valid : ledger.tracker.Valid location id) :
    Moves ledger (checkReadable location id) ledger := by
  intro call hcall
  have htracker : call.tracker = ledger.tracker := congrArg Ledger.tracker hcall
  rw [exec_checkReadable, htracker,
    (Tracker.checkReadable_eq_ok_iff hc (valid.lt hc)).mpr valid]
  exact hcall

theorem moves_trackAll {α : Type} (step : Tracker → ArrayId → Tracker) (idOf : α → ArrayId)
    (xs : List α) :
    Moves ledger (xs.forM fun x => track (step · (idOf x)))
      { ledger with tracker := (xs.map idOf).foldl step ledger.tracker } := by
  intro call hcall
  subst hcall
  rw [exec_trackAll step idOf]
  rfl

/-! ## Transfers -/

/-- The end of a transfer: it is counted and recorded, and the tracker moves on. -/
theorem moves_counted (event : Event) (step : Tracker → Tracker) :
    Moves ledger (do countTransfer; record event; track step)
      { ledger with
        tracker := step ledger.tracker
        transfers := ledger.transfers + 1 } := by
  intro call hcall
  subst hcall
  rfl

theorem moves_copyIn (f : Func) (shapes : List Shape) (hc : ledger.tracker.Covers count)
    {id : ArrayId} (valid : ledger.tracker.Valid .host id) (hcopied : ledger.tracker.isCopied id = true) :
    Moves ledger (copyIn f shapes id) (ledger.after (ledger.tracker.copyIn id) (.copyIn id)) := by
  refine (moves_checkReadable hc valid).bind fun _ => Ensures.get fun call hcall => ?_
  have htracker : call.tracker = ledger.tracker := congrArg Ledger.tracker hcall
  simp only [htracker, hcopied, if_true]
  refine (keeps_expect _).before fun decl => (keeps_sizeOf shapes id).before fun length =>
    (keepsLedger_bufferOf id decl.elem length).before fun buffer =>
    (keeps_load id).before fun cells => ?_
  have hdevice : Moves ledger (onDevice (Device.copyIn buffer cells))
      { ledger with copyIns := ledger.copyIns + 1 } := by
    refine ensures_onDevice fun call hcall =>
      (Device.books_copyIn buffer cells call.machine.device.books).weaken (fun _ hd => hd ▸ rfl)
        (fun _ device hbooks => ?_) fun stop _ _ => .ofDevice stop
    subst hcall
    rw [ledger_withDevice, hbooks]
    rfl
  exact hdevice.bind fun _ => moves_counted _ _

theorem moves_copyOut (f : Func) (shapes : List Shape) (hc : ledger.tracker.Covers count)
    {id : ArrayId} (valid : ledger.tracker.Valid .device id) (hcopied : ledger.tracker.isCopied id = true) :
    Moves ledger (copyOut f shapes id)
      (ledger.after (ledger.tracker.copyOut id) (.copyOut id)) := by
  refine (moves_checkReadable hc valid).bind fun _ => Ensures.get fun call hcall => ?_
  have htracker : call.tracker = ledger.tracker := congrArg Ledger.tracker hcall
  simp only [htracker, hcopied, if_true]
  refine (keeps_expect _).before fun decl => (keeps_sizeOf shapes id).before fun length =>
    (keepsLedger_bufferOf id decl.elem length).before fun buffer => Ensures.get fun call _ =>
    (keeps_zeros call.machine.device (.transfer id) decl.elem length).before fun room => ?_
  have hdevice : Moves ledger (onDevice (Device.copyOut buffer room.size))
      { ledger with copyOuts := ledger.copyOuts + 1 } := by
    refine ensures_onDevice fun call hcall =>
      (Device.books_copyOut buffer room.size call.machine.device.books).weaken (fun _ hd => hd ▸ rfl)
        (fun _ device hbooks => ?_) fun stop _ _ => .ofDevice stop
    subst hcall
    rw [ledger_withDevice, hbooks]
    rfl
  exact hdevice.bind fun cells => (keepsLedger_of_rest (keeps_store id cells)).before
    fun _ => moves_counted _ _

/-! ## Launches -/

/-- A slot is bound without a check if it is only written. -/
theorem moves_bindSlot (hc : ledger.tracker.Covers count) {slot : KernelParam × ArrayId}
    (valid : slot.1.access.reads = true → ledger.tracker.Valid .device slot.2) :
    Moves ledger (bindSlot f shapes slot) ledger := by
  obtain ⟨param, id⟩ := slot
  have bound : Moves ledger (placeOf f shapes id) ledger := by
    refine Ensures.get fun call _ => (keeps_expect _).before fun storage => ?_
    cases storage with
    | shared handle => exact Ensures.pure handle fun _ h => h
    | owned cells =>
      exact (keeps_expect _).before fun decl => (keeps_sizeOf shapes id).before fun length =>
        (keepsLedger_bufferOf id decl.elem length ledger).weaken (fun _ h => h)
          (fun _ _ h => h) fun _ _ h => h.2
  unfold bindSlot
  cases hreads : param.access.reads with
  | true =>
    simp only [hreads, if_true]
    exact (moves_checkReadable hc (valid hreads)).bind fun _ => bound
  | false =>
    simp only [hreads]
    exact bound

theorem moves_launch (shapes : List Shape) (hc : ledger.tracker.Covers count)
    {kernel : CompiledKernel} {region : Region} (impl : kernel.plan.Implements f region)
    (valid : ∀ id ∈ region.reads, ledger.tracker.Valid .device id) (index : Nat) :
    Moves ledger (launch f shapes kernel)
      (ledger.after (region.writes.foldl Tracker.deviceWrite ledger.tracker) (.launch index)) := by
  have slots : Moves ledger
      ((kernel.plan.kernel.params.zip kernel.plan.bindings).mapM (bindSlot f shapes)) ledger := by
    refine Ensures.mapM _ fun slot hslot => moves_bindSlot hc fun hreads => valid slot.2 ?_
    rw [← impl.reads_eq]
    exact List.mem_map_of_mem (List.mem_filter.mpr ⟨hslot, hreads⟩)
  refine slots.bind fun buffers => (keeps_expect _).before fun grid =>
    (keepsLedger_of_rest (keeps_record _)).before fun _ =>
    (keepsLedger_onDevice (Device.keeps_launch _ _ _)).before fun _ => ?_
  intro call hcall
  subst hcall
  rw [exec_bind, exec_modify]
  dsimp only
  rw [exec_trackAll Tracker.deviceWrite (fun slot : KernelParam × ArrayId => slot.2),
    impl.writes_eq]
  rfl

/-! ## Work on the host -/

theorem moves_hostWork (res : Shapes.Resolved f args table shapes)
    (hc : ledger.tracker.Covers count) {checked : List ArrayId} (writes : List ArrayId)
    (ops : List Op) (hops : ∀ op ∈ ops, op ∈ f.body) (valid : ∀ id ∈ checked, ledger.tracker.Valid .host id) :
    Moves ledger (hostWork f shapes table checked writes ops)
      { ledger with tracker := writes.foldl Tracker.hostWrite ledger.tracker } := by
  have checks : Moves ledger (checked.forM (checkReadable .host)) ledger :=
    Ensures.forM _ fun id hid => moves_checkReadable hc (valid id hid)
  have work : KeepsLedger (ops.forM (hostOp f shapes table)) :=
    Keeps.forM _ fun op hop => keepsLedger_of_rest (keeps_hostOp res (hops op hop))
  refine checks.bind fun _ => work.before fun _ => ?_
  have moved : Moves ledger _ _ := moves_trackAll Tracker.hostWrite (fun id : ArrayId => id) writes
  rwa [List.map_id'] at moved

/-! ## Steps -/

section
variable {regions : List Region} {draft next last : Draft} {step : Step} {ops : List Op}
  {trail : List Draft} {unit : CompiledUnit} (hfunction : unit.function = f)
  (hregions : unit.regions = regions)

include hfunction hregions

/-- A step that the plan's tracker allowed succeeds with the plan's next tracker, or stops for a
reason other than a stale copy. -/
theorem step_ledger (res : Shapes.Resolved f args table shapes)
    (hc : draft.tracker.Covers f.arrays.length) (htracker : ledger.tracker = draft.tracker)
    (emits : Draft.Emits f regions draft step ops next)
    (hplans : next.launches <+: unit.kernels.map (·.plan)) :
    Moves ledger (Call.step unit shapes table step) (ledger.after next.tracker step) := by
  subst hfunction hregions
  rw [← htracker] at hc
  cases emits with
  | copyIn valid copied =>
    rw [← htracker] at valid copied
    have moved := moves_copyIn unit.function shapes hc valid copied
    rwa [htracker] at moved
  | copyOut valid copied =>
    rw [← htracker] at valid copied
    have moved := moves_copyOut unit.function shapes hc valid copied
    rwa [htracker] at moved
  | @launch plan region hregion impl valid =>
    -- the plan numbers its launches in the order in which the kernels were compiled
    have hplan : (unit.kernels.map (·.plan))[draft.launches.length]? = some plan := by
      obtain ⟨more, hmore⟩ := hplans
      simp [← hmore, Draft.launched]
    rw [List.getElem?_map, Option.map_eq_some_iff] at hplan
    obtain ⟨kernel, hkernel, rfl⟩ := hplan
    rw [← htracker] at valid
    have moved := moves_launch shapes hc impl valid draft.launches.length
    rw [htracker] at moved
    refine moved.congr fun call => ?_
    rw [Call.step, hkernel, exec_bind, exec_expect, orFault]
  | @hostRegion index region hregion valid =>
    rw [← htracker] at valid
    have moved := moves_hostWork res hc region.writes (region.ops unit.function)
      (fun op => Region.mem_body) valid
    rw [htracker] at moved
    refine moved.congr fun call => ?_
    rw [Call.step, hregion, exec_bind, exec_expect, orFault]
    rfl
  | @hostOp index op hop valid =>
    rw [← htracker] at valid
    have moved := moves_hostWork res hc op.writes [op]
      (by simpa using List.mem_of_getElem? hop) valid
    rw [htracker] at moved
    refine moved.congr fun call => ?_
    rw [Call.step, hop, exec_bind, exec_expect, orFault]
    exact exec_singleOp _ _ _ op call

/-- The steps of a path, one after the other. -/
theorem steps_ledger (res : Shapes.Resolved f args table shapes)
    (hc : draft.tracker.Covers f.arrays.length) (htracker : ledger.tracker = draft.tracker)
    (path : Draft.Path f regions draft trail ops last)
    (hplans : last.launches <+: unit.kernels.map (·.plan)) {steps : List Step}
    (hsteps : last.steps = draft.steps ++ steps) :
    Moves ledger (steps.forM (Call.step unit shapes table))
      (ledger.afterAll last.tracker steps) := by
  induction path generalizing ledger steps with
  | nil draft =>
    obtain rfl := List.append_right_eq_self.mp hsteps.symm
    rw [← htracker, Ledger.afterAll_nil]
    exact Ensures.pure _ fun _ h => h
  | @cons draft next last step ops more trail emits path ih =>
    obtain ⟨others, hothers⟩ := path.steps.2.1
    rw [← hothers, emits.steps, List.append_assoc, List.append_cancel_left_eq,
      List.singleton_append] at hsteps
    subst hsteps
    have first := step_ledger hfunction hregions res hc htracker emits (path.launches.trans hplans)
    have hnext : (ledger.after next.tracker step).tracker = next.tracker := by
      cases step <;> rfl
    have rest := ih (emits.covers hc) hnext hplans hothers.symm
    rw [Ledger.afterAll_cons] at rest
    exact first.bind fun _ => rest

end

/-! ## Whole calls -/

/-- The ledger that a call reports. -/
def Reports (ledger : Ledger) (outcome : Outcome) : Prop :=
  outcome.residency = (ledger.tracker.bindings.map (·.name)).zip ledger.tracker.states ∧
    outcome.launches = ledger.launches ∧ outcome.transfers = ledger.transfers

section
variable {profile : Profile} {key : UnitKey} {partition : Partition}
  {placed : Placement.Launches} {tracker : Tracker} {body : Draft} {unit : CompiledUnit}
  {machine : Machine} {call : Call}

theorem start_ledger
    (planned : Lowering.Planned profile f key partition placed tracker body unit)
    (started : Started unit table args machine call shapes) :
    call.ledger = Ledger.opening tracker machine.device := by
  have htracker := started.tracker
  rw [planned.function_eq, planned.key_eq, planned.started, Option.some.injEq] at htracker
  obtain ⟨_, hlaunches, htransfers⟩ := started.counts
  simp only [ledger, Ledger.opening, htracker, hlaunches, htransfers, started.machine]

/-- After each step, the call's tracker is the tracker of the draft that emitted the step. -/
theorem tracker_after
    (planned : Lowering.Planned profile f key partition placed tracker body unit)
    (started : Started unit table args machine call shapes) {i : Nat} {draft : Draft} {mid : Call}
    (hdraft : ((Draft.start tracker).bodyTrail f partition.regions placed partition.segments ++
      body.finishTrail)[i]? = some draft)
    (hexec : exec ((unit.steps.take (i + 1)).forM (Call.step unit shapes table)) call =
      (.ok (), mid)) : mid.tracker = draft.tracker := by
  obtain ⟨done, rest, more, first, second⟩ := planned.path.take hdraft
  have hsteps : draft.steps = (Draft.start tracker).steps ++ unit.steps.take (i + 1) := by
    have := planned.path.steps.2.2 hdraft
    simpa [planned.steps_eq, Draft.start] using this
  have htracker : (Ledger.opening tracker machine.device).tracker = (Draft.start tracker).tracker :=
    rfl
  have moved := steps_ledger planned.function_eq planned.regions_eq
    (planned.function_eq ▸ started.resolved) planned.covers htracker first
    (second.launches.trans (planned.plans_finish ▸ List.prefix_refl _)) hsteps
  have hafter := moved.of_ok (start_ledger planned started) hexec
  exact congrArg Ledger.tracker hafter

/-- A whole plan is carried out with the plan's trackers, the checks at its end included. -/
theorem body_ledger
    (planned : Lowering.Planned profile f key partition placed tracker body unit)
    (res : Shapes.Resolved f args table shapes) (htracker : ledger.tracker = tracker) :
    Ensures (fun call => call.ledger = ledger) (Call.body unit shapes table args)
      (fun outcome call => call.ledger = ledger.afterAll body.finish.tracker unit.steps ∧
        Reports (ledger.afterAll body.finish.tracker unit.steps) outcome)
      fun stop _ => Failure stop := by
  obtain ⟨path, escapes⟩ := planned.path_escapes
  have hsteps : body.finish.steps = (Draft.start tracker).steps ++ unit.steps := planned.steps_eq.symm
  have steps := steps_ledger planned.function_eq planned.regions_eq res planned.covers htracker path
    (planned.plans_finish ▸ List.prefix_refl _) hsteps
  have covers : (ledger.afterAll body.finish.tracker unit.steps).tracker.Covers f.arrays.length :=
    path.covers planned.covers
  refine steps.bind fun _ => Ensures.get fun call hcall => ?_
  have hfinal : call.tracker = body.finish.tracker := congrArg Ledger.tracker hcall
  rw [hfinal]
  have checks : Moves (ledger.afterAll body.finish.tracker unit.steps)
      ((body.finish.tracker.bindings.filter (·.escapes)).forM fun b => checkReadable .host b.array)
      (ledger.afterAll body.finish.tracker unit.steps) := by
    refine Ensures.forM _ fun binding hbinding => moves_checkReadable covers ?_
    obtain ⟨hmem, hescapes⟩ := List.mem_filter.mp hbinding
    exact escapes binding hmem hescapes
  refine checks.bind fun _ => (keeps_returned _ _ _).before fun result =>
    Ensures.get fun final hfinal => Ensures.pure _ fun s hs => ⟨hs, rfl, ?_, ?_⟩
  · exact congrArg Ledger.launches hfinal
  · exact congrArg Ledger.transfers hfinal

end

theorem counters_close (call : Call) :
    call.close.device.counters.copyIns = call.machine.device.counters.copyIns ∧
      call.close.device.counters.copyOuts = call.machine.device.counters.copyOuts := by
  have hreleases : ∀ (handles : List Nat) (device : Device),
      (handles.foldl Device.release device).counters.copyIns = device.counters.copyIns ∧
        (handles.foldl Device.release device).counters.copyOuts = device.counters.copyOuts := by
    intro handles
    induction handles with
    | nil => exact fun _ => ⟨rfl, rfl⟩
    | cons handle rest ih =>
      intro device
      obtain ⟨hin, hout⟩ := ih (device.release handle)
      have hone : (device.release handle).counters.copyIns = device.counters.copyIns ∧
          (device.release handle).counters.copyOuts = device.counters.copyOuts := by
        unfold Device.release
        split <;> exact ⟨rfl, rfl⟩
      exact ⟨hin.trans hone.1, hout.trans hone.2⟩
  exact hreleases _ _

end Call

section
variable {profile : Profile} {f : Func} {key : UnitKey} {partition : Partition}
  {placed : Placement.Launches} {tracker : Tracker} {body : Draft} {unit : CompiledUnit}
  {args : List ArrayValue} {table : HostTable} {machine : Machine}

/-- A planned call that fails was rejected, or failed in some work other than a check of a copy. -/
theorem Lowering.Planned.run_error
    (planned : Planned profile f key partition placed tracker body unit) (wf : f.WellFormed)
    (accepted : key.signature.Accepts f args) {stop : Stop OffloadError}
    (h : (unit.run table args machine).result = .error stop) :
    Call.Rejection table stop ∨ Call.Failure stop := by
  rcases CompiledUnit.cases_of_run_error h with hstart | ⟨call, shapes, final, hstart, hbody⟩
  · refine .inl (Call.start_rejection ?_ ?_ hstart)
    · exact planned.function_eq ▸ wf.toChecked
    · rw [planned.key_eq, planned.function_eq]
      exact accepted
  · have started := Call.start_ok hstart
    exact .inr ((Call.body_ledger planned (planned.function_eq ▸ started.resolved) rfl).of_error
      (Call.start_ledger planned started) hbody)

/-- A planned call that succeeds has the ledger of the plan. -/
theorem Lowering.Planned.run_ok
    (planned : Planned profile f key partition placed tracker body unit) {outcome : Outcome}
    (h : (unit.run table args machine).result = .ok outcome) :
    Call.Reports ((Ledger.opening tracker machine.device).afterAll body.finish.tracker unit.steps)
        outcome ∧
      (unit.run table args machine).machine.device.counters.copyIns =
        machine.device.counters.copyIns + unit.steps.countP Step.isCopyIn ∧
      (unit.run table args machine).machine.device.counters.copyOuts =
        machine.device.counters.copyOuts + unit.steps.countP Step.isCopyOut := by
  obtain ⟨call, shapes, final, hstart, hbody⟩ := CompiledUnit.exists_of_run_ok h
  have started := Call.start_ok hstart
  obtain ⟨hledger, hreports⟩ :=
    (Call.body_ledger planned (planned.function_eq ▸ started.resolved) rfl).of_ok
      (Call.start_ledger planned started) hbody
  obtain ⟨hins, houts⟩ := final.counters_close
  rw [CompiledUnit.run_of_ok hstart hbody]
  refine ⟨hreports, ?_, ?_⟩
  · exact hins.trans (congrArg Ledger.copyIns hledger)
  · exact houts.trans (congrArg Ledger.copyOuts hledger)

end

/-- A lowered unit runs as planned. Its records name its transfers, one record for each, in order.
The call's tracker is the plan's tracker after every step, so no read of a stale copy is ever
reported. A call that succeeds reports the states, the launches and the transfers of the plan. -/
theorem CompiledUnit.run_in_lockstep {profile : Profile} {f : Func} {key : UnitKey}
    {fingerprint : ContentHash} {before lowered : Machine} {unit : CompiledUnit} (built : f.Built)
    (hlowered : exec (Lowering.run profile f key fingerprint) before = (.ok unit, lowered))
    {args : List ArrayValue} (accepted : Signature.ofArgs f args = .ok key.signature)
    (table : HostTable) (machine : Machine) :
    unit.transfers = Step.transfers unit.steps ∧
    (∃ trail, Lowering.trail? profile f key.signature key.context = some trail ∧
      trail.length = unit.steps.length ∧
      (∀ (i : Nat) (draft : Draft), trail[i]? = some draft →
        draft.steps = unit.steps.take (i + 1)) ∧
      ∀ (call : Call) (shapes : List Shape),
        Call.start unit table args machine = .ok (call, shapes) →
        ∀ (i : Nat) (draft : Draft) (mid : Call), trail[i]? = some draft →
          exec ((unit.steps.take (i + 1)).forM (Call.step unit shapes table)) call =
            (.ok (), mid) →
          mid.tracker = draft.tracker) ∧
    (∀ array location state, (unit.run table args machine).result ≠
      .error (.error (.residency array location state))) ∧
    ∀ outcome, (unit.run table args machine).result = .ok outcome →
      outcome.residency = (unit.bindings.map (·.name)).zip unit.atExit ∧
      outcome.launches = unit.kernels.length ∧
      outcome.transfers = unit.transfers.length ∧
      (unit.run table args machine).machine.device.counters.copyIns =
        machine.device.counters.copyIns + unit.copyIns.length ∧
      (unit.run table args machine).machine.device.counters.copyOuts =
        machine.device.counters.copyOuts + unit.copyOuts.length := by
  obtain ⟨partition, placed, tracker, body, planned⟩ := Lowering.run_planned hlowered
  have htrail := planned.path.steps
  refine ⟨planned.transfers_steps, ⟨_, planned.trail?_eq, ?_, ?_, ?_⟩, ?_, ?_⟩
  · rw [planned.steps_eq, htrail.1]
    exact (Nat.zero_add _).symm
  · intro i draft hdraft
    have hsteps := htrail.2.2 hdraft
    rwa [← planned.steps_eq, show (Draft.start tracker).steps.length = 0 from rfl,
      Nat.zero_add] at hsteps
  · intro call shapes hstart i draft mid hdraft hexec
    exact Call.tracker_after planned (Call.start_ok hstart) hdraft hexec
  · -- neither the start nor a planned step has a stale copy among its reasons to stop
    intro array location state hresult
    rcases planned.run_error built.wellFormed (Signature.ofArgs_ok accepted) hresult with
      hrejected | hfailed
    · cases hrejected
    · cases hfailed
  · intro outcome hresult
    obtain ⟨⟨hresidency, hlaunches, htransfers⟩, hins, houts⟩ := planned.run_ok hresult
    refine ⟨?_, ?_, ?_, ?_, ?_⟩
    · rw [planned.bindings_eq, planned.atExit_eq]
      exact hresidency
    · rw [planned.kernels_length]
      exact hlaunches.trans (Nat.zero_add _)
    · rw [planned.transfers_steps, Step.length_transfers]
      exact htransfers.trans (Nat.zero_add _)
    · rw [hins, CompiledUnit.copyIns, planned.transfers_steps, Step.copyIns_transfers]
    · rw [houts, CompiledUnit.copyOuts, planned.transfers_steps, Step.copyOuts_transfers]

/-- The call of `Sample.blend` launches three kernels and moves arrays five times, as planned. -/
theorem CompiledUnit.run_in_lockstep_sample : ∃ unit lowered outcome,
    Sample.lower .gpu Sample.machine = (.ok unit, lowered) ∧
    unit.transfers = Step.transfers unit.steps ∧
    (unit.run Sample.table Sample.args lowered).result = .ok outcome ∧
    outcome.launches = 3 ∧ outcome.transfers = 5 := by
  obtain ⟨unit, lowered, hlowered, hcheck⟩ := Sample.lower_of_check .gpu Sample.machine
    (fun unit lowered => (unit.run Sample.table Sample.args lowered).result.toBool &&
      decide (unit.kernels.length = 3 ∧ unit.transfers.length = 5)) (by decide +kernel)
  simp only [Bool.and_eq_true, decide_eq_true_eq] at hcheck
  obtain ⟨hok, hkernels, htransfers⟩ := hcheck
  obtain ⟨hrecords, _, _, hreport⟩ := run_in_lockstep Sample.blend_built hlowered
    (Sample.accepted .gpu) Sample.table lowered
  cases hresult : (unit.run Sample.table Sample.args lowered).result with
  | error stop =>
    rw [hresult] at hok
    cases hok
  | ok outcome =>
    obtain ⟨_, hlaunches, hmoves, _, _⟩ := hreport outcome hresult
    exact ⟨unit, lowered, outcome, hlowered, hrecords, hresult, hlaunches.trans hkernels,
      hmoves.trans htransfers⟩

end ArrayOffload
