import ArrayOffload.Plan.CompiledUnit
import ArrayOffload.Proofs.ExactPartition
import ArrayOffload.Proofs.Extension

/-!
# Schedules

The steps of a unit, replayed from the start, say at each moment which copies are out of date. In a
schedule each launch stands between its transfers: before it, what the device lacks; after it, what
it wrote and the host needs.

* `CompiledUnit.replay`: residency after some steps;
* `CompiledUnit.NeededOnHost`: the host uses an array before the device writes it;
* `CompiledUnit.Scheduled`: steps in blocks, with the transfers of each launch around it;
* `CompiledUnit.Scheduled.sited`: every step of a schedule is needed and stands where it belongs.
-/

namespace ArrayOffload

/-! ## Residency -/

namespace Tracker

variable {tracker : Tracker} {id other : ArrayId} {ids : List ArrayId}

/-- The copy of an array at a location is out of date. -/
def Stale (tracker : Tracker) (location : Location) (id : ArrayId) : Prop :=
  ∃ state, tracker.state? id = some state ∧ state.validOn location = false

theorem stale_host_iff : tracker.Stale .host id ↔ tracker.state? id = some .deviceValid := by
  constructor
  · rintro ⟨state, hs, hv⟩
    rw [hs, stale_host hv]
  · exact fun hs => ⟨_, hs, rfl⟩

theorem stale_device_iff : tracker.Stale .device id ↔ tracker.state? id = some .hostValid := by
  constructor
  · rintro ⟨state, hs, hv⟩
    rw [hs, stale_device hv]
  · exact fun hs => ⟨_, hs, rfl⟩

theorem needsCopyOut?_eq_true_iff : tracker.needsCopyOut? id = some true ↔
    tracker.isCopied id = true ∧ tracker.state? id = some .deviceValid := by
  refine ⟨needsCopyOut?_true, fun ⟨hcopied, hs⟩ => ?_⟩
  simp [needsCopyOut?, hs, hcopied, Residency.validOn]

namespace Local

variable {step : Tracker → ArrayId → Tracker}

theorem state?_of_ne (h : Local step) (tracker : Tracker) (hne : other ≠ id) :
    (step tracker id).state? other = tracker.state? other := by
  rcases h tracker id with heq | ⟨state, heq⟩ <;> rw [heq]
  rw [state?_withState, if_neg hne]

theorem state?_foldl (h : Local step) (tracker : Tracker) (hnot : other ∉ ids) :
    (ids.foldl step tracker).state? other = tracker.state? other := by
  induction ids generalizing tracker with
  | nil => rfl
  | cons id rest ih =>
    rw [List.mem_cons, not_or] at hnot
    rw [List.foldl_cons, ih _ hnot.2, h.state?_of_ne tracker hnot.1]

theorem exists_state (h : Local step) (tracker : Tracker)
    (hs : ∃ state, tracker.state? other = some state) :
    ∃ state, (step tracker id).state? other = some state := by
  rcases h tracker id with heq | ⟨state, heq⟩ <;> rw [heq]
  · exact hs
  · obtain ⟨found, hs⟩ := hs
    rw [state?_withState]
    split
    · next hother => exact ⟨state, by rw [← hother, hs]; rfl⟩
    · exact ⟨found, hs⟩

theorem exists_state_foldl (h : Local step) (ids : List ArrayId) (tracker : Tracker)
    (hs : ∃ state, tracker.state? other = some state) :
    ∃ state, (ids.foldl step tracker).state? other = some state := by
  induction ids generalizing tracker with
  | nil => exact hs
  | cons id rest ih => exact ih _ (h.exists_state tracker hs)

end Local

/-- The arrays of a region that is to be launched have a state. -/
theorem exists_state_of_copyInSet? {region : Region} {ins : List ArrayId}
    (h : tracker.copyInSet? region = some ins) (hid : id ∈ region.writes) :
    ∃ state, tracker.state? id = some state := by
  obtain ⟨hstale, hothers⟩ := copyInSet?_ok h
  obtain ⟨use, huse, rfl⟩ := List.mem_map.mp hid
  rcases hothers use (List.mem_filter.mp huse).1 with hin | ⟨state, hs, _⟩
  · exact ⟨_, hstale _ hin⟩
  · exact ⟨state, hs⟩

/-- What the device writes is valid on the device only. -/
theorem state?_deviceWrites {state : Residency} (hid : id ∈ ids)
    (hcopied : tracker.isCopied id = true) (hs : tracker.state? id = some state) :
    (ids.foldl deviceWrite tracker).state? id = some .deviceValid := by
  induction ids generalizing tracker state with
  | nil => cases hid
  | cons written rest ih =>
    rw [List.foldl_cons]
    have hstate : ∃ state, (tracker.deviceWrite written).state? id = some state ∧
        (id = written → state = .deviceValid) := by
      by_cases heq : id = written
      · subst heq
        exact ⟨.deviceValid, by simp [deviceWrite, hcopied, state?_withState, hs], fun _ => rfl⟩
      · exact ⟨state, (local_deviceWrite.state?_of_ne tracker heq).trans hs, fun h => absurd h heq⟩
    obtain ⟨state, hstate, hwritten⟩ := hstate
    by_cases hrest : id ∈ rest
    · refine ih hrest ?_ hstate
      rw [isCopied_congr (local_deviceWrite.bindings tracker written), hcopied]
    · rw [local_deviceWrite.state?_foldl _ hrest, hstate]
      rcases List.mem_cons.mp hid with heq | hmem
      · rw [hwritten heq]
      · exact absurd hmem hrest

/-- What is still stale on the host was not copied out. -/
theorem not_mem_of_copyOuts (h : (ids.foldl copyOut tracker).state? id = some .deviceValid) :
    id ∉ ids := by
  induction ids generalizing tracker with
  | nil => simp
  | cons moved rest ih =>
    rw [List.mem_cons, not_or]
    refine ⟨?_, ih h⟩
    rintro rfl
    exact state?_copyOut_self (keepsFresh_copyOut.foldl h)

end Tracker

/-- Work of the body on the host. -/
def Step.isHostWork : Step → Bool
  | .hostRegion _ | .hostOp _ => true
  | .copyIn _ | .copyOut _ | .launch _ => false

/-! ## Replaying a unit -/

namespace CompiledUnit

variable {unit : CompiledUnit} {id : ArrayId} {step : Step} {steps rest : List Step}

/-- The arrays that a launch writes. -/
def launchWrites (unit : CompiledUnit) (index : Nat) : List ArrayId :=
  (unit.kernels[index]?.bind fun kernel => unit.regions[kernel.plan.kernel.region]?).elim []
    Region.writes

theorem launchWrites_eq {index : Nat} {kernel : CompiledKernel} {region : Region}
    (hkernel : unit.kernels[index]? = some kernel)
    (hregion : unit.regions[kernel.plan.kernel.region]? = some region) :
    unit.launchWrites index = region.writes := by
  simp [launchWrites, hkernel, hregion]

/-- Residency after one step. -/
def track (unit : CompiledUnit) (tracker : Tracker) : Step → Tracker
  | .copyIn id => tracker.copyIn id
  | .copyOut id => tracker.copyOut id
  | .launch index => (unit.launchWrites index).foldl Tracker.deviceWrite tracker
  | .hostRegion index =>
    (unit.regions[index]?.elim [] Region.writes).foldl Tracker.hostWrite tracker
  | .hostOp index => (unit.function.body[index]?.elim [] Op.writes).foldl Tracker.hostWrite tracker

/-- Residency after some steps. -/
def replay (unit : CompiledUnit) (tracker : Tracker) (steps : List Step) : Tracker :=
  steps.foldl unit.track tracker

theorem replay_append (tracker : Tracker) (first second : List Step) :
    unit.replay tracker (first ++ second) = unit.replay (unit.replay tracker first) second :=
  List.foldl_append

theorem replay_copyIns (tracker : Tracker) (ids : List ArrayId) :
    unit.replay tracker (ids.map .copyIn) = ids.foldl Tracker.copyIn tracker :=
  List.foldl_map

theorem replay_copyOuts (tracker : Tracker) (ids : List ArrayId) :
    unit.replay tracker (ids.map .copyOut) = ids.foldl Tracker.copyOut tracker :=
  List.foldl_map

theorem replay_launch (tracker : Tracker) (ins : List ArrayId) (index : Nat) :
    unit.replay tracker (ins.map .copyIn ++ [.launch index]) =
      (unit.launchWrites index).foldl Tracker.deviceWrite (ins.foldl Tracker.copyIn tracker) := by
  rw [replay_append, replay_copyIns]
  rfl

theorem bindings_track (tracker : Tracker) (step : Step) :
    (unit.track tracker step).bindings = tracker.bindings := by
  cases step with
  | copyIn => exact Tracker.local_copyIn.bindings _ _
  | copyOut => exact Tracker.local_copyOut.bindings _ _
  | launch => exact Tracker.local_deviceWrite.bindings_foldl _ _
  | hostRegion | hostOp => exact Tracker.local_hostWrite.bindings_foldl _ _

theorem isCopied_replay (tracker : Tracker) (steps : List Step) :
    (unit.replay tracker steps).isCopied = tracker.isCopied := by
  refine Tracker.isCopied_congr ?_
  induction steps generalizing tracker with
  | nil => rfl
  | cons step rest ih => exact (ih _).trans (bindings_track tracker step)

/-! ## What the host needs -/

/-- The host uses the array in this step. -/
def touchedOnHost (unit : CompiledUnit) (id : ArrayId) : Step → Bool
  | .hostOp index => unit.function.body[index]?.any (·.touches id)
  | .hostRegion index => unit.regions[index]?.any (·.touches id)
  | .copyIn _ | .copyOut _ | .launch _ => false

/-- The device writes the array in this step. -/
def writtenOnDevice (unit : CompiledUnit) (id : ArrayId) : Step → Bool
  | .launch index => id ∈ unit.launchWrites index
  | .copyIn _ | .copyOut _ | .hostRegion _ | .hostOp _ => false

/-- In some of these steps the host uses the array, and the device has not written it before. -/
def NeededOnHost (unit : CompiledUnit) (id : ArrayId) (steps : List Step) : Prop :=
  ∃ before step after, steps = before ++ step :: after ∧ unit.touchedOnHost id step = true ∧
    ∀ other ∈ before, unit.writtenOnDevice id other = false

theorem not_neededOnHost_nil : ¬ unit.NeededOnHost id [] := by
  rintro ⟨before, step, after, h, _⟩
  simp at h

theorem neededOnHost_cons : unit.NeededOnHost id (step :: rest) ↔
    unit.touchedOnHost id step = true ∨
      unit.writtenOnDevice id step = false ∧ unit.NeededOnHost id rest := by
  constructor
  · rintro ⟨_ | ⟨first, before⟩, found, after, h, htouched, hbefore⟩
    · cases h
      exact .inl htouched
    · cases h
      exact .inr ⟨hbefore step (by simp), before, found, after, rfl, htouched,
        fun other ho => hbefore other (by simp [ho])⟩
  · rintro (htouched | ⟨hwritten, before, found, after, rfl, htouched, hbefore⟩)
    · exact ⟨[], step, rest, rfl, htouched, by simp⟩
    · refine ⟨step :: before, found, after, rfl, htouched, fun other ho => ?_⟩
      rcases List.mem_cons.mp ho with rfl | ho
      · exact hwritten
      · exact hbefore other ho

/-- Transfers are no use of an array. -/
theorem neededOnHost_copies (ids : List ArrayId) :
    (unit.NeededOnHost id (ids.map .copyIn ++ rest) ↔ unit.NeededOnHost id rest) ∧
      (unit.NeededOnHost id (ids.map .copyOut ++ rest) ↔ unit.NeededOnHost id rest) := by
  induction ids with
  | nil => exact ⟨.rfl, .rfl⟩
  | cons moved ids ih =>
    simp only [List.map_cons, List.cons_append, neededOnHost_cons, ih, touchedOnHost,
      writtenOnDevice]
    simp

/-! ## Schedules -/

/-- The transfers around a launch: before it, what the device lacks; after it, what it wrote and the
host needs. -/
structure Surrounds (unit : CompiledUnit) (tracker : Tracker) (index : Nat)
    (ins outs : List ArrayId) (rest : List Step) : Prop where
  bound : ∃ kernel, unit.kernels[index]? = some kernel ∧
    unit.regions[kernel.plan.kernel.region]?.isSome ∧ ∀ id ∈ ins, id ∈ kernel.plan.bindings
  ins_nodup : ins.Nodup
  missing : ∀ id ∈ ins, tracker.isCopied id = true ∧ tracker.Stale .device id
  outs_nodup : outs.Nodup
  outdated : ∀ id ∈ outs, (unit.replay tracker (ins.map .copyIn ++ [.launch index])).Stale .host id
  mem_outs : ∀ {id : ArrayId}, id ∈ outs ↔ id ∈ unit.launchWrites index ∧
    tracker.isCopied id = true ∧ unit.NeededOnHost id rest

/-- Steps that move exactly what is needed: work on the host with valid copies, and launches between
their transfers. -/
inductive Scheduled (unit : CompiledUnit) : Tracker → List Step → Tracker → Prop
  | done (tracker : Tracker) : Scheduled unit tracker [] tracker
  | host {tracker last : Tracker} {step : Step} {rest : List Step} :
      step.isHostWork = true →
      (∀ id, unit.touchedOnHost id step = true → ¬ tracker.Stale .host id) →
      Scheduled unit (unit.track tracker step) rest last →
      Scheduled unit tracker (step :: rest) last
  | launch {tracker last : Tracker} {index : Nat} {ins outs : List ArrayId} {rest : List Step} :
      unit.Surrounds tracker index ins outs rest →
      Scheduled unit (unit.replay tracker
        (ins.map .copyIn ++ .launch index :: outs.map .copyOut)) rest last →
      Scheduled unit tracker (ins.map .copyIn ++ .launch index :: (outs.map .copyOut ++ rest)) last

/-- A schedule ends where its steps lead. -/
theorem Scheduled.replay_eq {tracker last : Tracker} (h : unit.Scheduled tracker steps last) :
    unit.replay tracker steps = last := by
  induction h with
  | done => rfl
  | host _ _ _ ih => exact ih
  | launch _ _ ih =>
    rw [← ih, ← replay_append, List.append_assoc, List.cons_append]

/-- Copy-outs stand only after launches. -/
theorem Scheduled.not_copyOut {tracker last : Tracker}
    (h : unit.Scheduled tracker (.copyOut id :: rest) last) : False := by
  generalize hsteps : Step.copyOut id :: rest = steps at h
  cases h with
  | done => cases hsteps
  | host hwork =>
    cases hsteps
    cases hwork
  | @launch _ _ _ ins _ _ _ _ => cases ins <;> cases hsteps

/-! ## Where transfers stand -/

/-- At this moment the step has to be: an array is moved if it is copied and out of date at the
target, a launch runs the kernel of a region, and work on the host finds nothing out of date. -/
def Needed (unit : CompiledUnit) (tracker : Tracker) : Step → Prop
  | .copyIn id => tracker.isCopied id = true ∧ tracker.Stale .device id
  | .copyOut id => tracker.isCopied id = true ∧ tracker.Stale .host id
  | .launch index => ∃ kernel, unit.kernels[index]? = some kernel ∧
      unit.regions[kernel.plan.kernel.region]?.isSome
  | .hostRegion index => ∀ id, unit.touchedOnHost id (.hostRegion index) = true →
      ¬ tracker.Stale .host id
  | .hostOp index => ∀ id, unit.touchedOnHost id (.hostOp index) = true → ¬ tracker.Stale .host id

/-- The step stands where it belongs among the steps before and after it. Copy-ins lead up to a
launch that binds the array; copy-outs follow a launch that writes it, and do so exactly for what
the host needs. -/
def InPlace (unit : CompiledUnit) (copied : ArrayId → Bool) (before : List Step) (step : Step)
    (after : List Step) : Prop :=
  match step with
  | .copyIn id => ∃ (ids : List ArrayId) (index : Nat) (kernel : CompiledKernel) (rest : List Step),
      after = ids.map .copyIn ++ .launch index :: rest ∧
      unit.kernels[index]? = some kernel ∧ id ∈ kernel.plan.bindings
  | .copyOut id => ∃ (front : List Step) (index : Nat) (ids : List ArrayId),
      before = front ++ .launch index :: ids.map .copyOut ∧ id ∈ unit.launchWrites index
  | .launch index => ∀ id ∈ unit.launchWrites index, copied id = true →
      ((∃ (ids : List ArrayId) (rest : List Step),
        after = ids.map .copyOut ++ .copyOut id :: rest) ↔ unit.NeededOnHost id after)
  | .hostRegion _ | .hostOp _ => True

variable {copied : ArrayId → Bool} {before after : List Step}

theorem InPlace.prepend (h : unit.InPlace copied before step after) (more : List Step) :
    unit.InPlace copied (more ++ before) step after := by
  cases step with
  | copyOut id =>
    obtain ⟨front, index, ids, rfl, hwritten⟩ := h
    exact ⟨more ++ front, index, ids, (List.append_assoc ..).symm, hwritten⟩
  | copyIn | launch | hostRegion | hostOp => exact h

theorem needed_of_isHostWork {tracker : Tracker} (h : step.isHostWork = true)
    (hfresh : ∀ id, unit.touchedOnHost id step = true → ¬ tracker.Stale .host id) :
    unit.Needed tracker step ∧ unit.InPlace copied before step after := by
  cases step with
  | hostRegion | hostOp => exact ⟨hfresh, trivial⟩
  | copyIn | copyOut | launch => cases h

end CompiledUnit

theorem map_eq_cut {α β : Type} {f : α → β} {xs : List α} {before after : List β} {y : β}
    (h : xs.map f = before ++ y :: after) :
    ∃ front x back, xs = front ++ x :: back ∧ front.map f = before ∧ f x = y ∧
      back.map f = after := by
  obtain ⟨front, tail, rfl, hfront, htail⟩ := List.map_eq_append_iff.mp h
  obtain ⟨x, back, rfl, hx, hback⟩ := List.map_eq_cons_iff.mp htail
  exact ⟨front, x, back, rfl, hfront, hx, hback⟩

/-- What is picked from the results of a look-up is picked from what was looked up. -/
theorem filter_of_map_some {α β γ : Type} {f : α → Option β} {xs : List α} {ys : List β}
    (h : xs.map f = ys.map some) {picked : β → Bool} {picks : α → Bool} {view : β → γ}
    {viewed : α → γ}
    (same : ∀ x ∈ xs, ∀ y, f x = some y → picked y = picks x ∧ view y = viewed x) :
    (ys.filter picked).map view = (xs.filter picks).map viewed := by
  induction xs generalizing ys with
  | nil =>
    cases ys with
    | nil => rfl
    | cons => cases h
  | cons x xs ih =>
    cases ys with
    | nil => cases h
    | cons y ys =>
      rw [List.map_cons, List.map_cons, List.cons.injEq] at h
      obtain ⟨hpicked, hview⟩ := same x (by simp) y h.1
      have hrest := ih h.2 fun x hx => same x (by simp [hx])
      rw [List.filter_cons, List.filter_cons, hpicked]
      split
      · rw [List.map_cons, List.map_cons, hview, hrest]
      · exact hrest

namespace CompiledUnit

variable {unit : CompiledUnit} {step : Step} {steps rest before after : List Step}
  {tracker last : Tracker} {ins outs : List ArrayId} {index : Nat}

/-- In a row of transfers, each array is moved while it is out of date. -/
theorem stale_in_row {move : Tracker → ArrayId → Tracker} (hlocal : Tracker.Local move)
    {location : Location} {front back : List ArrayId} {id : ArrayId}
    (nodup : (front ++ id :: back).Nodup) (h : tracker.Stale location id) :
    (front.foldl move tracker).Stale location id := by
  have hnot : id ∉ front := fun hmem =>
    (List.nodup_append.mp nodup).2.2 id hmem id (by simp) rfl
  obtain ⟨state, hs, hv⟩ := h
  exact ⟨state, (hlocal.state?_foldl tracker hnot).trans hs, hv⟩

namespace Surrounds

variable (around : unit.Surrounds tracker index ins outs rest)

include around

theorem copyIn_needed (h : ins.map Step.copyIn = before ++ step :: after) (more : List Step) :
    unit.Needed (unit.replay tracker before) step ∧
      unit.InPlace tracker.isCopied before step (after ++ .launch index :: more) := by
  obtain ⟨front, id, back, rfl, rfl, rfl, rfl⟩ := map_eq_cut h
  obtain ⟨hcopied, hstale⟩ := around.missing id (by simp)
  obtain ⟨kernel, hkernel, _, hbound⟩ := around.bound
  refine ⟨⟨?_, ?_⟩, back, index, kernel, more, rfl, hkernel, hbound id (by simp)⟩
  · rw [isCopied_replay, hcopied]
  · rw [replay_copyIns]
    exact stale_in_row Tracker.local_copyIn around.ins_nodup hstale

theorem copyOut_needed (h : outs.map Step.copyOut = before ++ step :: after) (more : List Step) :
    unit.Needed (unit.replay tracker (ins.map .copyIn ++ .launch index :: before)) step ∧
      unit.InPlace tracker.isCopied (ins.map .copyIn ++ .launch index :: before) step
        (after ++ more) := by
  obtain ⟨front, id, back, rfl, rfl, rfl, rfl⟩ := map_eq_cut h
  obtain ⟨hwritten, hcopied, _⟩ := around.mem_outs.mp (by simp : id ∈ front ++ id :: back)
  refine ⟨⟨?_, ?_⟩, ins.map .copyIn, index, front, rfl, hwritten⟩
  · rw [isCopied_replay, hcopied]
  · rw [List.append_cons, replay_append, replay_copyOuts]
    exact stale_in_row Tracker.local_copyOut around.outs_nodup (around.outdated id (by simp))

/-- The copy-outs right after a launch are those that the host needs. -/
theorem launch_inPlace {middle : Tracker} (h : unit.Scheduled middle rest last)
    (before : List Step) :
    unit.InPlace tracker.isCopied before (.launch index) (outs.map .copyOut ++ rest) := by
  intro id hwritten hcopied
  have present : (∃ (ids : List ArrayId) (more : List Step),
      outs.map .copyOut ++ rest = ids.map .copyOut ++ .copyOut id :: more) ↔ id ∈ outs := by
    constructor
    · rintro ⟨ids, more, heq⟩
      rcases append_eq_cut heq with ⟨back, houts, _⟩ | ⟨front, hids, hrest⟩
      · obtain ⟨_, found, _, rfl, _, hfound, _⟩ := map_eq_cut houts
        cases hfound
        simp
      · -- the rest of a schedule does not go on with copy-outs
        cases front with
        | nil => exact (Scheduled.not_copyOut (hrest ▸ h)).elim
        | cons first front =>
          obtain ⟨_, other, _, _, _, rfl, _⟩ := map_eq_cut hids
          exact (Scheduled.not_copyOut (hrest ▸ h)).elim
    · intro hid
      obtain ⟨front, back, rfl⟩ := List.append_of_mem hid
      exact ⟨front, back.map .copyOut ++ rest, by simp⟩
  rw [present, around.mem_outs, (neededOnHost_copies outs).2]
  exact ⟨fun ⟨_, _, hneeded⟩ => hneeded, fun hneeded => ⟨hwritten, hcopied, hneeded⟩⟩

end Surrounds

/-- Every step of a schedule is needed and stands where it belongs. -/
theorem Scheduled.sited (h : unit.Scheduled tracker steps last)
    (cut : steps = before ++ step :: after) :
    unit.Needed (unit.replay tracker before) step ∧
      unit.InPlace tracker.isCopied before step after := by
  induction h generalizing before with
  | done => simp at cut
  | @host tracker last first rest hwork hfresh _ ih =>
    cases before with
    | nil =>
      cases cut
      exact needed_of_isHostWork hwork hfresh
    | cons _ before =>
      cases cut
      obtain ⟨needed, inPlace⟩ := ih rfl
      rw [Tracker.isCopied_congr (bindings_track tracker first)] at inPlace
      exact ⟨needed, inPlace.prepend [first]⟩
  | @launch tracker last index ins outs rest around later ih =>
    -- the cut is among the copy-ins, at the launch, among the copy-outs, or later
    rcases append_eq_cut cut with ⟨more, hins, rfl⟩ | ⟨more, rfl, hmore⟩
    · exact around.copyIn_needed hins _
    · cases more with
      | nil =>
        cases hmore
        obtain ⟨kernel, hkernel, hregion, _⟩ := around.bound
        exact ⟨⟨kernel, hkernel, hregion⟩, around.launch_inPlace later _⟩
      | cons _ more =>
        simp only [List.cons_append, List.cons.injEq] at hmore
        obtain ⟨rfl, hmore⟩ := hmore
        rcases append_eq_cut hmore with ⟨back, houts, rfl⟩ | ⟨front, rfl, hrest⟩
        · exact around.copyOut_needed houts _
        · obtain ⟨needed, inPlace⟩ := ih hrest
          rw [isCopied_replay] at inPlace
          rw [← replay_append] at needed
          have hblock := inPlace.prepend (ins.map .copyIn ++ .launch index :: outs.map .copyOut)
          rw [List.append_assoc, List.cons_append] at needed hblock
          exact ⟨needed, hblock⟩

end CompiledUnit

end ArrayOffload
