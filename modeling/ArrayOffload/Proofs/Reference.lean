import ArrayOffload.Proofs.DeviceFollow

/-!
# Steps beside the reference

A call that carries out the steps of a unit with two memories follows the reference, which has one:
after each step, every copy that its tracker calls valid holds the elements of the reference.

* `CompiledUnit.Sound`, `CompiledUnit.Loaded`: what is needed of the unit and of the device;
* `Call.step_follows`: one step;
* `Call.steps_follow`: any list of steps.
-/

namespace ArrayOffload

namespace CompiledUnit

/-- The parts of a unit fit together, whatever its steps are. -/
structure Sound (unit : CompiledUnit) : Prop where
  wellFormed : unit.function.WellFormed
  regions : ∀ {index : Nat} {region : Region}, unit.regions[index]? = some region →
    region.Sound unit.function
  kernels : ∀ kernel ∈ unit.kernels, ∃ region,
    unit.regions[kernel.plan.kernel.region]? = some region ∧
      kernel.plan.Implements unit.function region

/-- The device has the programs of the unit. -/
def Loaded (unit : CompiledUnit) (device : Device) : Prop :=
  ∀ kernel ∈ unit.kernels, device.programs.get? kernel.program = some kernel.plan.kernel

end CompiledUnit

/-- What a step refers to is there. -/
def Step.WellIndexed (unit : CompiledUnit) : Step → Prop
  | .copyIn id | .copyOut id => id < unit.function.arrays.length
  | .launch index => index < unit.kernels.length
  | .hostRegion index => index < unit.regions.length
  | .hostOp index => index < unit.function.body.length

namespace Call

variable {f : Func} {args : List ArrayValue} {shapes : List Shape} {table : HostTable}
  {signature : Signature} {origin : Device} {call : Call} {ref : Memory} {unit : CompiledUnit}

/-! ## Work on the host -/

/-- Operations on the host: checks, the operations, and what they wrote. -/
def hostWork (f : Func) (shapes : List Shape) (table : HostTable) (checked writes : List ArrayId)
    (ops : List Op) : CallM Unit := do
  checked.forM (checkReadable .host)
  ops.forM (hostOp f shapes table)
  writes.forM fun id => track (·.hostWrite id)

theorem exec_singleOp (f : Func) (shapes : List Shape) (table : HostTable) (op : Op) (call : Call) :
    exec (singleOp f shapes table op) call =
      exec (hostWork f shapes table (op.reads ++ op.writes) op.writes [op]) call := by
  have hone : ∀ call, exec ([op].forM (hostOp f shapes table)) call =
      exec (hostOp f shapes table op) call := by
    intro call
    rw [exec_forM_cons]
    rcases exec (hostOp f shapes table op) call with ⟨_ | _, _⟩ <;> rfl
  simp only [singleOp, hostWork, exec_bind, hone]

namespace Tracked

theorem checkAll (tracked : Tracked f shapes origin call ref) {ids : List ArrayId}
    (declared : ∀ id ∈ ids, id < f.arrays.length) (location : Location) :
    (exec (ids.forM (checkReadable location)) call = (.ok (), call) ∧
      ∀ id ∈ ids, call.tracker.Valid location id) ∨
    ∃ stop, exec (ids.forM (checkReadable location)) call = (.error stop, call) ∧
      Refusal f shapes origin stop := by
  induction ids with
  | nil => exact .inl ⟨rfl, by simp⟩
  | cons id rest ih =>
    have hid := declared id (by simp)
    rw [exec_forM_cons, exec_checkReadable]
    cases hcheck : call.tracker.checkReadable id location with
    | error stop => exact .inr ⟨stop, rfl, tracked.stale hid hcheck⟩
    | ok =>
      rcases ih fun other ho => declared other (by simp [ho]) with ⟨hok, hvalid⟩ | hrefused
      · refine .inl ⟨hok, fun other ho => ?_⟩
        rcases List.mem_cons.mp ho with rfl | ho
        · exact tracked.valid hid hcheck
        · exact hvalid other ho
      · exact .inr hrefused

theorem hostWork_follows (wf : f.Checked) (res : Shapes.Resolved f args table shapes)
    (tracked : Tracked f shapes origin call ref) {checked writes : List ArrayId} {ops : List Op}
    (hops : ∀ op ∈ ops, op ∈ f.body)
    (declared : ∀ id ∈ checked, id < f.arrays.length)
    (needs : ∀ op ∈ ops, ∀ id ∈ op.needs, id ∈ checked)
    (hwrites : ∀ id, id ∈ writes ↔ ∃ op ∈ ops, id ∈ op.writes) :
    Follows f shapes table origin (hostWork f shapes table checked writes ops) ops call ref := by
  unfold Follows
  rw [hostWork, exec_bind]
  rcases tracked.checkAll declared .host with ⟨hok, hvalid⟩ | ⟨stop, hstop, hrefused⟩
  · -- all that the operations need has been found valid on the host
    simp only [hok, exec_bind]
    have followed := tracked.coherent.hostOps wf res hops fun op hop id hid =>
      hvalid id (needs op hop id hid)
    split at followed
    · next after hexec =>
      obtain ⟨ref', href, htracker, hkinds, hco⟩ := followed
      simp only [hexec, exec_trackAll Tracker.hostWrite (fun id : ArrayId => id), List.map_id']
      refine ⟨ref', href, tracked.of_coherent hco ⟨rfl, rfl, rfl, rfl, rfl, rfl, rfl, rfl⟩ rfl hkinds
        (congrArg (writes.foldl Tracker.hostWrite) htracker)
        (Tracker.local_hostWrite.covers_foldl _ tracked.covers)
        (Tracker.local_hostWrite.bindings_foldl _ _) (fun id hcopied hv => ?_)
        fun id hcopied hv => ?_⟩
      · rcases Tracker.valid_hostWrites hcopied hv with ⟨hmem, _⟩ | ⟨_, hbefore⟩
        · exact .inr ((hwrites id).mp hmem)
        · exact .inl hbefore
      · rcases Tracker.valid_hostWrites hcopied hv with ⟨_, hloc⟩ | ⟨hnot, hbefore⟩
        · cases hloc
        · exact ⟨hbefore, fun op hop hid => hnot ((hwrites id).mpr ⟨op, hop, hid⟩)⟩
    · next stop after hexec =>
      simp only [hexec]
      exact .inr followed
  · simp only [hstop]
    exact .inl hrefused

/-- A data-parallel operation needs only what it reads, and a region checks that. -/
theorem hostRegion_follows (wf : f.Checked) (res : Shapes.Resolved f args table shapes)
    {region : Region} (sound : region.Sound f) (tracked : Tracked f shapes origin call ref) :
    Follows f shapes table origin (hostRegion f shapes table region) (region.ops f) call ref := by
  have declared : ∀ id ∈ region.reads, id < f.arrays.length := by
    intro id hid
    obtain ⟨op, hop, hreads⟩ := sound.mem_reads.mp hid
    exact wf.mem_lt (Region.mem_body hop) (List.mem_append_left _ hreads)
  have needs : ∀ op ∈ region.ops f, ∀ id ∈ op.needs, id ∈ region.reads := by
    intro op hop id hid
    obtain ⟨kind, _, hkind⟩ := sound.parallel hop
    rw [Op.needs, if_pos (by simp [hkind])] at hid
    exact sound.mem_reads.mpr ⟨op, hop, hid⟩
  exact tracked.hostWork_follows wf res (fun op => Region.mem_body) declared needs
    fun id => sound.mem_writes

/-- An operation of its own has all its arrays checked, also those it writes. -/
theorem singleOp_follows (wf : f.Checked) (res : Shapes.Resolved f args table shapes)
    {op : Op} (hop : op ∈ f.body) (tracked : Tracked f shapes origin call ref) :
    Follows f shapes table origin (singleOp f shapes table op) [op] call ref := by
  have needs : ∀ other ∈ [op], ∀ id ∈ other.needs, id ∈ op.reads ++ op.writes := by
    simp only [List.mem_singleton, forall_eq]
    intro id hid
    unfold Op.needs at hid
    split at hid
    · exact List.mem_append_left _ hid
    · exact hid
  refine (tracked.hostWork_follows wf res (by simpa using hop)
    (fun id hid => wf.mem_lt hop hid) needs fun id => ?_).congr
    (exec_singleOp f shapes table op call)
  simp

end Tracked

/-! ## Steps -/

/-- One step of a call follows the reference. -/
theorem step_follows (sound : unit.Sound) (res : Shapes.Resolved unit.function args table shapes)
    (accepted : signature.Accepts unit.function args) (loaded : unit.Loaded origin) {step : Step}
    (indexed : step.WellIndexed unit)
    (tracked : Tracked unit.function shapes origin call ref) :
    Follows unit.function shapes table origin (Call.step unit shapes table step)
      (unit.opsOf step) call ref := by
  have wf := sound.wellFormed
  cases step with
  | copyIn id => exact tracked.copyIn res indexed
  | copyOut id => exact tracked.copyOut res indexed
  | launch index =>
    have hkernel : unit.kernels[index]? = some unit.kernels[index] :=
      List.getElem?_eq_getElem indexed
    have hmem := List.getElem_mem indexed
    obtain ⟨region, hregion, impl⟩ := sound.kernels _ hmem
    rw [CompiledUnit.opsOf, hkernel, Option.bind_some, hregion, Option.elim_some]
    refine (tracked.launch wf res accepted (sound.regions hregion) impl
      (loaded _ hmem)).congr ?_
    rw [Call.step, hkernel, exec_bind, exec_expect, orFault]
  | hostRegion index =>
    have hregion : unit.regions[index]? = some unit.regions[index] :=
      List.getElem?_eq_getElem indexed
    have hsound := sound.regions hregion
    rw [CompiledUnit.opsOf, hregion, Option.elim_some]
    refine (tracked.hostRegion_follows wf.toChecked res hsound).congr ?_
    rw [Call.step, hregion, exec_bind, exec_expect, orFault]
  | hostOp index =>
    have hop : unit.function.body[index]? = some unit.function.body[index] :=
      List.getElem?_eq_getElem indexed
    rw [CompiledUnit.opsOf, hop, Option.toList_some]
    refine (tracked.singleOp_follows wf.toChecked res (List.getElem_mem indexed)).congr ?_
    rw [Call.step, hop, exec_bind, exec_expect, orFault]

/-- Every list of steps follows the reference, whatever their order. -/
theorem steps_follow (sound : unit.Sound) (res : Shapes.Resolved unit.function args table shapes)
    (accepted : signature.Accepts unit.function args) (loaded : unit.Loaded origin)
    {steps : List Step} (indexed : ∀ step ∈ steps, step.WellIndexed unit)
    (tracked : Tracked unit.function shapes origin call ref) :
    Follows unit.function shapes table origin (steps.forM (Call.step unit shapes table))
      (steps.flatMap unit.opsOf) call ref := by
  induction steps generalizing call ref with
  | nil => exact ⟨ref, rfl, tracked⟩
  | cons step rest ih =>
    have first := step_follows sound res accepted loaded (indexed step (by simp)) tracked
    unfold Follows at first ⊢
    rw [exec_forM_cons, List.flatMap_cons, Memory.evaluate_append]
    split at first
    · next mid hexec =>
      obtain ⟨ref', href, hmid⟩ := first
      rw [hexec, href]
      exact ih (fun other ho => indexed other (by simp [ho])) hmid
    · next stop mid hexec =>
      rw [hexec]
      rcases first with hrefused | ⟨ref', href, hpool⟩
      · exact .inl hrefused
      · rw [href]
        exact .inr ⟨ref', rfl, hpool⟩

end Call

end ArrayOffload
