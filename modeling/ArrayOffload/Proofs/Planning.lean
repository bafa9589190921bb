import ArrayOffload.Proofs.Lookup
import ArrayOffload.Proofs.Programs
import ArrayOffload.Proofs.Rejection

/-!
# Checked functions have a plan

Planning looks arrays up by number, follows the sources of shapes and asks for the state of each
array. With a checked function, and a signature that some arguments have, all of it is there:
planning ends in a plan, and the kernels of the plan have shaders or a reason to have none.

* `Placement.exists_choices`, `Draft.exists_extendAll`: the parts of planning;
* `Lowering.exists_outlined`: the whole plan;
* `Shader.lower_faultless`, `Dump.sure_writeUnit`: shader texts of planned kernels.
-/

namespace ArrayOffload

/-- The work may stop, but never in a fault. -/
abbrev Faultless {ε α : Type} (work : Except (Stop ε) α) : Prop := Rejects (· ≠ .fault) work

theorem Rejects.mapM {ε α β : Type} {reason : ε → Prop} {f : α → Except ε β} {xs : List α}
    (h : ∀ x ∈ xs, Rejects reason (f x)) : Rejects reason (xs.mapM f) := by
  induction xs with
  | nil => exact .ok []
  | cons x xs ih =>
    rw [List.mapM_cons]
    refine (h x (by simp)).bind fun y _ => ?_
    exact (ih fun z hz => h z (by simp [hz])).bind fun ys _ => .ok (y :: ys)

/-! ## Regions -/

namespace Func.Checked

variable {f : Func} (wf : f.Checked)

include wf in
/-- The arrays of a region are declared. -/
theorem region_lt {region : Region} (sound : region.Sound f) {id : ArrayId}
    (hid : id ∈ region.uses.map (·.array)) : id < f.arrays.length := by
  rcases Region.Sound.mem_arrays.mp hid with hread | hwrite
  · obtain ⟨op, hop, hmem⟩ := sound.mem_reads.mp hread
    exact wf.mem_lt (Region.mem_body hop) (List.mem_append_left _ hmem)
  · obtain ⟨op, hop, hmem⟩ := sound.mem_writes.mp hwrite
    exact wf.mem_lt (Region.mem_body hop) (List.mem_append_right _ hmem)

end Func.Checked

/-! ## Placement -/

namespace Kernel

variable {f : Func} {region : Region}

theorem exists_paramsOf {uses : List ArrayUse} (huses : ∀ use ∈ uses, use.array < f.arrays.length) :
    ∃ params, paramsOf? f uses = some params := by
  refine exists_mapM_some ?_
  rintro ⟨use, slot⟩ hentry
  obtain ⟨decl, hd⟩ := Func.exists_decl (huses use (List.fst_mem_of_mem_zipIdx hentry))
  exact ⟨⟨slot, decl.elem, use.access⟩, by simp [hd]⟩

/-- The only data-parallel operations without a kernel form are scans, and those have a text. -/
theorem bodyIn_faultless (wf : f.Checked) (index : Nat) (bindings : List ArrayId) {ops : List Op}
    (hops : ∀ op ∈ ops, op ∈ f.body ∧ op.parallelKind?.isSome) :
    Faultless (bodyIn f index bindings ops) := by
  induction ops with
  | nil => exact .ok []
  | cons op rest ih =>
    obtain ⟨hop, hkind⟩ := hops op (by simp)
    have hrest := ih fun other ho => hops other (by simp [ho])
    rw [bodyIn]
    cases op with
    | map out op args => exact hrest.bind fun body _ => .ok _
    | reduce out op input => exact hrest.bind fun body _ => .ok _
    | scan out op input =>
      have hout : out < f.arrays.length := wf.mem_lt hop (by simp [Op.writes])
      have hinput : input < f.arrays.length := wf.mem_lt hop (by simp [Op.reads])
      obtain ⟨name, hname⟩ := Shapes.exists_name hout
      obtain ⟨source, hsource⟩ := Shapes.exists_name hinput
      have htext : f.opText? (.scan out op input) =
          some (name ++ " = scan " ++ op.name ++ "(" ++ source ++ ")") := by
        simp [Func.opText?, hname, hsource]
      exact (Rejects.orFault htext).bind fun text _ => .error (by simp)
    | store | print | call => cases hkind

theorem ofRegion_faultless (wf : f.Checked) (sound : region.Sound f) :
    Faultless (ofRegion f region) := by
  obtain ⟨params, hparams⟩ := exists_paramsOf fun use (huse : use ∈ region.uses) =>
    wf.region_lt sound (List.mem_map_of_mem huse)
  refine (Rejects.orFault hparams).bind fun params _ => ?_
  refine (bodyIn_faultless wf _ _ fun op hop => ?_).bind fun body _ => .ok _
  obtain ⟨kind, _, hkind⟩ := sound.parallel hop
  exact ⟨Region.mem_body hop, by simp [hkind]⟩

end Kernel

namespace Placement

variable {profile : Profile} {f : Func}

theorem checkElems_faultless (index : Nat) {uses : List ArrayUse}
    (huses : ∀ use ∈ uses, use.array < f.arrays.length) :
    Faultless (checkElems profile f index uses) := by
  induction uses with
  | nil => exact .ok ()
  | cons use rest ih =>
    obtain ⟨decl, hd⟩ := Func.exists_decl (huses use (by simp))
    refine (Rejects.orFault hd).bind fun decl _ => ?_
    split
    · exact ih fun other ho => huses other (by simp [ho])
    · exact .error (by simp)

end Placement

/-- The device accepts or refuses each kernel that comes from a region of the function. -/
def Profile.Answers (profile : Profile) (f : Func) : Prop :=
  ∀ (region : Region) (kernel : Kernel) (bindings : List ArrayId), region.Sound f →
    Kernel.ofRegion f region = .ok (kernel, bindings) → Faultless (profile.accepts kernel)

namespace Placement

variable {profile : Profile} {f : Func}

/-- The work on a region that a kernel may compute. -/
theorem planned_faultless (wf : f.Checked) (answers : profile.Answers f) {region : Region}
    (sound : region.Sound f) : Faultless (do
      checkElems profile f region.index region.uses
      let (kernel, bindings) ← Kernel.ofRegion f region
      profile.accepts kernel
      return (⟨kernel, region.space.extentOf, bindings⟩ : LaunchPlan)) := by
  refine (checkElems_faultless _ fun use huse =>
    wf.region_lt sound (List.mem_map_of_mem huse)).bind fun _ _ => ?_
  refine (Kernel.ofRegion_faultless wf sound).bind fun made hmade => ?_
  exact (answers region made.1 made.2 sound hmade).bind fun _ _ => .ok _

theorem launchOf_faultless (wf : f.Checked) (answers : profile.Answers f) {region : Region}
    (sound : region.Sound f) : Faultless (launchOf profile f region) := by
  unfold launchOf
  cases region.kernelless? with
  | some kind => exact .error (by simp)
  | none =>
    dsimp only
    split
    · exact .error (by simp)
    · exact planned_faultless wf answers sound

theorem exists_choices (wf : f.Checked) (answers : profile.Answers f)
    {regions : List Region} (sound : ∀ region ∈ regions, region.Sound f) :
    ∃ choices, choices? profile f regions = some choices := by
  refine exists_mapM_some fun region hregion => ?_
  have hlaunch := launchOf_faultless wf answers (sound region hregion)
  unfold choose?
  rcases h : launchOf profile f region with (cause | _) | plan
  · exact ⟨_, rfl⟩
  · exact absurd rfl (hlaunch _ h)
  · exact ⟨_, rfl⟩

end Placement

/-! ## Drafts -/

theorem Tracker.Covers.exists_state {tracker : Tracker} {count : Nat} (h : tracker.Covers count)
    {id : ArrayId} (hid : id < count) : ∃ state, tracker.state? id = some state :=
  ⟨_, List.getElem?_eq_getElem (h.states ▸ hid)⟩

namespace Draft

variable {f : Func} {regions : List Region} {placed : Placement.Launches} {draft : Draft}

theorem exists_refresh {count : Nat} (hc : draft.tracker.Covers count) {ids : List ArrayId}
    (hids : ∀ id ∈ ids, id < count) : ∃ fresh, draft.refresh? ids = some fresh := by
  induction ids generalizing draft with
  | nil => exact ⟨draft, rfl⟩
  | cons id rest ih =>
    obtain ⟨state, hstate⟩ := hc.exists_state (hids id (by simp))
    simp only [refresh?, Tracker.needsCopyOut?, hstate, Option.map_some, Option.bind_eq_bind,
      Option.bind_some]
    refine ih ?_ fun other ho => hids other (by simp [ho])
    split
    · exact Tracker.local_copyOut.covers hc id
    · exact hc

theorem exists_hostStep {count : Nat} (hc : draft.tracker.Covers count) {reads writes : List ArrayId}
    (hids : ∀ id ∈ reads ++ writes, id < count) (step : Step) :
    ∃ next, draft.hostStep? reads writes step = some next := by
  obtain ⟨fresh, hfresh⟩ := exists_refresh hc hids
  exact ⟨_, by rw [hostStep?_eq, hfresh]; rfl⟩

theorem exists_launchStep {count : Nat} (hc : draft.tracker.Covers count) {region : Region}
    (hids : ∀ id ∈ region.uses.map (·.array), id < count) (plan : LaunchPlan)
    (rest : List Segment) :
    ∃ next, draft.launchStep? f regions placed region plan rest = some next := by
  have hmissing : ∃ missing, draft.tracker.copyInSet? region = some missing := by
    have hfound : ∃ found, (region.uses.mapM fun use => (draft.tracker.state? use.array).map
        fun state => (use.array, state.validOn .device)) = some found := by
      refine exists_mapM_some fun use huse => ?_
      obtain ⟨state, hstate⟩ := hc.exists_state (hids use.array (List.mem_map_of_mem huse))
      exact ⟨_, by rw [hstate]; rfl⟩
    obtain ⟨found, hfound⟩ := hfound
    exact ⟨_, by rw [Tracker.copyInSet?, hfound]; rfl⟩
  obtain ⟨missing, hmissing⟩ := hmissing
  simp only [launchStep?, hmissing, Option.bind_eq_bind, Option.bind_some]
  refine @exists_refresh _ count ?_ _ fun id hid => hids id ?_
  · have hcopied : (missing.foldl copyIn draft).tracker.Covers count := by
      clear hmissing
      induction missing generalizing draft with
      | nil => exact hc
      | cons id rest ih => exact ih (Tracker.local_copyIn.covers hc id)
    exact Tracker.local_deviceWrite.covers_foldl _ hcopied
  · exact Region.Sound.mem_arrays.mpr (.inr (List.mem_filter.mp hid).1)

theorem exists_extend (wf : f.Checked) (sound : ∀ region ∈ regions, region.Sound f)
    (hc : draft.tracker.Covers f.arrays.length) {segment : Segment}
    (valid : segment.Valid f regions) (rest : List Segment) :
    ∃ next, draft.extend? f regions placed segment rest = some next := by
  cases segment with
  | hostOp index =>
    obtain ⟨op, hop, _⟩ := valid
    simp only [extend?, hop, Option.bind_eq_bind, Option.bind_some]
    exact exists_hostStep hc (fun id hid => wf.mem_lt (List.mem_of_getElem? hop) hid) _
  | region index =>
    have hregion := List.getElem?_eq_getElem valid
    have hids : ∀ id ∈ (regions[index]).uses.map (·.array), id < f.arrays.length :=
      fun id hid => wf.region_lt (sound _ (List.getElem_mem valid)) hid
    simp only [extend?, hregion, Option.bind_eq_bind, Option.bind_some]
    cases placed[index]?.join with
    | none =>
      refine exists_hostStep hc (fun id hid => hids id ?_) _
      exact Region.Sound.mem_arrays.mpr (List.mem_append.mp hid)
    | some plan => exact exists_launchStep hc hids plan rest

/-- Every segment of a body extends the draft before it. -/
theorem exists_extendAll (wf : f.Checked) (sound : ∀ region ∈ regions, region.Sound f)
    (fits : Placement.Fits f regions placed) {segments : List Segment}
    (valid : ∀ segment ∈ segments, segment.Valid f regions)
    (hc : draft.tracker.Covers f.arrays.length) (hs : draft.tracker.Steady) :
    ∃ body, draft.extendAll f regions placed segments = .ok body := by
  induction segments generalizing draft with
  | nil => exact ⟨draft, rfl⟩
  | cons segment rest ih =>
    obtain ⟨next, hnext⟩ := exists_extend wf sound hc (valid segment (by simp)) rest
    have path := extend?_path fits hs hnext
    rw [extendAll, hnext]
    exact ih (fun other ho => valid other (by simp [ho])) (path.covers hc) (path.steady hs)

end Draft

namespace Lowering

variable {profile : Profile} {f : Func} {key : UnitKey} {args : List ArrayValue}

theorem exists_place (wf : f.Checked) (answers : profile.Answers f)
    (strategy : Strategy) {regions : List Region} (sound : ∀ region ∈ regions, region.Sound f) :
    ∃ placed fallbacks, place? profile f strategy regions = some (placed, fallbacks) := by
  cases strategy with
  | hostParallel => exact ⟨_, _, rfl⟩
  | offload =>
    obtain ⟨choices, hchoices⟩ := Placement.exists_choices wf answers sound
    exact ⟨_, _, by rw [place?, hchoices]; rfl⟩

/-- A checked function has a plan for every signature that some arguments have. -/
theorem exists_outlined_of_answers (wf : f.Checked) (accepted : key.signature.Accepts f args)
    (answers : profile.Answers f) :
    ∃ outline body, Outlined profile f key outline body := by
  obtain ⟨partition, hpartition⟩ := wf.rooted.exists_partition
  have hsound := Func.partition?_sound hpartition
  have sound : ∀ region ∈ partition.regions, region.Sound f := by
    intro region hregion
    obtain ⟨index, hindex⟩ := List.mem_iff_getElem?.mp hregion
    exact (hsound.regions hindex).2
  obtain ⟨tracker, htracker⟩ := Tracker.exists_start wf accepted
  obtain ⟨placed, fallbacks, hplaced⟩ :=
    exists_place wf answers (strategyFor key.context) sound
  have covers : (Draft.start tracker).tracker.Covers f.arrays.length :=
    (Tracker.start?_ok htracker).1
  obtain ⟨body, hbody⟩ := Draft.exists_extendAll wf sound (place?_fits hsound hplaced)
    hsound.segments covers (.start htracker)
  have houtline : outline? profile f key.signature key.context =
      some ⟨strategyFor key.context, partition.regions, fallbacks,
        (Draft.start tracker).extendAll f partition.regions placed partition.segments⟩ := by
    simp [outline?, hpartition, htracker, hplaced]
  exact ⟨_, body, houtline, hbody⟩

theorem exists_outlined (wf : f.Checked) (accepted : key.signature.Accepts f args)
    (accepting : ∀ kernel, Faultless (profile.accepts kernel)) :
    ∃ outline body, Outlined profile f key outline body :=
  exists_outlined_of_answers wf accepted fun _ kernel _ _ _ => accepting kernel

end Lowering

/-! ## Shader texts -/

namespace Shader

variable {f : Func} {region : Region} {plan : LaunchPlan}

theorem length_of_mapM {ε α β : Type} {f : α → Except ε β} {xs : List α} {ys : List β}
    (h : xs.mapM f = .ok ys) : ys.length = xs.length := by
  induction xs generalizing ys with
  | nil =>
    cases h
    rfl
  | cons x xs ih =>
    rw [List.mapM_cons, bind_eq_ok] at h
    obtain ⟨y, _, h⟩ := h
    obtain ⟨rest, hrest, h⟩ := bind_eq_ok.mp h
    cases h
    rw [List.length_cons, List.length_cons, ih hrest]

theorem exists_mapExpr {op : MapOp} {operands : List String} (h : operands.length = op.arity) :
    ∃ expr, mapExpr? op operands = some expr := by
  rcases operands with _ | ⟨a, _ | ⟨b, rest⟩⟩ <;> cases op <;> first | exact ⟨_, rfl⟩ | cases h

theorem operandExpr_faultless (index : Nat) (op : MapOp) (operand : KernelOperand) :
    Faultless (operandExpr index op operand) := by
  unfold operandExpr
  split
  · exact .ok _
  · split
    · exact .ok _
    · exact .error (by simp)

/-- Slots of operations are slots of the kernel. -/
theorem exists_type (sound : region.Sound f) (impl : plan.Implements f region) {types : List String}
    (htypes : types.length = plan.kernel.params.length) {op : Op} (hop : op ∈ region.ops f)
    (id : ArrayId) (hid : id ∈ op.reads ++ op.writes) :
    ∃ type, types[Kernel.slotIn plan.bindings id]? = some type := by
  have hlt := impl.slotIn_lt sound hop hid
  rw [← htypes] at hlt
  exact ⟨_, List.getElem?_eq_getElem hlt⟩

theorem opText_faultless (wf : f.Checked) (sound : region.Sound f)
    (impl : plan.Implements f region) {types : List String}
    (htypes : types.length = plan.kernel.params.length) {kernelOp : KernelOp}
    (h : kernelOp ∈ plan.kernel.body) : Faultless (opText plan.kernel.region types kernelOp) := by
  obtain ⟨op, hop, hform⟩ := impl.exists_op h
  cases op with
  | map out op args =>
    cases hform
    obtain ⟨type, htype⟩ := exists_type sound impl htypes hop out (by simp [Op.writes])
    refine (Rejects.mapM fun operand _ => operandExpr_faultless _ _ operand).bind
      fun operands hoperands => ?_
    refine (Rejects.orFault htype).bind fun type _ => ?_
    have harity : operands.length = op.arity := by
      rw [length_of_mapM hoperands, List.length_map]
      exact wf.map_arity (Region.mem_body hop)
    obtain ⟨expr, hexpr⟩ := exists_mapExpr harity
    exact (Rejects.orFault hexpr).bind fun _ _ => .ok _
  | reduce out op input =>
    cases hform
    obtain ⟨type, htype⟩ := exists_type sound impl htypes hop out (by simp [Op.writes])
    exact (Rejects.orFault htype).bind fun _ _ => .ok _
  | scan | store | print | call => cases hform

/-- A planned kernel has a shader, or a reason to have none. -/
theorem lower_faultless (wf : f.Checked) (sound : region.Sound f)
    (impl : plan.Implements f region) : Faultless (lower plan.kernel) := by
  have hrest : Faultless (do
      let types ← plan.kernel.params.mapM (paramType plan.kernel.region)
      let body ← plan.kernel.body.mapM (opText plan.kernel.region types)
      return "// kernel " ++ plan.kernel.name ++ "\n" ++
        String.join (plan.kernel.params.zipWith bindingLine types) ++ headText plan.kernel ++
        guardText plan.kernel ++ String.join body ++ "\x7d\n") := by
    refine (Rejects.mapM fun param _ => ?_).bind fun types htypes => ?_
    · unfold paramType
      split
      · exact .ok _
      · exact .error (by simp)
    · exact (Rejects.mapM fun _ hop => opText_faultless wf sound impl (length_of_mapM htypes) hop).bind
        fun _ _ => .ok _
  unfold lower
  split
  · exact .error (by simp)
  · exact hrest

end Shader

namespace Dump

/-- Work of a dump that may fail, but never in a fault. -/
abbrev Sure (work : DumpM Unit) : Prop :=
  Ensures (fun _ => True) work (fun _ _ => True) (fun stop _ => stop ≠ .fault)

theorem sure_onDisk (action path : String) (work : DiskM Unit) : Sure (onDisk action path work) := by
  intro s _
  rw [onDisk, exec_bind, exec_get]
  dsimp only
  rcases work.run.run s.disk with ⟨cause | _, disk⟩
  · change Stop.error _ ≠ Stop.fault
    simp
  · trivial

theorem sure_writeKernel (dir : String) (unit : CompiledUnit) {kernel : CompiledKernel}
    (h : Faultless (Shader.lower kernel.plan.kernel)) : Sure (writeKernel dir unit kernel) := by
  refine Ensures.get fun s _ => ?_
  split
  · exact fun _ _ => trivial
  · rcases hlower : Shader.lower kernel.plan.kernel with (cause | _) | source
    · exact fun _ _ => trivial
    · exact absurd rfl (h _ hlower)
    · exact (sure_onDisk _ _ _).bind fun _ _ _ => trivial

theorem sure_writeUnit (dir : String) (unit : CompiledUnit)
    (h : ∀ kernel ∈ unit.kernels, Faultless (Shader.lower kernel.plan.kernel)) :
    Sure (writeUnit dir unit) := by
  unfold writeUnit
  split
  · exact fun _ _ => trivial
  · refine (sure_onDisk _ _ _).bind fun _ => ?_
    exact Ensures.forM _ fun kernel hkernel => sure_writeKernel dir unit (h kernel hkernel)

end Dump

namespace Engine

variable {engine after : Engine} {f : Func} {key : UnitKey} {args : List ArrayValue}

/-- The kernels of a unit that was lowered from a built function can be dumped. -/
theorem dump_faultless {unit : CompiledUnit} (sound : unit.Sound) (engine : Engine) :
    (exec (dump unit) engine).1 ≠ .error .fault := by
  have hkernels : ∀ kernel ∈ unit.kernels, Faultless (Shader.lower kernel.plan.kernel) := by
    intro kernel hkernel
    obtain ⟨region, hregion, impl⟩ := sound.kernels kernel hkernel
    exact Shader.lower_faultless sound.wellFormed.toChecked (sound.regions hregion) impl
  rw [dump, exec_bind, exec_get]
  dsimp only
  cases engine.dumpDir with
  | none => rintro ⟨⟩
  | some dir =>
    have hsure := Dump.sure_writeUnit dir unit hkernels { disk := engine.disk } trivial
    dsimp only
    rw [exec] at hsure
    rcases hwrite : (Dump.writeUnit dir unit).run.run { disk := engine.disk } with
      ⟨(reason | _) | _, final⟩ <;> rw [hwrite] at hsure
    · rintro ⟨⟩
    · exact absurd rfl hsure
    · rintro ⟨⟩

/-- Looking up a function that was built, with a signature that fits, never ends in a fault. -/
theorem unitOf_faultless (built : f.Built) (accepted : key.signature.Accepts f args)
    (accepting : ∀ kernel, Faultless (engine.profile.accepts kernel))
    (numbered : engine.machine.device.Numbered) :
    (exec (unitOf f key) engine).1 ≠ .error .fault := by
  have hlookup := lookup_unitOf engine f key
  intro hfault
  rw [hfault] at hlookup
  cases hlookup with
  | faulted _ stuck _ =>
    obtain ⟨outline, body, houtlined⟩ :=
      Lowering.exists_outlined built.wellFormed.toChecked accepted accepting
    have hrun := (Lowering.ensures_run engine.profile f key _ numbered).of_error
      (s := engine.machine.record (.cacheMiss key)) rfl stuck
    exact hrun.2 outline body houtlined
  | undumped _ lowered stuck _ =>
    obtain ⟨_, _, _, _, planned⟩ := Lowering.run_planned lowered
    obtain ⟨start, hstart⟩ := stuck
    exact dump_faultless (planned.sound built) start (congrArg Prod.fst hstart)

end Engine

theorem Signature.ofArgs_faultless {f : Func} (wf : f.Checked) (args : List ArrayValue) :
    Faultless (Signature.ofArgs f args) := by
  have htypes : ∀ entries : List (ArrayId × ArrayValue), (∀ entry ∈ entries, entry.1 ∈ f.params) →
      Faultless (Signature.argTypes f entries) := by
    intro entries hentries
    induction entries with
    | nil => exact .ok []
    | cons entry rest ih =>
      obtain ⟨position, hposition⟩ := List.mem_iff_getElem?.mp (hentries entry (by simp))
      obtain ⟨decl, hd, _⟩ := wf.param_decl hposition
      refine (Rejects.orFault hd).bind fun decl _ => ?_
      split
      · exact (ih fun other ho => hentries other (by simp [ho])).bind fun _ _ => .ok _
      · exact .error (by simp)
  have hreturn : Faultless (Signature.returnType f) := by
    unfold Signature.returnType
    cases hret : f.returns with
    | none => exact .ok none
    | some id =>
      obtain ⟨decl, hd⟩ := Func.exists_decl (wf.returned hret)
      exact (Rejects.orFault hd).bind fun _ _ => .ok _
  unfold Signature.ofArgs
  split
  · refine (htypes _ fun entry hentry => (List.of_mem_zip hentry).1).bind fun _ _ => ?_
    exact hreturn.bind fun _ _ => .ok _
  · exact .error (by simp)

/-- Asking for a unit of a function that was built never ends in a fault. -/
theorem Engine.unitFor_faultless {engine : Engine} {f : Func} (built : f.Built)
    (accepting : ∀ kernel, Faultless (engine.profile.accepts kernel))
    (numbered : engine.machine.device.Numbered) (context : DeviceContext) (id : FuncId)
    (args : List ArrayValue) : (exec (unitFor context id f args) engine).1 ≠ .error .fault := by
  have hchecks : Faultless (keyFor context id f args) := by
    refine (Signature.ofArgs_faultless built.wellFormed.toChecked args).bind fun signature _ => ?_
    split
    · exact .error (by simp)
    · exact .ok _
  rw [exec_unitFor]
  cases hkey : keyFor context id f args with
  | error stop => simpa using hchecks stop hkey
  | ok key =>
    obtain ⟨signature, hsignature, rfl, _⟩ := keyFor_ok hkey
    exact unitOf_faultless built (Signature.ofArgs_ok hsignature) accepting numbered

end ArrayOffload
