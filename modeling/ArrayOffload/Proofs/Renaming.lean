import ArrayOffload.Proofs.DeviceFollow
import ArrayOffload.Proofs.Offloading
import ArrayOffload.Proofs.ShaderText

/-!
# Kernels as renamings

The kernel of a region is the region under a renaming of arrays to slots, and the bindings undo
the renaming. The look-up of a slot never falls back to its default, since a region lists every
array of its operations. Only a scan keeps a region from having a kernel.

* `KernelOp.over?`: an operation with the bound arrays for the slots;
* `Kernel.ofRegion_scan`, `Kernel.exists_ofRegion`: the regions without and with a kernel;
* `LaunchPlan.Implements.restored`: the bindings give the operations of the region back;
* `LaunchPlan.Implements.writes_iff`, `LaunchPlan.Implements.reads_iff`: what the access of a slot
  says about the operations of the kernel;
* `Kernel.ofRegion_renames`: all of it.
-/

namespace ArrayOffload

theorem mapM_eq_some {α β : Type} {f : α → Option β} {xs : List α} {ys : List β}
    (h : xs.map f = ys.map some) : xs.mapM f = some ys := by
  induction xs generalizing ys with
  | nil =>
    cases ys with
    | nil => rfl
    | cons y ys => cases h
  | cons x xs ih =>
    cases ys with
    | nil => cases h
    | cons y ys =>
      rw [List.map_cons, List.map_cons, List.cons.injEq] at h
      rw [List.mapM_cons, h.1, ih h.2]
      rfl

/-! ## Slots of an operation -/

/-- The operand with the bound array for its slot. -/
def KernelOperand.over? (bindings : List ArrayId) : KernelOperand → Option Operand
  | .slot index => bindings[index]?.map .array
  | .scalar constant => some (.scalar constant)

def KernelOperand.slot? : KernelOperand → Option Nat
  | .slot index => some index
  | .scalar _ => none

namespace KernelOp

/-- The operation with the bound arrays for its slots. -/
def over? (bindings : List ArrayId) : KernelOp → Option Op
  | .map out op args => do
    return .map (← bindings[out]?) op (← args.mapM (KernelOperand.over? bindings))
  | .reduce out op input => do return .reduce (← bindings[out]?) op (← bindings[input]?)

/-- The slots that the operation reads. -/
def inputs : KernelOp → List Nat
  | .map _ _ args => args.filterMap KernelOperand.slot?
  | .reduce _ _ input => [input]

end KernelOp

namespace Kernel

variable {bindings : List ArrayId}

/-- Without repetitions among the bindings, a slot stands for one array only. -/
theorem slotIn_eq_iff (nodup : bindings.Nodup) {id array : ArrayId} {slot : Nat}
    (hid : id ∈ bindings) (hslot : bindings[slot]? = some array) :
    slotIn bindings id = slot ↔ id = array := by
  have hfound := get?_slotIn hid
  constructor
  · rintro rfl
    exact Option.some.inj (hfound.symm.trans hslot)
  · rintro rfl
    obtain ⟨hlt, heq⟩ := List.getElem?_eq_some_iff.mp hfound
    obtain ⟨hlt', heq'⟩ := List.getElem?_eq_some_iff.mp hslot
    exact (nodup.getElem_inj_iff).mp (heq.trans heq'.symm)

theorem over?_operandIn {operand : Operand}
    (bound : ∀ id, operand = .array id → id ∈ bindings) :
    (operandIn bindings operand).over? bindings = some operand := by
  cases operand with
  | scalar constant => rfl
  | array id =>
    show bindings[slotIn bindings id]?.map Operand.array = _
    rw [get?_slotIn (bound id rfl)]
    rfl

theorem mem_reads_map {out : ArrayId} {op : MapOp} {args : List Operand} {id : ArrayId} :
    id ∈ (Op.map out op args).reads ↔ .array id ∈ args := by
  show id ∈ distinct (args.filterMap Operand.array?) ↔ _
  rw [mem_distinct, List.mem_filterMap]
  constructor
  · rintro ⟨operand, hmem, heq⟩
    cases operand with
    | scalar constant => cases heq
    | array found =>
      cases heq
      exact hmem
  · exact fun hmem => ⟨_, hmem, rfl⟩

/-- The bindings undo the renaming of an operation whose arrays are all bound. -/
theorem over?_opIn {op : Op} {kernelOp : KernelOp}
    (bound : ∀ id ∈ op.reads ++ op.writes, id ∈ bindings)
    (h : opIn? bindings op = some kernelOp) : kernelOp.over? bindings = some op := by
  have hread : ∀ id ∈ op.reads, bindings[slotIn bindings id]? = some id := fun id hid =>
    get?_slotIn (bound id (List.mem_append_left _ hid))
  have hwrite : ∀ id ∈ op.writes, bindings[slotIn bindings id]? = some id := fun id hid =>
    get?_slotIn (bound id (List.mem_append_right _ hid))
  cases op with
  | map out op args =>
    cases h
    have hout := hwrite out (by simp [Op.writes])
    have hargs : (args.map (operandIn bindings)).mapM (KernelOperand.over? bindings) =
        some args := by
      refine mapM_eq_some ?_
      rw [List.map_map]
      refine List.map_congr_left fun operand hoperand => over?_operandIn fun id heq => ?_
      exact bound id (List.mem_append_left _ (mem_reads_map.mpr (heq ▸ hoperand)))
    simp only [KernelOp.over?, hout, hargs]
    rfl
  | reduce out op input =>
    cases h
    have hout := hwrite out (by simp [Op.writes])
    have hinput := hread input (by simp [Op.reads])
    simp only [KernelOp.over?, hout, hinput]
    rfl
  | scan | store | print | call => cases h

/-- The renamed operation assigns the slot of the array that it writes. -/
theorem out_eq_iff {op : Op} {kernelOp : KernelOp} (h : opIn? bindings op = some kernelOp)
    (slot : Nat) : kernelOp.out = slot ↔ ∃ id ∈ op.writes, slotIn bindings id = slot := by
  cases op with
  | map out _ _ | reduce out _ _ =>
    cases h
    simp [KernelOp.out, Op.writes]
  | scan | store | print | call => cases h

/-- The renamed operation reads the slots of the arrays that it reads. -/
theorem mem_inputs_iff {op : Op} {kernelOp : KernelOp} (h : opIn? bindings op = some kernelOp)
    (slot : Nat) : slot ∈ kernelOp.inputs ↔ ∃ id ∈ op.reads, slotIn bindings id = slot := by
  cases op with
  | map out op args =>
    cases h
    simp only [KernelOp.inputs, List.mem_filterMap, List.mem_map, mem_reads_map]
    constructor
    · rintro ⟨_, ⟨operand, hoperand, rfl⟩, hslot⟩
      cases operand with
      | scalar constant => cases hslot
      | array id =>
        cases hslot
        exact ⟨id, hoperand, rfl⟩
    · rintro ⟨id, hid, rfl⟩
      exact ⟨_, ⟨_, hid, rfl⟩, rfl⟩
  | reduce out op input =>
    cases h
    simp [KernelOp.inputs, Op.reads, eq_comm]
  | scan | store | print | call => cases h

/-! ## Regions with and without a kernel -/

variable {f : Func} {region : Region}

/-- The region holds a scan. -/
def HoldsScan (f : Func) (region : Region) : Prop :=
  ∃ out op input, Op.scan out op input ∈ region.ops f

theorem exists_bodyIn (index : Nat) {ops : List Op}
    (hops : ∀ op ∈ ops, ∃ kernelOp, opIn? bindings op = some kernelOp) :
    ∃ body, bodyIn f index bindings ops = .ok body := by
  induction ops with
  | nil => exact ⟨[], rfl⟩
  | cons op rest ih =>
    obtain ⟨kernelOp, hop⟩ := hops op (by simp)
    obtain ⟨body, hbody⟩ := ih fun other ho => hops other (by simp [ho])
    refine ⟨kernelOp :: body, ?_⟩
    simp only [bodyIn, hop, hbody]
    rfl

/-- A region without a scan has a kernel. -/
theorem exists_ofRegion (wf : f.Checked) (sound : region.Sound f) (hscan : ¬ HoldsScan f region) :
    ∃ kernel bindings, ofRegion f region = .ok (kernel, bindings) := by
  obtain ⟨params, hparams⟩ := exists_paramsOf fun use (huse : use ∈ region.uses) =>
    wf.region_lt sound (List.mem_map_of_mem huse)
  have hops : ∀ op ∈ region.ops f, ∃ kernelOp,
      opIn? (region.uses.map (·.array)) op = some kernelOp := by
    intro op hop
    obtain ⟨kind, _, hkind⟩ := sound.parallel hop
    cases op with
    | map out op args => exact ⟨_, rfl⟩
    | reduce out op input => exact ⟨_, rfl⟩
    | scan out op input => exact absurd ⟨out, op, input, hop⟩ hscan
    | store | print | call => cases hkind
  obtain ⟨body, hbody⟩ := exists_bodyIn (f := f) region.index hops
  refine ⟨⟨f.name ++ "_r" ++ toString region.index, region.index, region.space.rank, params, body⟩,
    region.uses.map (·.array), ?_⟩
  simp only [ofRegion, hparams, hbody]
  rfl

/-- A scan has its region to itself, which is refused with the text of the scan. -/
theorem ofRegion_scan (wf : f.Checked) (sound : region.Sound f) {out input : ArrayId}
    {op : FoldOp} (hscan : .scan out op input ∈ region.ops f) :
    ∃ text, f.opText? (.scan out op input) = some text ∧
      ofRegion f region = .error (.error ⟨region.index, .noKernelForm text⟩) := by
  obtain ⟨params, hparams⟩ := exists_paramsOf fun use (huse : use ∈ region.uses) =>
    wf.region_lt sound (List.mem_map_of_mem huse)
  have hsingle : region.ops f = [.scan out op input] := by
    rcases sound.fused with ⟨only, honly⟩ | fused
    · rw [honly, List.mem_singleton] at hscan
      rw [honly, hscan]
    · obtain ⟨kind, hkind, heq⟩ := sound.parallel hscan
      cases heq
      cases fused _ hkind
  have hout : out < f.arrays.length := wf.mem_lt (Region.mem_body hscan) (by simp [Op.writes])
  have hinput : input < f.arrays.length := wf.mem_lt (Region.mem_body hscan) (by simp [Op.reads])
  obtain ⟨name, hname⟩ := Shapes.exists_name hout
  obtain ⟨source, hsource⟩ := Shapes.exists_name hinput
  have htext : f.opText? (.scan out op input) =
      some (name ++ " = scan " ++ op.name ++ "(" ++ source ++ ")") := by
    simp [Func.opText?, hname, hsource]
  refine ⟨_, htext, ?_⟩
  simp only [ofRegion, hparams, hsingle, bodyIn, opIn?, htext]
  rfl

end Kernel

/-! ## The bindings undo the renaming -/

namespace LaunchPlan.Implements

variable {f : Func} {region : Region} {plan : LaunchPlan} (impl : plan.Implements f region)
  (sound : region.Sound f)

include impl sound

theorem bindings_nodup : plan.bindings.Nodup := by
  rw [impl.bindings_eq]
  exact sound.arrays_nodup

theorem restored : plan.kernel.body.mapM (KernelOp.over? plan.bindings) = some (region.ops f) := by
  refine mapM_eq_some (List.ext_getElem? fun i => ?_)
  rw [List.getElem?_map, List.getElem?_map]
  cases hop : (region.ops f)[i]? with
  | none =>
    have hlength := length_of_map_some impl.ops
    have hnone : plan.kernel.body[i]? = none := by
      rw [List.getElem?_eq_none_iff] at hop ⊢
      omega
    rw [hnone]
    rfl
  | some op =>
    obtain ⟨kernelOp, hkernel, hin⟩ := get?_of_map_some impl.ops hop
    have hmem := List.mem_of_getElem? hop
    rw [hkernel, Option.map_some, Option.map_some, Kernel.over?_opIn
      (fun id hid => impl.mem_bindings sound hmem hid) hin]

/-- Slots of the kernel's operations are slots of the kernel. -/
theorem slots_lt {kernelOp : KernelOp} (hop : kernelOp ∈ plan.kernel.body) :
    ∀ slot ∈ kernelOp.out :: kernelOp.inputs, slot < plan.kernel.params.length := by
  obtain ⟨op, hmem, hin⟩ := impl.exists_op hop
  intro slot hslot
  rcases List.mem_cons.mp hslot with rfl | hinput
  · obtain ⟨id, hid, heq⟩ := (Kernel.out_eq_iff hin _).mp rfl
    exact heq ▸ impl.slotIn_lt sound hmem (List.mem_append_right _ hid)
  · obtain ⟨id, hid, heq⟩ := (Kernel.mem_inputs_iff hin _).mp hinput
    exact heq ▸ impl.slotIn_lt sound hmem (List.mem_append_left _ hid)

omit sound in
theorem exists_kernelOp {op : Op} (hop : op ∈ region.ops f) :
    ∃ kernelOp ∈ plan.kernel.body, Kernel.opIn? plan.bindings op = some kernelOp := by
  obtain ⟨i, hi⟩ := List.getElem?_of_mem hop
  obtain ⟨kernelOp, hkernel, hin⟩ := get?_of_map_some impl.ops hi
  exact ⟨kernelOp, List.mem_of_getElem? hkernel, hin⟩

/-- What some operation of the region does to an array, some operation of the kernel does to the
slot of the array. -/
theorem renamed_iff (slots : KernelOp → List Nat) (arrays : Op → List ArrayId)
    (renamed : ∀ op kernelOp, Kernel.opIn? plan.bindings op = some kernelOp → ∀ slot,
      slot ∈ slots kernelOp ↔ ∃ id ∈ arrays op, Kernel.slotIn plan.bindings id = slot)
    (used : ∀ op, ∀ id ∈ arrays op, id ∈ op.reads ++ op.writes) {slot : Nat} {array : ArrayId}
    (hslot : plan.bindings[slot]? = some array) :
    (∃ op ∈ region.ops f, array ∈ arrays op) ↔
      ∃ kernelOp ∈ plan.kernel.body, slot ∈ slots kernelOp := by
  have nodup := impl.bindings_nodup sound
  have bound : ∀ op ∈ region.ops f, ∀ id ∈ arrays op, id ∈ plan.bindings := fun op hop id hid =>
    impl.mem_bindings sound hop (used op id hid)
  constructor
  · rintro ⟨op, hop, harray⟩
    obtain ⟨kernelOp, hkernel, hin⟩ := impl.exists_kernelOp hop
    refine ⟨kernelOp, hkernel, (renamed op kernelOp hin slot).mpr ⟨array, harray, ?_⟩⟩
    exact (Kernel.slotIn_eq_iff nodup (bound op hop array harray) hslot).mpr rfl
  · rintro ⟨kernelOp, hkernel, hmem⟩
    obtain ⟨op, hop, hin⟩ := impl.exists_op hkernel
    obtain ⟨id, hid, heq⟩ := (renamed op kernelOp hin slot).mp hmem
    have harray := (Kernel.slotIn_eq_iff nodup (bound op hop id hid) hslot).mp heq
    exact ⟨op, hop, harray ▸ hid⟩

theorem writes_iff {slot : Nat} {use : ArrayUse} (huse : region.uses[slot]? = some use) :
    use.access.writes = true ↔ ∃ op ∈ plan.kernel.body, op.out = slot := by
  have hslot : plan.bindings[slot]? = some use.array := by rw [impl.bindings_eq]; simp [huse]
  rw [sound.exact.writes use (List.mem_of_getElem? huse),
    impl.renamed_iff sound (fun op => [op.out]) Op.writes _ _ hslot]
  · simp only [List.mem_singleton, eq_comm]
  · intro op kernelOp hin slot
    rw [List.mem_singleton, eq_comm, Kernel.out_eq_iff hin]
  · exact fun op id hid => List.mem_append_right _ hid

theorem reads_iff {slot : Nat} {use : ArrayUse} (huse : region.uses[slot]? = some use) :
    use.access.reads = true ↔ ∃ op ∈ plan.kernel.body, slot ∈ op.inputs := by
  have hslot : plan.bindings[slot]? = some use.array := by rw [impl.bindings_eq]; simp [huse]
  rw [sound.exact.reads use (List.mem_of_getElem? huse)]
  exact impl.renamed_iff sound KernelOp.inputs Op.reads (fun op kernelOp hin => Kernel.mem_inputs_iff hin)
    (fun op id hid => List.mem_append_left _ hid) hslot

end LaunchPlan.Implements

/-! ## Every region of a function -/

namespace Kernel

/-- The kernel is the region under a renaming of arrays to slots, which the bindings undo. -/
structure Renames (f : Func) (region : Region) (kernel : Kernel) (bindings : List ArrayId) :
    Prop where
  order : bindings = region.uses.map (·.array)
  nodup : bindings.Nodup
  length_params : kernel.params.length = bindings.length
  /-- A slot has its number, the type of its array and the access of the region. -/
  params : ∀ (slot : Nat) (use : ArrayUse), region.uses[slot]? = some use →
    ∃ decl, f.decl? use.array = some decl ∧
      kernel.params[slot]? = some ⟨slot, decl.elem, use.access⟩
  restored : kernel.body.mapM (KernelOp.over? bindings) = some (region.ops f)
  bound : ∀ op ∈ kernel.body, ∀ slot ∈ op.out :: op.inputs, slot < kernel.params.length
  writes : ∀ (slot : Nat) (param : KernelParam), kernel.params[slot]? = some param →
    (param.access.writes = true ↔ ∃ op ∈ kernel.body, op.out = slot)
  reads : ∀ (slot : Nat) (param : KernelParam), kernel.params[slot]? = some param →
    (param.access.reads = true ↔ ∃ op ∈ kernel.body, slot ∈ op.inputs)
  shader : ∀ source, Shader.lower kernel = .ok source →
    ∃ declarations statements, Shader.Writable kernel source declarations statements
  grid : ∀ args signature table shapes, Signature.ofArgs f args = .ok signature →
    Shapes.resolve f args table = .ok shapes →
    ∃ grid, shapes[region.space.extentOf]? = some grid ∧ grid.length = kernel.rank

variable {f : Func} {region : Region}

theorem renames_of_ofRegion (wf : f.WellFormed) (sound : region.Sound f) {kernel : Kernel}
    {bindings : List ArrayId} (h : ofRegion f region = .ok (kernel, bindings)) :
    Renames f region kernel bindings := by
  have impl : LaunchPlan.Implements f region ⟨kernel, region.space.extentOf, bindings⟩ := ⟨h, rfl⟩
  have horder : bindings = region.uses.map (·.array) := impl.bindings_eq
  have hlength : kernel.params.length = bindings.length := impl.length_params
  have hparams : ∀ (slot : Nat) (use : ArrayUse), region.uses[slot]? = some use →
      ∃ decl, f.decl? use.array = some decl ∧
        kernel.params[slot]? = some ⟨slot, decl.elem, use.access⟩ := by
    intro slot use huse
    have hbound : bindings[slot]? = some use.array := by rw [horder]; simp [huse]
    obtain ⟨found, decl, hfound, _, hdecl, hparam⟩ := impl.param hbound
    cases huse.symm.trans hfound
    exact ⟨decl, hdecl, hparam⟩
  -- there are as many slots as uses, so each parameter stands for a use
  have hslots : ∀ (slot : Nat) (param : KernelParam), kernel.params[slot]? = some param →
      ∃ use, region.uses[slot]? = some use ∧ param.slot = slot ∧ param.access = use.access := by
    intro slot param hparam
    have hlt : slot < region.uses.length := by
      rw [← List.length_map (·.array), ← horder, ← hlength]
      exact (List.getElem?_eq_some_iff.mp hparam).1
    have huse := List.getElem?_eq_getElem hlt
    obtain ⟨decl, _, hfound⟩ := hparams slot _ huse
    cases hparam.symm.trans hfound
    exact ⟨_, huse, rfl, rfl⟩
  have hwrites : ∀ (slot : Nat) (param : KernelParam), kernel.params[slot]? = some param →
      (param.access.writes = true ↔ ∃ op ∈ kernel.body, op.out = slot) := by
    intro slot param hparam
    obtain ⟨use, huse, _, haccess⟩ := hslots slot param hparam
    rw [haccess]
    exact impl.writes_iff sound huse
  refine ⟨horder, impl.bindings_nodup sound, hlength, hparams, impl.restored sound,
    fun op hop => impl.slots_lt sound hop, hwrites, ?_, ?_, ?_⟩
  · intro slot param hparam
    obtain ⟨use, huse, _, haccess⟩ := hslots slot param hparam
    rw [haccess]
    exact impl.reads_iff sound huse
  · intro source hsource
    refine Shader.lower_writable (fun slot param hparam => ?_) hwrites hsource
    obtain ⟨_, _, hslot, _⟩ := hslots slot param hparam
    exact hslot
  · intro args signature table shapes accepted hshapes
    obtain ⟨grid, hgrid, hrank, _⟩ := Call.grid_rank wf (Shapes.resolve_ok hshapes)
      (Signature.ofArgs_ok accepted) sound impl
    exact ⟨grid, hgrid, hrank⟩

/-- Of the regions of a function that was built, those with a scan are refused and all others have
a kernel, which is the region renamed. -/
theorem ofRegion_renames (built : f.Built) : ∃ p, f.partition? = some p ∧
    ∀ region ∈ p.regions,
      ((∃ stop, ofRegion f region = .error stop) ↔ HoldsScan f region) ∧
      (∀ out op input, .scan out op input ∈ region.ops f →
        ∃ text, f.opText? (.scan out op input) = some text ∧
          ofRegion f region = .error (.error ⟨region.index, .noKernelForm text⟩)) ∧
      ∀ kernel bindings, ofRegion f region = .ok (kernel, bindings) →
        Renames f region kernel bindings := by
  have wf := built.wellFormed
  obtain ⟨p, hp⟩ := wf.toChecked.rooted.exists_partition
  refine ⟨p, hp, fun region hregion => ?_⟩
  obtain ⟨i, hi⟩ := List.getElem?_of_mem hregion
  have sound := ((Func.partition?_sound hp).regions hi).2
  have hscans : ∀ out op input, .scan out op input ∈ region.ops f → _ := fun out op input =>
    ofRegion_scan wf.toChecked sound
  refine ⟨⟨?_, ?_⟩, hscans, fun kernel bindings => renames_of_ofRegion wf sound⟩
  · rintro ⟨stop, hstop⟩
    by_contra hscan
    obtain ⟨kernel, bindings, hok⟩ := exists_ofRegion wf.toChecked sound hscan
    cases hok.symm.trans hstop
  · rintro ⟨out, op, input, hscan⟩
    obtain ⟨text, _, hrefused⟩ := hscans out op input hscan
    exact ⟨_, hrefused⟩

/-- The first region has two maps over three arrays and the fifth a scan. -/
theorem ofRegion_renames_sample : Sample.stages.Built ∧
    ∃ p first fifth kernel, Sample.stages.partition? = some p ∧ p.regions[0]? = some first ∧
      p.regions[4]? = some fifth ∧ HoldsScan Sample.stages fifth ∧
      ofRegion Sample.stages first = .ok (kernel, [0, 1, 3]) ∧
      Renames Sample.stages first kernel [0, 1, 3] ∧
      ofRegion Sample.stages fifth = .error (.error ⟨4, .noKernelForm "u = scan sum(t)"⟩) := by
  obtain ⟨p, hp, hregions⟩ := ofRegion_renames Sample.stages_built
  have hpartition : Sample.stages.partition? = some p := hp
  cases hp
  obtain ⟨_, _, hfirst⟩ := hregions _ (List.mem_of_getElem? (i := 0) rfl)
  obtain ⟨hfifth, _, _⟩ := hregions _ (List.mem_of_getElem? (i := 4) rfl)
  exact ⟨Sample.stages_built, _, _, _, _, hpartition, rfl, rfl, hfifth.mp ⟨_, rfl⟩, rfl,
    hfirst _ _ rfl, rfl⟩

end Kernel

end ArrayOffload
