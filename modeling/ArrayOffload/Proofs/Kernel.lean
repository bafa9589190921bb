import ArrayOffload.Plan.Placement
import ArrayOffload.Proofs.Exec
import ArrayOffload.Proofs.Partition

/-!
# Kernels of regions

The kernel of a region is the region over slots: slot `i` is bound to the region's `i`-th array,
and each kernel operation is an operation of the region with slots for arrays.

* `LaunchPlan.Implements`: the plan was made from the region;
* `LaunchPlan.Implements.slots`, `LaunchPlan.Implements.ops`: parameters and operations, slot by
  slot;
* `LaunchPlan.Implements.slotted`: operations name slots that there are.
-/

namespace ArrayOffload

namespace Kernel

/-- The slot of a bound array is bound to it. -/
theorem get?_slotIn {bindings : List ArrayId} {id : ArrayId} (h : id ∈ bindings) :
    bindings[slotIn bindings id]? = some id := by
  unfold slotIn
  cases hi : bindings.idxOf? id with
  | none => exact absurd h (List.idxOf?_eq_none_iff.mp hi)
  | some i =>
    rw [List.idxOf?_eq_some_iff] at hi
    obtain ⟨hlt, heq, _⟩ := hi
    simp [hlt, heq]

theorem bodyIn_ok {f : Func} {region : Nat} {bindings : List ArrayId} {ops : List Op}
    {body : List KernelOp} (h : bodyIn f region bindings ops = .ok body) :
    ops.map (opIn? bindings) = body.map some := by
  induction ops generalizing body with
  | nil =>
    cases h
    rfl
  | cons op rest ih =>
    simp only [bodyIn] at h
    cases ho : opIn? bindings op with
    | none =>
      simp only [ho] at h
      cases ht : f.opText? op with
      | none =>
        rw [ht] at h
        cases h
      | some text =>
        rw [ht] at h
        cases h
    | some kernelOp =>
      simp only [ho] at h
      cases hr : bodyIn f region bindings rest with
      | error stop =>
        simp only [hr, bind, Except.bind] at h
        cases h
      | ok tail =>
        simp only [hr, bind, Except.bind, pure, Except.pure, Except.ok.injEq] at h
        subst h
        simp [ho, ih hr]

/-- The slots of an operation are slots of the kernel, and a map has its operands. -/
def Slotted (kernel : Kernel) : KernelOp → Prop
  | .map out op args => out < kernel.params.length ∧ args.length = op.arity ∧
      ∀ slot, .slot slot ∈ args → slot < kernel.params.length
  | .reduce out _ input => out < kernel.params.length ∧ input < kernel.params.length

end Kernel

namespace LaunchPlan

/-- The plan launches the kernel of the region. -/
def Implements (f : Func) (region : Region) (plan : LaunchPlan) : Prop :=
  Kernel.ofRegion f region = .ok (plan.kernel, plan.bindings) ∧
    plan.extentOf = region.space.extentOf

namespace Implements

variable {f : Func} {region : Region} {plan : LaunchPlan}

theorem parts (h : plan.Implements f region) :
    plan.bindings = region.uses.map (·.array) ∧ plan.kernel.region = region.index ∧
      plan.kernel.rank = region.space.rank ∧
      Kernel.paramsOf? f region.uses = some plan.kernel.params ∧
      Kernel.bodyIn f region.index (region.uses.map (·.array)) (region.ops f) =
        .ok plan.kernel.body := by
  obtain ⟨h, _⟩ := h
  unfold Kernel.ofRegion at h
  cases hp : Kernel.paramsOf? f region.uses with
  | none =>
    simp only [hp, orFault, bind, Except.bind] at h
    cases h
  | some params =>
    simp only [hp, orFault, bind, Except.bind] at h
    split at h
    · cases h
    · next body hb =>
      simp only [pure, Except.pure, Except.ok.injEq, Prod.mk.injEq] at h
      obtain ⟨hk, hbind⟩ := h
      rw [← hk, ← hbind]
      exact ⟨rfl, rfl, rfl, rfl, hb⟩

theorem bindings_eq (h : plan.Implements f region) :
    plan.bindings = region.uses.map (·.array) := h.parts.1

theorem rank_eq (h : plan.Implements f region) : plan.kernel.rank = region.space.rank :=
  h.parts.2.2.1

/-- Each kernel operation is the region's operation over slots. -/
theorem ops (h : plan.Implements f region) :
    (region.ops f).map (Kernel.opIn? plan.bindings) = plan.kernel.body.map some := by
  rw [h.bindings_eq]
  exact Kernel.bodyIn_ok h.parts.2.2.2.2

theorem length_params (h : plan.Implements f region) :
    plan.kernel.params.length = plan.bindings.length := by
  have := length_of_map_some (mapM_some h.parts.2.2.2.1)
  simpa [h.bindings_eq] using this

theorem exists_op (h : plan.Implements f region) {kernelOp : KernelOp}
    (hop : kernelOp ∈ plan.kernel.body) :
    ∃ op ∈ region.ops f, Kernel.opIn? plan.bindings op = some kernelOp := by
  have hmem : some kernelOp ∈ (region.ops f).map (Kernel.opIn? plan.bindings) := by
    rw [h.ops]
    exact List.mem_map_of_mem hop
  simpa using hmem

/-- The arrays of the region's operations are bound. -/
theorem mem_bindings (h : plan.Implements f region) (sound : region.Sound f) {op : Op}
    (hop : op ∈ region.ops f) {id : ArrayId} (hid : id ∈ op.reads ++ op.writes) :
    id ∈ plan.bindings := by
  rw [h.bindings_eq, Region.Sound.mem_arrays, sound.mem_reads, sound.mem_writes]
  exact (List.mem_append.mp hid).imp (fun hread => ⟨op, hop, hread⟩) fun hwrite =>
    ⟨op, hop, hwrite⟩

theorem slotIn_lt (h : plan.Implements f region) (sound : region.Sound f) {op : Op}
    (hop : op ∈ region.ops f) {id : ArrayId} (hid : id ∈ op.reads ++ op.writes) :
    Kernel.slotIn plan.bindings id < plan.kernel.params.length := by
  rw [h.length_params]
  exact (List.getElem?_eq_some_iff.mp (Kernel.get?_slotIn (h.mem_bindings sound hop hid))).1

/-- The operations of the kernel of a checked function name slots that there are. -/
theorem slotted (h : plan.Implements f region) (sound : region.Sound f) (checked : f.Checked)
    {kernelOp : KernelOp} (hop : kernelOp ∈ plan.kernel.body) : plan.kernel.Slotted kernelOp := by
  obtain ⟨op, hmem, hin⟩ := h.exists_op hop
  have hslot : ∀ id ∈ op.reads ++ op.writes,
      Kernel.slotIn plan.bindings id < plan.kernel.params.length := fun id =>
    h.slotIn_lt sound hmem
  cases op with
  | map out op operands =>
    cases hin
    refine ⟨hslot out (by simp [Op.writes]), ?_, fun slot hs => ?_⟩
    · rw [List.length_map]
      exact checked.map_arity (Region.mem_body hmem)
    · obtain ⟨operand, hoperand, heq⟩ := List.mem_map.mp hs
      cases operand with
      | scalar constant => cases heq
      | array id =>
        cases heq
        refine hslot id (List.mem_append_left _ (mem_distinct.mpr ?_))
        exact List.mem_filterMap.mpr ⟨_, hoperand, rfl⟩
  | reduce out op input =>
    cases hin
    exact ⟨hslot out (by simp [Op.writes]), hslot input (by simp [Op.reads])⟩
  | scan | store | print | call => simp [Kernel.opIn?] at hin

/-- A slot has the access of its array and the element type that the array is declared with. -/
theorem param (h : plan.Implements f region) {slot : Nat} {id : ArrayId}
    (hid : plan.bindings[slot]? = some id) :
    ∃ use decl, region.uses[slot]? = some use ∧ use.array = id ∧ f.decl? id = some decl ∧
      plan.kernel.params[slot]? = some ⟨slot, decl.elem, use.access⟩ := by
  rw [h.bindings_eq, List.getElem?_map, Option.map_eq_some_iff] at hid
  obtain ⟨use, huse, harray⟩ := hid
  have hzip : region.uses.zipIdx[slot]? = some (use, slot) := by simp [huse]
  obtain ⟨param, hparam, hf⟩ := get?_of_map_some (mapM_some h.parts.2.2.2.1) hzip
  rw [Option.map_eq_some_iff] at hf
  obtain ⟨decl, hdecl, rfl⟩ := hf
  exact ⟨use, decl, huse, harray, harray ▸ hdecl, hparam⟩

/-- The slots carry the uses of the region. -/
theorem slots (h : plan.Implements f region) :
    (plan.kernel.params.zip plan.bindings).map (fun slot => ArrayUse.mk slot.2 slot.1.access) =
      region.uses := by
  refine List.ext_getElem? fun i => ?_
  rw [List.getElem?_map]
  cases hb : plan.bindings[i]? with
  | none =>
    have hz : (plan.kernel.params.zip plan.bindings)[i]? = none := by
      rw [List.getElem?_eq_none_iff] at hb ⊢
      rw [List.length_zip]
      omega
    have hu : region.uses[i]? = none := by
      simpa [h.bindings_eq] using hb
    rw [hz, hu]
    rfl
  | some id =>
    obtain ⟨use, decl, huse, rfl, _, hparam⟩ := h.param hb
    have hz : (plan.kernel.params.zip plan.bindings)[i]? =
        some (⟨i, decl.elem, use.access⟩, use.array) := by
      rw [List.getElem?_zip_eq_some]
      exact ⟨hparam, hb⟩
    rw [hz, huse]
    rfl

theorem writes_eq (h : plan.Implements f region) :
    ((plan.kernel.params.zip plan.bindings).filter (·.1.access.writes)).map (·.2) =
      region.writes := by
  rw [Region.writes, ← h.slots, List.filter_map, List.map_map]
  rfl

theorem reads_eq (h : plan.Implements f region) :
    ((plan.kernel.params.zip plan.bindings).filter (·.1.access.reads)).map (·.2) =
      region.reads := by
  rw [Region.reads, ← h.slots, List.filter_map, List.map_map]
  rfl

end Implements

end LaunchPlan

theorem Placement.launchOf_implements {profile : Profile} {f : Func} {region : Region}
    {plan : LaunchPlan} (h : launchOf profile f region = .ok plan) :
    plan.Implements f region := by
  unfold launchOf at h
  cases hk : region.kernelless? with
  | some kind =>
    simp only [hk] at h
    split at h <;> cases h
  | none =>
    simp only [hk] at h
    split at h
    · cases h
    · simp only [bind_eq_ok] at h
      obtain ⟨_, _, ⟨kernel, bindings⟩, hof, _, _, hplan⟩ := h
      cases hplan
      exact ⟨hof, rfl⟩

end ArrayOffload
