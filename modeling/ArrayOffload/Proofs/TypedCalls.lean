import ArrayOffload.Proofs.Release
import ArrayOffload.Proofs.TypedMemory

/-!
# Typed calls

A call that begins with well-typed arguments has typed memory after every step. When it succeeds,
the arguments and the returned array are well-typed for what they were declared as.

* `Elem.Fills`: elements of a type, as many as a shape asks for;
* `ArrayValue.WellTyped`, `ArrayValue.TypedAs`: an array with such elements;
* `Call.MemoryTyped`: a call whose memories all have such elements;
* `Lowering.run_typed`: every call of a lowered unit.
-/

namespace ArrayOffload

/-- The elements are values of a type, as many as a shape asks for. -/
structure Elem.Fills (elem : Elem) (shape : Shape) (cells : Cells) : Prop where
  size : cells.size = shape.size
  settled : Settled elem cells

/-! ## Arguments -/

/-- The array is filled with elements of its type, in its own memory or in the memory it shares. -/
def ArrayValue.WellTyped (device : Device) (a : ArrayValue) : Prop :=
  match a.storage with
  | .owned cells => a.elem.Fills a.shape cells
  | .shared handle => device.buffers.get? handle = some (.shared a.elem) ∧
      ∃ cells, device.pool.get? handle = some cells ∧ a.elem.Fills a.shape cells

theorem ArrayValue.WellTyped.live {device : Device} {a : ArrayValue} (typed : a.WellTyped device) :
    a.Live device := by
  unfold Live
  split
  · next hs =>
    rw [WellTyped, hs] at typed
    exact ⟨typed.size, typed.settled⟩
  · next hs =>
    rw [WellTyped, hs] at typed
    obtain ⟨hget, cells, hcells, hfills⟩ := typed
    exact ⟨hget, cells, hcells, hfills.size⟩

/-- The array is what a declaration says, in some shape. -/
structure ArrayValue.TypedAs (device : Device) (decl : ArrayDecl) (shape : Shape)
    (a : ArrayValue) : Prop where
  elem : a.elem = decl.elem
  shape : a.shape = shape
  wellTyped : a.WellTyped device

/-- All memories of a call are as the declarations say, in the shapes of the call. `start` is the
device before the call. -/
structure Call.MemoryTyped (f : Func) (shapes : List Shape) (start : Device) (call : Call) :
    Prop where
  slots : call.host.length = f.arrays.length
  owned : ∀ {id : ArrayId} {decl : ArrayDecl} {shape : Shape} {cells : Cells},
    f.decl? id = some decl → shapes[id]? = some shape → call.host[id]? = some (.owned cells) →
    decl.elem.Fills shape cells
  shared : ∀ {id : ArrayId} {decl : ArrayDecl} {shape : Shape} {handle : Nat},
    f.decl? id = some decl → shapes[id]? = some shape → call.host[id]? = some (.shared handle) →
    ∃ cells, call.machine.device.pool.get? handle = some cells ∧ decl.elem.Fills shape cells
  buffer : ∀ {id : ArrayId} {decl : ArrayDecl} {shape : Shape} {handle : Nat},
    f.decl? id = some decl → shapes[id]? = some shape → call.buffers[id]? = some (some handle) →
    ∃ cells, call.machine.device.buffers.get? handle = some (.owned decl.elem cells) ∧
      decl.elem.Fills shape cells
  allocated : ∀ handle ∈ call.machine.device.buffers.keys, handle ∉ start.buffers.keys →
    ∃ id : ArrayId, call.buffers[id]? = some (some handle)

namespace Call

variable {f : Func} {shapes : List Shape} {origin call : Call}

theorem sizeAt_eq {id : ArrayId} {shape : Shape} (h : shapes[id]? = some shape) :
    sizeAt shapes id = shape.size := by
  simp [sizeAt, h]

theorem Typed.fills_host (typed : Typed f shapes origin call) {id : ArrayId} {decl : ArrayDecl}
    {shape : Shape} (hdecl : f.decl? id = some decl) (hshape : shapes[id]? = some shape) :
    ∃ cells, call.cells? id = some cells ∧ decl.elem.Fills shape cells := by
  have hid := Func.lt_of_decl? hdecl
  refine ⟨call.read id, typed.intact.sized.cells? hid, ?_, ?_⟩
  · rw [typed.intact.sized.size_read hid, sizeAt_eq hshape]
  · rw [← Func.elemOf_eq hdecl]
    exact typed.settled_read hid

theorem Typed.memoryTyped (typed : Typed f shapes origin call) {start : Device}
    (holds : call.Holds start) : call.MemoryTyped f shapes start where
  slots := typed.intact.host_length
  owned hdecl hshape h := by
    obtain ⟨cells, hcells, hfills⟩ := typed.fills_host hdecl hshape
    simp only [Call.cells?, h, Option.some.injEq] at hcells
    exact hcells ▸ hfills
  shared hdecl hshape h := by
    obtain ⟨cells, hcells, hfills⟩ := typed.fills_host hdecl hshape
    simp only [Call.cells?, h] at hcells
    exact ⟨cells, hcells, hfills⟩
  buffer {id decl shape handle} hdecl hshape h := by
    obtain ⟨howns, cells, hget, hsize⟩ := typed.intact.buffer h
    rw [Func.elemOf_eq hdecl] at hget
    refine ⟨cells, hget, hsize.trans (sizeAt_eq hshape), ?_⟩
    rw [← Func.elemOf_eq hdecl]
    refine typed.device ?_
    simp [deviceCells?, handleOf?_of_buffer howns h, Device.cells?, hget]
  allocated handle hmem hnew := by
    have hheld : handle ∈ call.held := by
      refine Classical.byContradiction fun hfree => hnew ?_
      rw [← holds.live, List.mem_filter]
      exact ⟨hmem, by simpa using hfree⟩
    exact List.getElem?_of_mem (mem_held.mp hheld)

/-! ## The beginning and the end of a call -/

theorem Started.typed {unit : CompiledUnit} {table : HostTable} {args : List ArrayValue}
    {machine : Machine} (started : Started unit table args machine call shapes)
    (wf : unit.function.WellFormed) (accepted : unit.key.signature.Accepts unit.function args)
    (bounded : machine.device.Bounded) (typed : ∀ arg ∈ args, arg.WellTyped machine.device) :
    Typed unit.function shapes call call := by
  have intact := started.intact wf accepted bounded fun arg harg => (typed arg harg).live
  have settled : ∀ {id : ArrayId} {cells : Cells}, call.cells? id = some cells →
      Settled (unit.function.elemOf id) cells := by
    intro id cells h
    cases hs : call.host[id]? with
    | none => simp [Call.cells?, hs] at h
    | some storage =>
      rcases started.host_cases wf accepted hs with
        ⟨_, _, arg, _, _, harg, hstorage, helem, _, _⟩ | ⟨_, _, _, _, rfl⟩
      · have harg := typed arg (List.mem_of_getElem? harg)
        rw [ArrayValue.WellTyped, hstorage, helem] at harg
        cases storage with
        | owned own =>
          simp only [Call.cells?, hs, Option.some.injEq] at h
          exact h ▸ harg.settled
        | shared handle =>
          obtain ⟨_, held, hheld, hfills⟩ := harg
          simp only [Call.cells?, hs, Device.shared?, started.machine, hheld,
            Option.some.injEq] at h
          exact h ▸ hfills.settled
      · simp only [Call.cells?, hs, Option.some.injEq] at h
        exact h ▸ Elem.settled_replicate _ _
  refine ⟨intact.self, rfl, rfl, fun id => (started.copies wf accepted id).mp, settled,
    fun {id cells} h => ?_⟩
  cases hs : call.host[id]? with
  | none => simp [deviceCells?, handleOf?, hs] at h
  | some storage =>
    cases storage with
    | owned own =>
      -- no array has a buffer yet
      simp only [deviceCells?, handleOf?, hs, Option.bind_eq_some_iff,
        Option.join_eq_some_iff] at h
      obtain ⟨handle, hbuffer, _⟩ := h
      exact absurd hbuffer (started.no_buffer id handle)
    | shared handle => exact settled (intact.cells?_eq_deviceCells?_of_shared hs ▸ h)

theorem get?_releases {handles : List Nat} {key : Nat} (h : key ∉ handles) (device : Device) :
    (handles.foldl Device.release device).buffers.get? key = device.buffers.get? key := by
  induction handles generalizing device with
  | nil => rfl
  | cons handle rest ih =>
    rw [List.mem_cons, not_or] at h
    rw [List.foldl_cons, ih h.2]
    unfold Device.release
    split
    · exact HandleTable.get?_erase_of_ne _ h.1
    · rfl

/-- A buffer of shared memory is none of those that the call gives back. -/
theorem Typed.shared_close (typed : Typed f shapes origin call) {id : ArrayId} {decl : ArrayDecl}
    {shape : Shape} {handle : Nat} (hdecl : f.decl? id = some decl)
    (hshape : shapes[id]? = some shape) (hs : call.host[id]? = some (.shared handle)) :
    call.close.device.buffers.get? handle = some (.shared decl.elem) ∧
      ∃ cells, call.close.device.pool.get? handle = some cells ∧ decl.elem.Fills shape cells := by
  obtain ⟨hget, _⟩ := typed.intact.shared hs
  have hfree : handle ∉ call.held := by
    intro hheld
    obtain ⟨other, hother⟩ := List.getElem?_of_mem (mem_held.mp hheld)
    obtain ⟨_, _, howned, _⟩ := typed.intact.buffer hother
    rw [hget] at howned
    cases howned
  rw [pool_close, ← Func.elemOf_eq hdecl]
  refine ⟨(get?_releases hfree _).trans hget, ?_⟩
  obtain ⟨cells, hcells, hfills⟩ := typed.fills_host hdecl hshape
  simp only [Call.cells?, hs] at hcells
  exact ⟨cells, hcells, Func.elemOf_eq hdecl ▸ hfills⟩

section
variable {final : Call} {id : ArrayId} {decl : ArrayDecl} {shape : Shape} {arg : ArrayValue}
  (typed : Typed f shapes origin final) (hdecl : f.decl? id = some decl)
  (hshape : shapes[id]? = some shape) (passed : origin.Passed id decl shape arg)

include typed hdecl hshape passed

/-- An argument in shared memory is well typed after the call. -/
theorem Typed.shared_arg {handle : Nat} (hstorage : arg.storage = .shared handle) :
    arg.TypedAs final.close.device decl shape := by
  refine ⟨passed.elem, passed.shape, ?_⟩
  rw [ArrayValue.WellTyped, hstorage, passed.elem, passed.shape]
  exact typed.shared_close hdecl hshape (typed.shared_iff.mpr (hstorage ▸ passed.storage))

/-- An argument is well typed after a call that did not change it. -/
theorem Typed.kept_arg {start : Device} (before : arg.WellTyped start) :
    arg.TypedAs final.close.device decl shape := by
  cases hstorage : arg.storage with
  | shared handle => exact typed.shared_arg hdecl hshape passed hstorage
  | owned cells =>
    refine ⟨passed.elem, passed.shape, ?_⟩
    rw [ArrayValue.WellTyped, hstorage] at before ⊢
    exact before

/-- An argument is well typed after the call's copy was handed over. -/
theorem Typed.committed_arg :
    (handed final.host id arg).TypedAs final.close.device decl shape := by
  unfold handed
  cases hstorage : arg.storage with
  | shared handle =>
    rw [typed.shared_iff.mpr (hstorage ▸ passed.storage)]
    exact typed.shared_arg hdecl hshape passed hstorage
  | owned cells =>
    obtain ⟨storage, hs⟩ := typed.intact.exists_storage (Func.lt_of_decl? hdecl)
    cases storage with
    | shared handle =>
      have hsame := passed.storage
      rw [typed.shared_iff.mp hs, hstorage] at hsame
      cases hsame
    | owned own =>
      obtain ⟨found, hfound, hfills⟩ := typed.fills_host hdecl hshape
      simp only [Call.cells?, hs, Option.some.injEq] at hfound
      subst hfound
      simp only [hs, ArrayValue.withCells, hstorage]
      refine ⟨passed.elem, passed.shape, ?_⟩
      rw [ArrayValue.WellTyped, passed.elem, passed.shape]
      exact hfills

end

/-- The returned array is an argument in shared memory, or a new array with the host's elements. -/
theorem Typed.returned_typed {args : List ArrayValue} {final : Call} {id : ArrayId}
    {decl : ArrayDecl} {shape : Shape} (typed : Typed f shapes origin final)
    (hdecl : f.decl? id = some decl) (hshape : shapes[id]? = some shape)
    (hargs : ∀ position, decl.role = .param position →
      ∃ arg, args[position]? = some arg ∧ origin.Passed id decl shape arg) :
    ∃ value, returnValue f shapes args final id = some value ∧
      value.TypedAs final.close.device decl shape := by
  have hid := Func.lt_of_decl? hdecl
  have hnew : ∃ value, (shapes[id]?.bind fun shape =>
        ArrayValue.ofCells? (f.elemOf id) shape (final.read id)) = some value ∧
      value.TypedAs final.close.device decl shape := by
    have hsize : shape.size = (final.read id).size := by
      rw [typed.intact.sized.size_read hid, sizeAt_eq hshape]
    refine ⟨⟨decl.elem, shape, .owned ((final.read id).map decl.elem.coerce)⟩, ?_, rfl, rfl, ?_⟩
    · rw [hshape, Option.bind_some, ArrayValue.ofCells?, if_pos hsize, Func.elemOf_eq hdecl]
    · exact ⟨(Array.size_map ..).trans hsize.symm, Elem.settled_map _ _⟩
  unfold returnValue
  split
  · next position handle hrole hs =>
    rw [hdecl, Option.map_some, Option.some.injEq] at hrole
    obtain ⟨arg, harg, passed⟩ := hargs position hrole
    have hshared := typed.shared_iff.mp hs
    rw [passed.storage, Option.some.injEq] at hshared
    exact ⟨arg, harg, typed.shared_arg hdecl hshape passed hshared⟩
  · exact hnew

end Call

namespace CompiledUnit

variable {unit : CompiledUnit} {table : HostTable} {args : List ArrayValue} {machine : Machine}
  {call : Call} {shapes : List Shape}

/-- The argument of a parameter after a call, whether the call succeeded or not. -/
theorem run_arg_typed (hstart : Call.start unit table args machine = .ok (call, shapes))
    (wf : unit.function.WellFormed)
    (ended : Call.Typed unit.function shapes call
      (exec (Call.body unit shapes table args) call).2)
    {position : Nat} {id : ArrayId} {decl : ArrayDecl} {shape : Shape} {arg : ArrayValue}
    (hparam : unit.function.params[position]? = some id)
    (hdecl : unit.function.decl? id = some decl) (hshape : shapes[id]? = some shape)
    (harg : args[position]? = some arg) (passed : call.Passed id decl shape arg)
    (before : arg.WellTyped machine.device) :
    ∃ arg, (unit.run table args machine).args[position]? = some arg ∧
      arg.TypedAs (unit.run table args machine).machine.device decl shape := by
  rcases hexec : exec (Call.body unit shapes table args) call with ⟨stop | outcome, final⟩
  · rw [hexec] at ended
    rw [run_of_error hstart hexec]
    exact ⟨arg, harg, ended.kept_arg hdecl hshape passed before⟩
  · rw [hexec] at ended
    rw [run_of_ok hstart hexec]
    exact ⟨_, Call.get?_commit wf.params_nodup hparam harg,
      ended.committed_arg hdecl hshape passed⟩

end CompiledUnit

/-- Take any steps for a lowered unit, well-typed arguments, and any host functions. After each step,
however it ended, all memories of the call are well typed: the host's own copies, the memory that
arguments share, and the buffers that the call allocated, of which it knows every one. So are the
arguments afterwards, whether the call succeeded or not, and the array that it returns. -/
theorem Lowering.run_typed {profile : Profile} {f : Func} {key : UnitKey}
    {fingerprint : ContentHash} {before lowered : Machine} {unit : CompiledUnit} (built : f.Built)
    (hlowered : exec (Lowering.run profile f key fingerprint) before = (.ok unit, lowered))
    {steps : List Step} (indexed : ∀ step ∈ steps, step.WellIndexed unit) {args : List ArrayValue}
    (accepted : Signature.ofArgs f args = .ok key.signature) (table : HostTable)
    {machine : Machine} (bounded : machine.device.Bounded) (loaded : unit.Loaded machine.device)
    (typed : ∀ arg ∈ args, arg.WellTyped machine.device) {call : Call} {shapes : List Shape}
    (hstart : Call.start { unit with steps } table args machine = .ok (call, shapes)) :
    (∀ done, done <+: steps →
      (exec (done.forM (Call.step { unit with steps } shapes table)) call).2.MemoryTyped f shapes
        machine.device) ∧
    (∀ (position : Nat) (id : ArrayId) (decl : ArrayDecl) (shape : Shape),
      f.params[position]? = some id → f.decl? id = some decl → shapes[id]? = some shape →
      ∃ arg, ({ unit with steps }.run table args machine).args[position]? = some arg ∧
        arg.TypedAs ({ unit with steps }.run table args machine).machine.device decl shape) ∧
    ∀ outcome, ({ unit with steps }.run table args machine).result = .ok outcome →
      ∀ id decl shape, f.returns = some id → f.decl? id = some decl → shapes[id]? = some shape →
      ∃ value, outcome.returned = some value ∧
        value.TypedAs ({ unit with steps }.run table args machine).machine.device decl shape := by
  obtain ⟨partition, placed, tracker, body, planned⟩ := Lowering.run_planned hlowered
  have sound := (planned.sound built).withSteps steps
  obtain rfl := planned.function_eq
  have haccepted := Signature.ofArgs_ok accepted
  rw [← planned.key_eq] at haccepted
  have wf := sound.wellFormed
  have started := Call.start_ok hstart
  have begun := started.typed wf haccepted bounded typed
  have hloaded : unit.Loaded call.machine.device := by rwa [started.machine]
  have hbody := Call.typed_body sound started.resolved haccepted hloaded indexed
  refine ⟨fun done hdone => ?_, fun position id decl shape hparam hdecl hshape => ?_,
    fun outcome hok id decl shape hret hdecl hshape => ?_⟩
  · have hsteps : Maintains (Call.Typed unit.function shapes call)
        (done.forM (Call.step { unit with steps } shapes table)) :=
      Call.typed_steps sound started.resolved haccepted hloaded fun step hstep =>
        indexed step (hdone.subset hstep)
    exact (hsteps.state begun).memoryTyped
      ((Call.holds_steps started.resolved done).state (Call.started_holds started bounded))
  · obtain ⟨arg, harg, passed⟩ := started.exists_passed wf haccepted hparam hdecl hshape
    have ended : Maintains (Call.Typed unit.function shapes call)
        (Call.body { unit with steps } shapes table args) :=
      hbody.weaken (fun _ h => h) (fun _ _ h => h.1) fun _ _ h => h
    exact CompiledUnit.run_arg_typed hstart wf (ended.state begun) hparam hdecl hshape harg passed
      (typed arg (List.mem_of_getElem? harg))
  · obtain ⟨found, resolved, final, hfound, hexec⟩ := CompiledUnit.exists_of_run_ok hok
    rw [hstart, Except.ok.injEq, Prod.mk.injEq] at hfound
    obtain ⟨rfl, rfl⟩ := hfound
    obtain ⟨hfinal, hreturned⟩ := hbody.of_ok begun hexec
    rw [CompiledUnit.run_of_ok hstart hexec, hreturned, hret, Option.bind_some]
    refine hfinal.returned_typed hdecl hshape fun position hrole => ?_
    exact started.exists_passed wf haccepted (wf.param_role hdecl hrole).2 hdecl hshape

namespace Sample

theorem args_wellTyped {device : Device} (live : ∀ arg ∈ args, arg.Live device) :
    ∀ arg ∈ args, arg.WellTyped device := by
  intro arg harg
  have helem : arg.elem = .f64 := by
    simp only [args, List.mem_cons, List.not_mem_nil, or_false] at harg
    rcases harg with rfl | rfl | rfl <;> rfl
  have hlive := live arg harg
  unfold ArrayValue.WellTyped
  rw [helem]
  split
  · next hs =>
    rw [ArrayValue.Live, hs] at hlive
    exact ⟨hlive.1, fun _ _ => rfl⟩
  · next hs =>
    rw [ArrayValue.Live, hs, helem] at hlive
    obtain ⟨hget, cells, hcells, hsize⟩ := hlive
    exact ⟨hget, cells, hcells, hsize, fun _ _ => rfl⟩

end Sample

/-- `Sample.blend` with the steps of `Sample.detour`: arguments in shared memory, a host function
that gives a fraction for an array of integers, and launches out of turn. -/
theorem Lowering.run_typed_sample : ∃ unit lowered call shapes outcome value,
    Sample.lower .gpu Sample.machine = (.ok unit, lowered) ∧
    Call.start { unit with steps := Sample.detour } Sample.table Sample.args lowered =
      .ok (call, shapes) ∧
    (exec (Sample.detour.forM
      (Call.step { unit with steps := Sample.detour } shapes Sample.table)) call).2.MemoryTyped
        Sample.blend shapes lowered.device ∧
    ({ unit with steps := Sample.detour }.run Sample.table Sample.args lowered).result =
      .ok outcome ∧
    outcome.returned = some value ∧
    value.TypedAs
      ({ unit with steps := Sample.detour }.run Sample.table Sample.args lowered).machine.device
      ⟨"t", .i32, 1, .like 0, .scratch⟩ [2] := by
  obtain ⟨unit, lowered, hlowered, hcheck⟩ := Sample.lower_of_check .gpu Sample.machine
    (fun unit lowered =>
      ({ unit with steps := Sample.detour }.run Sample.table Sample.args lowered).result.toBool &&
      decide (unit.function = Sample.blend ∧ unit.kernels.length = 3 ∧ unit.regions.length = 3))
    (by decide +kernel)
  simp only [Bool.and_eq_true, decide_eq_true_eq] at hcheck
  obtain ⟨hok, hfunction, hkernels, hregions⟩ := hcheck
  have indexed : ∀ step ∈ Sample.detour, step.WellIndexed unit := by
    simp [Sample.detour, Step.WellIndexed, hfunction, Sample.blend, hkernels, hregions]
  have hresolve : Shapes.resolve unit.function Sample.args Sample.table =
      .ok [[2], [2], [2], [2]] := by
    rw [hfunction]
    rfl
  have kept := Lowering.run_preserves hlowered
  have typed := Sample.args_wellTyped fun arg harg =>
    (Sample.args_live arg harg).1.preserved Sample.bounded kept
  cases hresult :
      ({ unit with steps := Sample.detour }.run Sample.table Sample.args lowered).result with
  | error stop =>
    rw [hresult] at hok
    cases hok
  | ok outcome =>
    obtain ⟨call, shapes, final, hstart, _⟩ := CompiledUnit.exists_of_run_ok hresult
    have hshapes := Call.resolve_of_start hstart
    rw [hresolve, Except.ok.injEq] at hshapes
    subst hshapes
    obtain ⟨hsteps, _, hreturned⟩ := run_typed Sample.blend_built hlowered
      indexed (Sample.accepted .gpu) Sample.table (kept.bounded Sample.bounded)
      (Lowering.run_loaded hlowered) typed hstart
    obtain ⟨value, hvalue, htyped⟩ := hreturned outcome hresult 3 _ [2] rfl rfl rfl
    exact ⟨unit, lowered, call, _, outcome, value, hlowered, hstart,
      hsteps _ (List.prefix_refl _), hresult, hvalue, htyped⟩

end ArrayOffload
