import ArrayOffload.Proofs.DeviceFollow

/-!
# The beginning of a call

A call starts from its arguments, zeros for its locals, and no buffers. If the arguments are arrays
that exist, its memories are in order, and the host has what a single memory starts with.

* `ArrayValue.Live`: the array exists, with its memory on the device if that is shared;
* `Device.Bounded`: handles of buffers have been given out;
* `Call.start_ok`: what a started call consists of;
* `Call.Started.memory_eq`: it has on the host what the reference starts from;
* `Call.Started.tracked`: its tracker tells the truth;
* `CompiledUnit.run_of_rejected`, `CompiledUnit.run_of_ok`, `CompiledUnit.run_of_error`: how a call
  can end.
-/

namespace ArrayOffload

/-- The array exists: it has as many elements as its shape asks for, all of its type, and a shared
array has them in live memory of the device. -/
def ArrayValue.Live (device : Device) (a : ArrayValue) : Prop :=
  match a.storage with
  | .owned cells => cells.size = a.shape.size ∧ Settled a.elem cells
  | .shared handle => device.buffers.get? handle = some (.shared a.elem) ∧
      ∃ cells, device.pool.get? handle = some cells ∧ cells.size = a.shape.size

/-- Every live buffer has a handle that was given out. -/
def Device.Bounded (device : Device) : Prop :=
  ∀ key ∈ device.buffers.keys, key ≤ device.lastHandle

theorem Func.WellFormed.params_nodup {f : Func} (wf : f.WellFormed) : f.params.Nodup := by
  refine List.pairwise_iff_getElem.mpr fun i j hi hj hlt heq => ?_
  obtain ⟨decl, hdecl, hrole⟩ := wf.param_decl (List.getElem?_eq_getElem hi)
  obtain ⟨found, hfound, hother⟩ := wf.param_decl (List.getElem?_eq_getElem hj)
  rw [← heq, hdecl, Option.some.injEq] at hfound
  rw [← hfound, hrole, Role.param.injEq] at hother
  exact absurd hother (Nat.ne_of_lt hlt)

/-- The host's memory of one array at the start. -/
def Call.storageOf (device : Device) (args : List ArrayValue) (id : ArrayId) (decl : ArrayDecl)
    (shape : Shape) : Except (Stop OffloadError) Storage :=
  match decl.role with
  | .param position => orFault (args[position]?.map (·.storage))
  | .scratch => (zeros device (.scratch id) decl.elem shape.size).map Storage.owned

namespace Call

theorem hostMemory_cons (device : Device) (args : List ArrayValue) (id : ArrayId) (decl : ArrayDecl)
    (shape : Shape) (rest : List (ArrayDecl × Shape)) :
    hostMemory device args id ((decl, shape) :: rest) = (do
      let storage ← storageOf device args id decl shape
      return storage :: (← hostMemory device args (id + 1) rest)) := by
  unfold storageOf
  rw [hostMemory]
  cases decl.role <;> rfl

theorem hostMemory_ok {device : Device} {args : List ArrayValue} {pairs : List (ArrayDecl × Shape)}
    {first : ArrayId} {host : List Storage} (h : hostMemory device args first pairs = .ok host) :
    host.length = pairs.length ∧
      ∀ {i : Nat} {decl : ArrayDecl} {shape : Shape}, pairs[i]? = some (decl, shape) →
        ∃ storage, host[i]? = some storage ∧
          storageOf device args (first + i) decl shape = .ok storage := by
  induction pairs generalizing first host with
  | nil =>
    cases h
    exact ⟨rfl, by simp⟩
  | cons pair rest ih =>
    obtain ⟨head, extent⟩ := pair
    rw [hostMemory_cons] at h
    simp only [bind_eq_ok] at h
    obtain ⟨storage, hstorage, others, hothers, hsame⟩ := h
    cases hsame
    obtain ⟨hlength, hrest⟩ := ih hothers
    refine ⟨by simp [hlength], fun {i decl shape} hi => ?_⟩
    cases i with
    | zero =>
      simp only [List.getElem?_cons_zero, Option.some.injEq, Prod.mk.injEq] at hi
      obtain ⟨rfl, rfl⟩ := hi
      exact ⟨storage, rfl, hstorage⟩
    | succ i =>
      rw [← Nat.add_assoc, Nat.add_right_comm]
      exact hrest (by simpa using hi)

/-- The parts of a started call. -/
structure Started (unit : CompiledUnit) (table : HostTable) (args : List ArrayValue)
    (machine : Machine) (call : Call) (shapes : List Shape) : Prop where
  resolved : Shapes.Resolved unit.function args table shapes
  machine : call.machine = machine
  host_length : call.host.length = unit.function.arrays.length
  host : ∀ {id : ArrayId} {decl : ArrayDecl} {shape : Shape}, unit.function.decl? id = some decl →
    shapes[id]? = some shape →
    ∃ storage, call.host[id]? = some storage ∧
      storageOf call.machine.device args id decl shape = .ok storage
  buffers : call.buffers = unit.function.arrays.map fun _ => none
  tracker : Tracker.start? unit.function unit.key.signature = some call.tracker
  counts : call.printed = [] ∧ call.launches = 0 ∧ call.transfers = 0

theorem start_ok {unit : CompiledUnit} {table : HostTable} {args : List ArrayValue}
    {machine : Machine} {call : Call} {shapes : List Shape}
    (h : start unit table args machine = .ok (call, shapes)) :
    Started unit table args machine call shapes := by
  simp only [start, bind_eq_ok, orFault_eq_ok] at h
  obtain ⟨found, hfound, host, hhost, tracker, htracker, hsame⟩ := h
  cases hsame
  have res := Shapes.resolve_ok hfound
  obtain ⟨hlength, hentries⟩ := hostMemory_ok hhost
  refine ⟨res, rfl, ?_, ?_, rfl, htracker, rfl, rfl, rfl⟩
  · rw [hlength, List.length_zip, res.length, Nat.min_self]
  · intro id decl shape hdecl hshape
    obtain ⟨storage, hstorage, hof⟩ := hentries (List.getElem?_zip_eq_some.mpr ⟨hdecl, hshape⟩)
    exact ⟨storage, hstorage, Nat.zero_add id ▸ hof⟩

theorem resolve_of_start {unit : CompiledUnit} {table : HostTable} {args : List ArrayValue}
    {machine : Machine} {call : Call} {shapes : List Shape}
    (h : start unit table args machine = .ok (call, shapes)) :
    Shapes.resolve unit.function args table = .ok shapes := by
  simp only [start, bind_eq_ok] at h
  obtain ⟨found, hfound, _, _, _, _, hsame⟩ := h
  cases hsame
  exact hfound

/-- The argument that an array of the function has its first elements from. -/
structure Passed (origin : Call) (id : ArrayId) (decl : ArrayDecl) (shape : Shape)
    (arg : ArrayValue) : Prop where
  storage : origin.host[id]? = some arg.storage
  elem : arg.elem = decl.elem
  shape : arg.shape = shape

namespace Started

variable {unit : CompiledUnit} {table : HostTable} {args : List ArrayValue} {machine : Machine}
  {call : Call} {shapes : List Shape}

/-- An array of a started call is an argument as it came, or zeros. -/
theorem host_cases (started : Started unit table args machine call shapes)
    (wf : unit.function.WellFormed) (accepted : unit.key.signature.Accepts unit.function args)
    {id : ArrayId} {storage : Storage} (h : call.host[id]? = some storage) :
    (∃ decl position arg, unit.function.decl? id = some decl ∧ decl.role = .param position ∧
      args[position]? = some arg ∧ arg.storage = storage ∧ arg.elem = unit.function.elemOf id ∧
      arg.shape.size = sizeAt shapes id ∧
      unit.key.signature.allocator? position = some arg.allocator) ∨
    (∃ decl, unit.function.decl? id = some decl ∧ decl.role = .scratch ∧
      refusal? (sizeAt shapes id) = none ∧
      storage = .owned (Array.replicate (sizeAt shapes id) (Number.ofCode false 0))) := by
  have hlt : id < unit.function.arrays.length :=
    started.host_length ▸ (List.getElem?_eq_some_iff.mp h).1
  obtain ⟨decl, hdecl⟩ := Func.exists_decl hlt
  obtain ⟨shape, hshape⟩ := started.resolved.exists_shape hlt
  obtain ⟨found, hfound, hof⟩ := started.host hdecl hshape
  rw [h, Option.some.injEq] at hfound
  subst hfound
  unfold storageOf at hof
  cases hrole : decl.role with
  | param position =>
    simp only [hrole, orFault_eq_ok, Option.map_eq_some_iff] at hof
    obtain ⟨arg, harg, hstorage⟩ := hof
    obtain ⟨hparam, hposition⟩ := wf.param_role hdecl hrole
    obtain ⟨⟨other, hother, htype⟩, halloc⟩ := accepted.arg hposition harg
    rw [hdecl, Option.some.injEq] at hother
    subst hother
    obtain ⟨again, hagain, hsame⟩ := started.resolved.param hdecl hparam hrole
    rw [harg, Option.some.injEq] at hagain
    subst hagain
    refine .inl ⟨decl, position, arg, hdecl, hrole, harg, hstorage, ?_, ?_, halloc⟩
    · rw [Func.elemOf_eq hdecl]
      exact congrArg ArrayType.elem htype
    · simp [sizeAt, hsame]
  | scratch =>
    simp only [hrole] at hof
    have hsize : sizeAt shapes id = shape.size := by simp [sizeAt, hshape]
    rcases zeros_cases call.machine.device (.scratch id) decl.elem shape.size with
      ⟨reason, _, hzeros⟩ | ⟨hr, hzeros⟩
    · rw [hzeros] at hof
      cases hof
    · rw [hzeros] at hof
      cases hof
      exact .inr ⟨decl, hdecl, hrole, hsize ▸ hr, by rw [hsize]⟩

/-- The host of a started call has what the reference starts from. -/
theorem memory_eq (started : Started unit table args machine call shapes) :
    call.memory = Memory.start unit.function shapes args machine.device.pool := by
  obtain ⟨hprinted, _, _⟩ := started.counts
  have hhost : call.host = (Memory.start unit.function shapes args machine.device.pool).arrays := by
    refine List.ext_getElem? fun id => ?_
    rw [Memory.start, List.getElem?_map]
    rcases hpair : (unit.function.arrays.zip shapes)[id]? with _ | ⟨decl, shape⟩
    · rw [List.getElem?_eq_none_iff, List.length_zip, started.resolved.length, Nat.min_self,
        ← started.host_length] at hpair
      rw [List.getElem?_eq_none hpair, Option.map_none]
    · obtain ⟨hdecl, hshape⟩ := List.getElem?_zip_eq_some.mp hpair
      obtain ⟨storage, hstorage, hof⟩ := started.host hdecl hshape
      rw [hstorage, Option.map_some, Option.some.injEq]
      unfold storageOf at hof
      cases hrole : decl.role with
      | param position =>
        simp only [hrole, orFault_eq_ok] at hof
        simp only [hrole, hof, Option.getD_some]
      | scratch =>
        simp only [hrole] at hof
        rcases zeros_cases call.machine.device (.scratch id) decl.elem shape.size with
          ⟨_, _, hzeros⟩ | ⟨_, hzeros⟩
        · rw [hzeros] at hof
          cases hof
        · rw [hzeros] at hof
          cases hof
          simp only [hrole]
  rw [memory, hhost, hprinted, started.machine]
  rfl

theorem exists_passed (started : Started unit table args machine call shapes)
    (wf : unit.function.WellFormed) (accepted : unit.key.signature.Accepts unit.function args)
    {position : Nat} {id : ArrayId} {decl : ArrayDecl} {shape : Shape}
    (hparam : unit.function.params[position]? = some id)
    (hdecl : unit.function.decl? id = some decl) (hshape : shapes[id]? = some shape) :
    ∃ arg, args[position]? = some arg ∧ call.Passed id decl shape arg := by
  obtain ⟨found, hfound, hrole⟩ := wf.param_decl hparam
  obtain rfl : decl = found := Option.some.inj (hdecl.symm.trans hfound)
  obtain ⟨arg, harg, hsame⟩ := started.resolved.param hdecl (wf.param_role hdecl hrole).1 hrole
  obtain ⟨⟨found, hfound, htype⟩, _⟩ := accepted.arg hparam harg
  obtain rfl : decl = found := Option.some.inj (hdecl.symm.trans hfound)
  obtain ⟨storage, hs, hof⟩ := started.host hdecl hshape
  simp only [storageOf, hrole, harg, Option.map_some, orFault, Except.ok.injEq] at hof
  refine ⟨arg, harg, hs.trans (congrArg some hof.symm), congrArg ArrayType.elem htype, ?_⟩
  exact Option.some.inj (hsame.symm.trans hshape)

theorem no_buffer (started : Started unit table args machine call shapes) (id : ArrayId)
    (handle : Nat) : call.buffers[id]? ≠ some (some handle) := by
  rw [started.buffers, List.getElem?_map]
  cases unit.function.arrays[id]? <;> simp

theorem intact (started : Started unit table args machine call shapes)
    (wf : unit.function.WellFormed) (accepted : unit.key.signature.Accepts unit.function args)
    (bounded : machine.device.Bounded) (live : ∀ arg ∈ args, arg.Live machine.device) :
    call.Intact unit.function shapes machine.device where
  host_length := started.host_length
  buffers_length := by simp [started.buffers]
  owned := by
    intro id cells h
    rcases started.host_cases wf accepted h with
      ⟨_, _, arg, _, _, harg, hstorage, _, hsize, _⟩ | ⟨_, _, _, _, heq⟩
    · have hlive := live arg (List.mem_of_getElem? harg)
      simp only [ArrayValue.Live, hstorage] at hlive
      rw [hlive.1, hsize]
    · cases heq
      simp
  shared := by
    intro id handle h
    rcases started.host_cases wf accepted h with
      ⟨_, _, arg, _, _, harg, hstorage, helem, hsize, _⟩ | ⟨_, _, _, _, heq⟩
    · have hlive := live arg (List.mem_of_getElem? harg)
      simp only [ArrayValue.Live, hstorage] at hlive
      rw [started.machine, ← helem, ← hsize]
      exact hlive
    · cases heq
  buffer := fun {id handle} h => absurd h (started.no_buffer id handle)
  distinct := fun {a b handle} h => absurd h (started.no_buffer a handle)
  bounded := by
    rw [started.machine]
    exact bounded
  programs := by rw [started.machine]
  failLaunch := by rw [started.machine]
  scarce := by rw [started.machine]

/-- The tracker knows which arrays the call owns. -/
theorem binding (started : Started unit table args machine call shapes)
    (wf : unit.function.WellFormed) (accepted : unit.key.signature.Accepts unit.function args)
    {id : ArrayId} {storage : Storage} (h : call.host[id]? = some storage) :
    ∃ binding, call.tracker.bindings[id]? = some binding ∧
      call.tracker.state? id = some binding.allocator.initial ∧
      (binding.allocator = .copied ↔ storage.handle? = none) := by
  obtain ⟨_, hbindings⟩ := Tracker.start?_ok started.tracker
  rcases started.host_cases wf accepted h with
    ⟨decl, position, arg, hdecl, hrole, _, hstorage, _, _, halloc⟩ | ⟨decl, hdecl, hrole, _, heq⟩
  · obtain ⟨binding, hbinding, hof, hstate⟩ := hbindings hdecl
    simp only [Tracker.bindingOf?, hrole, halloc, Option.map_some, Option.some.injEq] at hof
    refine ⟨binding, hbinding, hstate, ?_⟩
    rw [← hof, ← hstorage]
    cases hs : arg.storage <;> simp [ArrayValue.allocator, hs, Storage.handle?]
  · obtain ⟨binding, hbinding, hof, hstate⟩ := hbindings hdecl
    simp only [Tracker.bindingOf?, hrole, Option.some.injEq] at hof
    refine ⟨binding, hbinding, hstate, ?_⟩
    rw [← hof, heq]
    simp [Storage.handle?]

theorem copies (started : Started unit table args machine call shapes)
    (wf : unit.function.WellFormed) (accepted : unit.key.signature.Accepts unit.function args)
    (id : ArrayId) : call.tracker.isCopied id = true ↔ call.Owns id := by
  cases hs : call.host[id]? with
  | none =>
    have hnone : call.tracker.bindings[id]? = none := by
      rw [List.getElem?_eq_none_iff] at hs ⊢
      rw [(Tracker.start?_ok started.tracker).1.bindings, ← started.host_length]
      exact hs
    simp [Tracker.isCopied, hnone, Owns, hs]
  | some storage =>
    obtain ⟨binding, hbinding, _, hcopied⟩ := started.binding wf accepted hs
    rw [owns_iff_map, hs]
    simp [Tracker.isCopied, hbinding, hcopied]

/-- Before its first step a call has no memory but the host's. -/
theorem tracked (started : Started unit table args machine call shapes)
    (wf : unit.function.WellFormed) (accepted : unit.key.signature.Accepts unit.function args)
    (bounded : machine.device.Bounded) (live : ∀ arg ∈ args, arg.Live machine.device) :
    Tracked unit.function shapes machine.device call call.memory := by
  obtain ⟨covers, hbindings⟩ := Tracker.start?_ok started.tracker
  have intact := started.intact wf accepted bounded live
  have settled : ∀ {id : ArrayId} {cells : Cells}, call.host[id]? = some (.owned cells) →
      cells.size = sizeAt shapes id ∧ Settled (unit.function.elemOf id) cells := by
    intro id cells h
    refine ⟨intact.owned h, ?_⟩
    rcases started.host_cases wf accepted h with
      ⟨_, _, arg, _, _, harg, hstorage, helem, _, _⟩ | ⟨_, _, _, _, heq⟩
    · have hlive := live arg (List.mem_of_getElem? harg)
      simp only [ArrayValue.Live, hstorage] at hlive
      exact helem ▸ hlive.2
    · cases heq
      exact Elem.settled_replicate _ _
  refine ⟨covers, started.copies wf accepted, fun {id decl} hdecl => ?_, ?_⟩
  · obtain ⟨binding, hbinding, hof, _⟩ := hbindings hdecl
    obtain ⟨harray, _, hescapes⟩ := Tracker.bindingOf?_array hof
    exact ⟨binding, hbinding, harray, hescapes⟩
  · refine ⟨intact, rfl, rfl, settled, fun _ _ => rfl, fun id hvalid => ?_, rfl⟩
    have hcells : call.memory.cells? id = call.cells? id := rfl
    rw [hcells]
    rcases hs : call.host[id]? with _ | own | handle
    · simp [deviceCells?, handleOf?, Call.cells?, hs]
    · -- an own copy starts out valid on the host only
      obtain ⟨binding, _, hstate, hcopied⟩ := started.binding wf accepted hs
      obtain ⟨state, hfound, hv⟩ := hvalid
      rw [hstate, hcopied.mpr rfl, Option.some.injEq] at hfound
      subst hfound
      cases hv
    · exact (intact.cells?_eq_deviceCells?_of_shared hs).symm

end Started

end Call

namespace CompiledUnit

variable {unit : CompiledUnit} {table : HostTable} {args : List ArrayValue} {machine : Machine}

/-- A call that does not start changes nothing. -/
theorem run_of_rejected {stop : Stop OffloadError}
    (h : Call.start unit table args machine = .error stop) :
    unit.run table args machine = ⟨.error stop, args, machine⟩ := by
  simp only [run, h]

section
variable {call final : Call} {shapes : List Shape}
  (h : Call.start unit table args machine = .ok (call, shapes))

include h

/-- A call that succeeds hands its own copies over. -/
theorem run_of_ok {outcome : Outcome}
    (hbody : exec (Call.body unit shapes table args) call = (.ok outcome, final)) :
    unit.run table args machine =
      ⟨.ok outcome, Call.commit unit.function.params final.host args, final.close⟩ := by
  have hrun : (Call.body unit shapes table args).run.run call = (.ok outcome, final) := hbody
  simp only [run, h, hrun]

/-- A call that fails leaves the arguments as they were. -/
theorem run_of_error {stop : Stop OffloadError}
    (hbody : exec (Call.body unit shapes table args) call = (.error stop, final)) :
    unit.run table args machine = ⟨.error stop, args, final.close⟩ := by
  have hrun : (Call.body unit shapes table args).run.run call = (.error stop, final) := hbody
  simp only [run, h, hrun]

end

theorem exists_of_run_ok {outcome : Outcome}
    (h : (unit.run table args machine).result = .ok outcome) :
    ∃ call shapes final, Call.start unit table args machine = .ok (call, shapes) ∧
      exec (Call.body unit shapes table args) call = (.ok outcome, final) := by
  cases hstart : Call.start unit table args machine with
  | error stop =>
    rw [run_of_rejected hstart] at h
    cases h
  | ok opened =>
    obtain ⟨call, shapes⟩ := opened
    rcases hbody : exec (Call.body unit shapes table args) call with ⟨stop | found, final⟩
    · rw [run_of_error hstart hbody] at h
      cases h
    · rw [run_of_ok hstart hbody] at h
      cases h
      exact ⟨call, shapes, final, rfl, hbody⟩

theorem cases_of_run_error {stop : Stop OffloadError}
    (h : (unit.run table args machine).result = .error stop) :
    Call.start unit table args machine = .error stop ∨
      ∃ call shapes final, Call.start unit table args machine = .ok (call, shapes) ∧
        exec (Call.body unit shapes table args) call = (.error stop, final) := by
  cases hstart : Call.start unit table args machine with
  | error found =>
    rw [run_of_rejected hstart] at h
    cases h
    exact .inl rfl
  | ok opened =>
    obtain ⟨call, shapes⟩ := opened
    rcases hbody : exec (Call.body unit shapes table args) call with ⟨found | outcome, final⟩
    · rw [run_of_error hstart hbody] at h
      cases h
      exact .inr ⟨call, shapes, final, rfl, hbody⟩
    · rw [run_of_ok hstart hbody] at h
      cases h

end CompiledUnit

end ArrayOffload
