import ArrayOffload.Proofs.Opening
import ArrayOffload.Proofs.Reference

/-!
# What a caller observes

Of a finished call, its caller sees how it ended, what it printed, the array it returned and the
contents of the arguments. A call that is not refused shows what its steps show over a single memory.

* `CallResult.observed`: what is seen of a call;
* `Call.get?_commit`: what is handed over to an argument;
* `Call.Tracked.committed_eq_seen`, `Call.Tracked.returned_eq_seen`: the arguments and the returned
  array hold what the reference's memory holds;
* `CompiledUnit.run_follows`: the whole of a call, unless it is refused.
-/

namespace ArrayOffload

/-- Type, shape and elements of an array. -/
def ArrayValue.observed (device : Device) (a : ArrayValue) : Elem × Shape × Cells :=
  (a.elem, a.shape, a.cells device)

def CallResult.observed (ended : CallResult) : Observed where
  result := ended.result.map fun outcome =>
    (outcome.printed, outcome.returned.map (·.observed ended.machine.device))
  args := ended.args.map (·.observed ended.machine.device)

/-- What is seen of an array that nobody handed over depends on shared memory only. -/
theorem ArrayValue.observed_eq_kept {device : Device} {pool : HandleTable Cells}
    (h : device.pool = pool) : ArrayValue.observed device = Reference.kept pool := by
  subst h
  funext a
  unfold observed Reference.kept cells
  cases a.storage <;> rfl

namespace Call

theorem pool_release (device : Device) (handle : Nat) :
    (device.release handle).pool = device.pool := by
  unfold Device.release
  split <;> rfl

theorem pool_close (call : Call) : call.close.device.pool = call.machine.device.pool := by
  have general : ∀ (handles : List Nat) (device : Device),
      (handles.foldl Device.release device).pool = device.pool := by
    intro handles
    induction handles with
    | nil => exact fun device => rfl
    | cons handle rest ih => exact fun device => (ih _).trans (pool_release device handle)
  exact general _ _

/-- The array that the caller has after its copy was handed over. -/
def handed (host : List Storage) (id : ArrayId) (arg : ArrayValue) : ArrayValue :=
  match host[id]? with
  | some (.owned cells) => arg.withCells cells
  | _ => arg

theorem length_commit (ids : List ArrayId) (host : List Storage) (args : List ArrayValue) :
    (commit ids host args).length = args.length := by
  induction ids generalizing host args with
  | nil => rfl
  | cons id rest ih =>
    cases args with
    | nil => rfl
    | cons arg args =>
      unfold commit
      split <;> rw [List.length_cons, List.length_cons, ih]

/-- The copy of a parameter is handed over to the argument at its position. -/
theorem get?_commit {ids : List ArrayId} (distinct : ids.Nodup) {host : List Storage}
    {args : List ArrayValue} {i : Nat} {id : ArrayId} {arg : ArrayValue} (hid : ids[i]? = some id)
    (harg : args[i]? = some arg) : (commit ids host args)[i]? = some (handed host id arg) := by
  induction ids generalizing host args i with
  | nil => simp at hid
  | cons first rest ih =>
    cases args with
    | nil => simp at harg
    | cons head tail =>
      rw [List.nodup_cons] at distinct
      cases i with
      | zero =>
        simp only [List.getElem?_cons_zero, Option.some.injEq] at hid harg
        subst hid harg
        unfold commit handed
        split <;> simp_all
      | succ i =>
        rw [List.getElem?_cons_succ] at hid harg
        have hne : first ≠ id := fun heq => distinct.1 (heq ▸ List.mem_of_getElem? hid)
        unfold commit
        split
        · rw [List.getElem?_cons_succ, ih distinct.2 hid harg, handed, handed,
            List.getElem?_set_ne hne]
        · rw [List.getElem?_cons_succ, ih distinct.2 hid harg]

/-- The array that a call returns. -/
def returnValue (f : Func) (shapes : List Shape) (args : List ArrayValue) (call : Call)
    (id : ArrayId) : Option ArrayValue :=
  match (f.decl? id).map ArrayDecl.role, call.host[id]? with
  | some (.param position), some (.shared _) => args[position]?
  | _, _ => shapes[id]?.bind fun shape => ArrayValue.ofCells? (f.elemOf id) shape (call.read id)

/-- The array to return is there, as an argument or as the host's copy. -/
theorem exec_returned {f : Func} {shapes : List Shape} {table : HostTable} {args : List ArrayValue}
    {signature : Signature} {call : Call} (wf : f.Checked)
    (res : Shapes.Resolved f args table shapes) (accepted : signature.Accepts f args)
    (sized : call.Sized f shapes) :
    exec (returned f shapes args) call =
      (.ok (f.returns.bind (returnValue f shapes args call)), call) := by
  unfold returned
  cases hret : f.returns with
  | none => rfl
  | some id =>
    have hid := wf.returned hret
    obtain ⟨decl, hdecl⟩ := Func.exists_decl hid
    obtain ⟨shape, hshape⟩ := res.exists_shape hid
    have hcells := sized.cells? hid
    have hvalue : ArrayValue.ofCells? decl.elem shape (call.read id) =
        some ⟨decl.elem, shape, .owned ((call.read id).map decl.elem.coerce)⟩ := by
      rw [ArrayValue.ofCells?, if_pos]
      rw [sized.size_read hid]
      simp [sizeAt, hshape]
    have hload : exec (do
        let cells ← load id
        return some (← expect (ArrayValue.ofCells? decl.elem (← expect shapes[id]?) cells))) call =
          (.ok (ArrayValue.ofCells? decl.elem shape (call.read id)), call) := by
      simp only [exec_bind, exec_load, hcells, exec_expect, hshape, hvalue, orFault, exec_pure]
    rw [hshape] at hload
    simp only [exec_bind, exec_expect, hdecl, orFault, exec_get, Option.bind_some, returnValue,
      Option.map_some, hshape, Func.elemOf_eq hdecl]
    cases hs : call.host[id]? with
    | none => simp [Call.cells?, hs] at hcells
    | some storage =>
      cases hrole : decl.role with
      | scratch => exact hload
      | param position =>
        cases storage with
        | owned own => exact hload
        | shared handle =>
          have hlt : position < args.length := accepted.length ▸ wf.position_lt hdecl hrole
          simp only [List.getElem?_eq_getElem hlt, exec_bind, exec_expect, orFault, exec_pure]

/-! ## The end of a call -/

theorem exec_forM_map {α β : Type} (g : α → β) (xs : List α) (work : β → CallM Unit) (call : Call) :
    exec (xs.forM fun x => work (g x)) call = exec ((xs.map g).forM work) call := by
  induction xs generalizing call with
  | nil => rfl
  | cons x rest ih =>
    rw [List.map_cons, exec_forM_cons, exec_forM_cons]
    rcases exec (work (g x)) call with ⟨_ | _, _⟩
    · rfl
    · exact ih _

namespace Tracked

variable {f : Func} {args : List ArrayValue} {shapes : List Shape} {table : HostTable}
  {signature : Signature} {origin : Device} {call : Call} {ref : Memory}

/-- The arrays that a caller can see. -/
def escaping (tracker : Tracker) : List ArrayId :=
  (tracker.bindings.filter (·.escapes)).map (·.array)

theorem mem_escaping (tracked : Tracked f shapes origin call ref) {id : ArrayId} {decl : ArrayDecl}
    (hdecl : f.decl? id = some decl) (hescapes : f.escapes id decl = true) :
    id ∈ escaping call.tracker := by
  obtain ⟨binding, hbinding, harray, hsame⟩ := tracked.bound hdecl
  refine List.mem_map.mpr ⟨binding, List.mem_filter.mpr ⟨List.mem_of_getElem? hbinding, ?_⟩, harray⟩
  rw [hsame, hescapes]

theorem lt_of_mem_escaping (tracked : Tracked f shapes origin call ref) {id : ArrayId}
    (h : id ∈ escaping call.tracker) : id < f.arrays.length := by
  obtain ⟨binding, hmem, rfl⟩ := List.mem_map.mp h
  obtain ⟨i, hi⟩ := List.getElem?_of_mem (List.mem_filter.mp hmem).1
  have hlt : i < f.arrays.length := by
    rw [← tracked.covers.bindings]
    exact (List.getElem?_eq_some_iff.mp hi).1
  obtain ⟨decl, hdecl⟩ := Func.exists_decl hlt
  obtain ⟨found, hfound, harray, _⟩ := tracked.bound hdecl
  rw [hi, Option.some.injEq] at hfound
  rw [hfound, harray]
  exact hlt

/-- Where the host's copy is valid, it is the reference's. -/
theorem host_eq (tracked : Tracked f shapes origin call ref) {id : ArrayId}
    (h : call.tracker.Valid .host id) : call.host[id]? = ref.arrays[id]? := by
  have hcells := tracked.coherent.host id h
  have hkind := tracked.coherent.kind id
  unfold Call.cells? Memory.cells? at hcells
  rcases hc : call.host[id]? with _ | own | handle <;>
    rcases hr : ref.arrays[id]? with _ | own' | handle' <;>
    simp_all [Storage.handle?]

end Tracked

/-! ## What the caller gets -/

section
variable {unit : CompiledUnit} {table : HostTable} {args : List ArrayValue} {machine : Machine}
  {first call : Call} {shapes : List Shape} {ref : Memory} {device : Device} {id : ArrayId}
  {decl : ArrayDecl} {shape : Shape} {arg : ArrayValue}

/-- An argument in shared memory shows what the reference has in it. -/
theorem Passed.shared_seen (passed : first.Passed id decl shape arg)
    (hdecl : unit.function.decl? id = some decl) (hshape : shapes[id]? = some shape)
    (hpool : device.pool = ref.pool) {handle : Nat} (hstorage : arg.storage = .shared handle)
    (hs : ref.arrays[id]? = some (.shared handle)) :
    arg.observed device = ref.seen unit.function shapes id := by
  simp only [ArrayValue.observed, ArrayValue.cells, hstorage, Device.shared?, hpool, Memory.seen,
    Memory.read, Memory.cells?, hs, Func.elemOf_eq hdecl, hshape, passed.elem, passed.shape,
    Option.getD_some]

/-- An argument that was handed over shows what the reference has. -/
theorem Passed.handed_seen (passed : first.Passed id decl shape arg)
    (hdecl : unit.function.decl? id = some decl) (hshape : shapes[id]? = some shape)
    (kinds : ref.arrays.map Storage.handle? = first.host.map Storage.handle?)
    (hpool : device.pool = ref.pool) (hsame : call.host[id]? = ref.arrays[id]?) :
    (handed call.host id arg).observed device = ref.seen unit.function shapes id := by
  have hkind : ref.arrays[id]?.map Storage.handle? = some arg.storage.handle? := by
    have h := congrArg (·[id]?) kinds
    simpa [List.getElem?_map, passed.storage] using h
  cases hstorage : arg.storage with
  | shared handle =>
    have hs : ref.arrays[id]? = some (.shared handle) := by
      rw [hstorage] at hkind
      exact Memory.sharedHandle?_eq_some.mp (congrArg Option.join hkind)
    rw [handed, hsame, hs]
    exact passed.shared_seen hdecl hshape hpool hstorage hs
  | owned own =>
    rw [hstorage] at hkind
    obtain ⟨cells, hs⟩ := Memory.owns_iff_map.mpr hkind
    simp only [handed, hsame, hs, ArrayValue.withCells, hstorage, ArrayValue.observed,
      ArrayValue.cells, Memory.seen, Memory.read, Memory.cells?, Func.elemOf_eq hdecl, hshape,
      passed.elem, passed.shape, Option.getD_some]

namespace Tracked

variable (started : Started unit table args machine first shapes)
  (wf : unit.function.WellFormed) (accepted : unit.key.signature.Accepts unit.function args)
  (tracked : Tracked unit.function shapes machine.device call ref)
  (kinds : ref.arrays.map Storage.handle? = first.host.map Storage.handle?)
  (hpool : device.pool = ref.pool)
  (hvalid : ∀ id ∈ escaping call.tracker, call.tracker.Valid .host id)

include started wf accepted tracked kinds hpool hvalid

/-- The arguments hold what the reference's memory holds for the parameters. -/
theorem committed_eq_seen :
    (commit unit.function.params call.host args).map (·.observed device) =
      unit.function.params.map (ref.seen unit.function shapes) := by
  refine List.ext_getElem? fun position => ?_
  rw [List.getElem?_map, List.getElem?_map]
  cases hparam : unit.function.params[position]? with
  | none =>
    rw [List.getElem?_eq_none_iff, ← accepted.length, ← length_commit] at hparam
    rw [List.getElem?_eq_none hparam, Option.map_none, Option.map_none]
  | some id =>
    obtain ⟨decl, hdecl, hrole⟩ := wf.param_decl hparam
    obtain ⟨shape, hshape⟩ := started.resolved.exists_shape (Func.lt_of_decl? hdecl)
    obtain ⟨arg, harg, passed⟩ := started.exists_passed wf accepted hparam hdecl hshape
    have hescapes := tracked.mem_escaping hdecl (by simp [Func.escapes, hrole])
    rw [get?_commit wf.params_nodup hparam harg, Option.map_some, Option.map_some,
      passed.handed_seen hdecl hshape kinds hpool (tracked.host_eq (hvalid id hescapes))]

/-- The returned array holds what the reference's memory holds for it. -/
theorem returned_eq_seen :
    (unit.function.returns.bind (returnValue unit.function shapes args call)).map
        (·.observed device) =
      unit.function.returns.map (ref.seen unit.function shapes) := by
  cases hret : unit.function.returns with
  | none => rfl
  | some id =>
    have hid := wf.returned hret
    obtain ⟨decl, hdecl⟩ := Func.exists_decl hid
    obtain ⟨shape, hshape⟩ := started.resolved.exists_shape hid
    have hv := hvalid id (tracked.mem_escaping hdecl (by simp [Func.escapes, hret]))
    have hsame := tracked.host_eq hv
    obtain ⟨storage, hs⟩ := tracked.coherent.intact.exists_storage hid
    rw [Option.bind_some, Option.map_some, returnValue, hdecl, Option.map_some, hs]
    cases storage with
    | shared handle =>
      -- only arguments are shared
      have hfirst : first.host[id]? = some (.shared handle) := by
        rw [hs] at hsame
        rw [← sharedHandle?_eq_some, sharedHandle?, ← List.getElem?_map, ← kinds,
          List.getElem?_map, ← hsame]
        rfl
      rcases started.host_cases wf accepted hfirst with
        ⟨found, position, arg, hfound, hrole, harg, _⟩ | ⟨_, _, _, _, heq⟩
      · obtain rfl : decl = found := Option.some.inj (hdecl.symm.trans hfound)
        obtain ⟨again, hagain, passed⟩ := started.exists_passed wf accepted
          (wf.param_role hdecl hrole).2 hdecl hshape
        obtain rfl : arg = again := Option.some.inj (harg.symm.trans hagain)
        have hstorage : arg.storage = .shared handle :=
          Option.some.inj (passed.storage.symm.trans hfirst)
        simp only [hrole, harg, Option.map_some]
        rw [passed.shared_seen hdecl hshape hpool hstorage (hsame.symm.trans hs)]
      · cases heq
    | owned own =>
      have hread := tracked.coherent.read_eq hv
      have hsize : shape.size = (ref.read id).size := by
        rw [tracked.coherent.size_read hid]
        simp [sizeAt, hshape]
      have hsettled := (tracked.coherent.settled_read ⟨own, hs⟩).map_coerce
      cases decl.role <;>
        simp only [hshape, Option.bind_some, hread, ArrayValue.ofCells?, if_pos hsize, hsettled,
          Option.map_some, ArrayValue.observed, ArrayValue.cells, Memory.seen, Option.getD_some]

end Tracked

end

/-- The report of a call that returns an array. -/
def report (call : Call) (returned : Option ArrayValue) : Outcome :=
  ⟨returned, call.printed, (call.tracker.bindings.map (·.name)).zip call.tracker.states,
    call.launches, call.transfers⟩

/-- What follows the steps of a call: the checks at the end and the report. -/
def ending (f : Func) (shapes : List Shape) (args : List ArrayValue) : CallM Outcome := do
  let tracker := (← get).tracker
  (Tracked.escaping tracker).forM (checkReadable .host)
  let result ← returned f shapes args
  let call ← get
  return ⟨result, call.printed, (tracker.bindings.map (·.name)).zip tracker.states,
    call.launches, call.transfers⟩

theorem exec_body (unit : CompiledUnit) (shapes : List Shape) (table : HostTable)
    (args : List ArrayValue) (call : Call) :
    exec (body unit shapes table args) call =
      match exec (unit.steps.forM (step unit shapes table)) call with
      | (.ok _, mid) => exec (ending unit.function shapes args) mid
      | (.error stop, mid) => (.error stop, mid) := by
  rw [body, exec_bind]
  rcases exec (unit.steps.forM (step unit shapes table)) call with ⟨stop | _, mid⟩
  · rfl
  · simp only [ending, Tracked.escaping, exec_bind, exec_get,
      exec_forM_map Binding.array _ (checkReadable .host)]

section
variable {args : List ArrayValue} {shapes : List Shape} {table : HostTable}
  {signature : Signature} {origin : Device} {call : Call} {ref : Memory}

theorem Tracked.ending_cases {f : Func} (wf : f.WellFormed)
    (res : Shapes.Resolved f args table shapes) (accepted : signature.Accepts f args)
    (tracked : Tracked f shapes origin call ref) :
    (exec (ending f shapes args) call =
        (.ok (call.report (f.returns.bind (returnValue f shapes args call))), call) ∧
      ∀ id ∈ escaping call.tracker, call.tracker.Valid .host id) ∨
    ∃ stop, exec (ending f shapes args) call = (.error stop, call) ∧
      Refusal f shapes origin stop := by
  rcases tracked.checkAll (fun _ => tracked.lt_of_mem_escaping) .host with
    ⟨hok, hvalid⟩ | ⟨stop, hstop, hrefused⟩
  · refine .inl ⟨?_, hvalid⟩
    simp only [ending, exec_bind, exec_get, hok,
      exec_returned wf.toChecked res accepted tracked.coherent.intact.sized, exec_pure]
    rfl
  · refine .inr ⟨stop, ?_, hrefused⟩
    simp only [ending, exec_bind, exec_get, hstop]

end

/-- A whole call follows the reference, and hands over what the reference has. -/
theorem body_follows {unit : CompiledUnit} (sound : unit.Sound) {table : HostTable}
    {args : List ArrayValue} {machine : Machine} {call : Call} {shapes : List Shape}
    (started : Started unit table args machine call shapes)
    (accepted : unit.key.signature.Accepts unit.function args)
    (loaded : unit.Loaded machine.device) (indexed : ∀ step ∈ unit.steps, step.WellIndexed unit)
    (tracked : Tracked unit.function shapes machine.device call call.memory) :
    match exec (body unit shapes table args) call with
    | (.ok outcome, final) => ∃ ref,
        call.memory.evaluate unit.function shapes table (unit.steps.flatMap unit.opsOf) =
          (.ok (), ref) ∧
        outcome.printed = ref.printed ∧
        outcome.returned.map (·.observed final.close.device) =
          unit.function.returns.map (ref.seen unit.function shapes) ∧
        (commit unit.function.params final.host args).map (·.observed final.close.device) =
          unit.function.params.map (ref.seen unit.function shapes)
    | (.error stop, final) => Refusal unit.function shapes machine.device stop ∨
        ∃ ref, call.memory.evaluate unit.function shapes table (unit.steps.flatMap unit.opsOf) =
            (.error stop, ref) ∧
          final.machine.device.pool = ref.pool := by
  have wf := sound.wellFormed
  have followed := steps_follow sound started.resolved accepted loaded indexed tracked
  unfold Follows at followed
  rw [exec_body]
  split at followed
  · next mid hexec =>
    obtain ⟨ref, href, hmid⟩ := followed
    rw [hexec]
    -- the last checks pass or refuse; the reference has no such checks
    rcases hmid.ending_cases wf started.resolved accepted with
      ⟨hend, hvalid⟩ | ⟨stop, hend, hrefused⟩
    · simp only [hend]
      have kinds := congrArg (·.2.arrays.map Storage.handle?) href
      rw [Memory.handle?_evaluate] at kinds
      have hpool : mid.close.device.pool = ref.pool := mid.pool_close.trans hmid.coherent.pool
      exact ⟨ref, href, hmid.coherent.printed,
        hmid.returned_eq_seen started wf accepted kinds.symm hpool hvalid,
        hmid.committed_eq_seen started wf accepted kinds.symm hpool hvalid⟩
    · simp only [hend]
      exact .inl hrefused
  · next stop mid hexec =>
    rw [hexec]
    exact followed

end Call

/-- A call that starts is refused, or its caller sees what the reference run shows. -/
theorem CompiledUnit.run_follows {unit : CompiledUnit} (sound : unit.Sound)
    (indexed : ∀ step ∈ unit.steps, step.WellIndexed unit) {table : HostTable}
    {args : List ArrayValue} {machine : Machine} {call : Call} {shapes : List Shape}
    (hstart : Call.start unit table args machine = .ok (call, shapes))
    (accepted : unit.key.signature.Accepts unit.function args) (bounded : machine.device.Bounded)
    (live : ∀ arg ∈ args, arg.Live machine.device) (loaded : unit.Loaded machine.device) :
    (∃ stop, (unit.run table args machine).result = .error stop ∧
      Refusal unit.function shapes machine.device stop) ∨
    (unit.run table args machine).observed =
      Reference.run unit table args machine.device.pool := by
  have started := Call.start_ok hstart
  have tracked := started.tracked sound.wellFormed accepted bounded live
  have followed := Call.body_follows sound started accepted loaded indexed tracked
  rw [started.memory_eq] at followed
  simp only [Reference.run, Call.resolve_of_start hstart]
  split at followed
  · next outcome final hexec =>
    obtain ⟨ref, href, hprinted, hreturned, hcommit⟩ := followed
    right
    rw [run_of_ok hstart hexec, href]
    simp only [CallResult.observed, Except.map, hprinted, hreturned, hcommit]
  · next stop final hexec =>
    rw [run_of_error hstart hexec]
    rcases followed with hrefused | ⟨ref, href, hpool⟩
    · exact .inl ⟨stop, rfl, hrefused⟩
    · right
      rw [href]
      simp only [CallResult.observed, Except.map,
        ArrayValue.observed_eq_kept (final.pool_close.trans hpool)]

end ArrayOffload
