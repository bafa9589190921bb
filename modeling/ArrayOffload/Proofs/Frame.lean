import ArrayOffload.Call.Run
import ArrayOffload.Proofs.CallState
import ArrayOffload.Proofs.Shapes

/-!
# What work leaves alone

Most actions of a call leave most of its state as it is, whether they succeed or stop. `Keeps` says
so for a view of the state. Work on the host changes arrays, the log and the output only. Work of
the device gives out no handle and drops none, apart from allocation.

* `Keeps`: a view that some work leaves alone, and the reasons for which the work can stop;
* `Device.books`, `Device.keeps_launch`: live handles and programs survive a launch;
* `Call.rest`, `Call.keeps_hostOp`: what operations on the host do not touch;
* `Call.Failure`: the reasons for which a step can stop, apart from stale copies.
-/

namespace ArrayOffload

/-- The work leaves a view of the state as it is, and stops only for reasons in `fails`. -/
def Keeps {σ ε α β : Type} (view : σ → β) (fails : ε → Prop) (work : ExceptT ε (StateM σ) α) :
    Prop :=
  ∀ v, Ensures (fun s => view s = v) work (fun _ s => view s = v)
    (fun e s => view s = v ∧ fails e)

namespace Keeps

variable {σ ε α β γ : Type} {view : σ → γ} {fails : ε → Prop}

theorem pure (a : α) : Keeps view fails (Pure.pure a : ExceptT ε (StateM σ) α) :=
  fun _ => Ensures.pure a fun _ h => h

theorem bind {work : ExceptT ε (StateM σ) α} {next : α → ExceptT ε (StateM σ) β}
    (first : Keeps view fails work) (second : ∀ a, Keeps view fails (next a)) :
    Keeps view fails (work >>= next) := fun v => (first v).bind fun a => second a v

theorem forM {f : α → ExceptT ε (StateM σ) PUnit} (xs : List α)
    (round : ∀ x ∈ xs, Keeps view fails (f x)) : Keeps view fails (xs.forM f) :=
  fun v => Ensures.forM xs fun x hx => round x hx v

theorem mapM {f : α → ExceptT ε (StateM σ) β} (xs : List α)
    (round : ∀ x ∈ xs, Keeps view fails (f x)) : Keeps view fails (xs.mapM f) :=
  fun v => Ensures.mapM xs fun x hx => round x hx v

/-- What depends only on a view is kept with it. -/
theorem mono {work : ExceptT ε (StateM σ) α} {coarse : σ → β} (h : Keeps view fails work)
    (hview : ∀ s t, view s = view t → coarse s = coarse t) : Keeps coarse fails work := by
  intro v s hs
  have hkept := h (view s) s rfl
  rcases he : exec work s with ⟨e | a, t⟩ <;> rw [he] at hkept
  · exact ⟨(hview t s hkept.1).trans hs, hkept.2⟩
  · exact (hview t s hkept).trans hs

theorem get {next : σ → ExceptT ε (StateM σ) β} (h : ∀ s, Keeps view fails (next s)) :
    Keeps view fails (MonadState.get >>= next) := fun v => Ensures.get fun s _ => h s v

theorem modify {f : σ → σ} (h : ∀ s, view (f s) = view s) :
    Keeps view fails (modify f : ExceptT ε (StateM σ) PUnit) := by
  intro v s hs
  rw [exec_modify]
  exact (h s).trans hs

theorem ofExcept {r : Except ε α} (h : ∀ e, r = .error e → fails e) :
    Keeps view fails (MonadExcept.ofExcept r : ExceptT ε (StateM σ) α) := by
  intro v s hs
  rw [exec_ofExcept]
  cases r with
  | ok a => exact hs
  | error e => exact ⟨hs, h e rfl⟩

/-- Work that keeps a view, before work that may change it. -/
theorem before {work : ExceptT ε (StateM σ) α} {next : α → ExceptT ε (StateM σ) β} {v : γ}
    {post : β → σ → Prop} (first : Keeps view fails work)
    (second : ∀ a, Ensures (fun s => view s = v) (next a) post fun e _ => fails e) :
    Ensures (fun s => view s = v) (work >>= next) post fun e _ => fails e :=
  ((first v).weaken (fun _ h => h) (fun _ _ h => h) fun _ _ h => h.2).bind second

theorem throw {e : ε} (h : fails e) : Keeps view fails (throw e : ExceptT ε (StateM σ) α) :=
  fun _ _ hs => ⟨hs, h⟩

end Keeps

/-! ## The device -/

namespace Device

/-- What a device has given out, and the transfers it has counted. -/
structure Books where
  live : List Nat
  programs : HandleTable Kernel
  lastHandle : Nat
  copyIns : Nat
  copyOuts : Nat

def books (device : Device) : Books :=
  ⟨device.buffers.keys, device.programs, device.lastHandle, device.counters.copyIns,
    device.counters.copyOuts⟩

theorem books_withCells (device : Device) (handle : Nat) (cells : Cells) :
    (device.withCells handle cells).books = device.books := by
  unfold withCells
  split
  · rfl
  · next elem old hget =>
    have hmem : handle ∈ device.buffers.keys := HandleTable.mem_keys_iff.mpr ⟨_, hget⟩
    simp [books, HandleTable.keys_set_of_mem _ hmem]
  · rfl

/-- Work of the device that neither gives out nor takes back, and moves nothing to or from the
host. -/
abbrev KeepsBooks {α : Type} (work : DeviceM α) : Prop := Keeps books (fun _ => True) work

theorem keeps_orFault {α : Type} (found : Option α) :
    KeepsBooks (MonadExcept.ofExcept (orFault found) : DeviceM α) :=
  Keeps.ofExcept fun _ _ => trivial

theorem keeps_fail {α : Type} (cause : DeviceError) : KeepsBooks (fail cause : DeviceM α) :=
  Keeps.throw trivial

theorem keeps_load (kernel : Kernel) (bindings : List Nat) (slot need : Nat) :
    KeepsBooks (load kernel bindings slot need) := by
  refine (keeps_orFault _).bind fun handle => Keeps.get fun device =>
    (keeps_orFault _).bind fun cells => ?_
  split
  · exact Keeps.pure _
  · exact keeps_fail _

theorem keeps_save (bindings : List Nat) (slot : Nat) (old values : Cells) :
    KeepsBooks (save bindings slot old values) :=
  (keeps_orFault _).bind fun handle => Keeps.modify fun device => device.books_withCells handle _

theorem keeps_loadOperand (kernel : Kernel) (bindings : List Nat) (size : Nat)
    (operand : KernelOperand) : KeepsBooks (loadOperand kernel bindings size operand) := by
  cases operand with
  | slot index => exact (keeps_load _ _ _ _).bind fun cells => Keeps.pure _
  | scalar constant => exact Keeps.pure _

theorem keeps_runOp (kernel : Kernel) (bindings : List Nat) (size : Nat) (op : KernelOp) :
    KeepsBooks (runOp kernel bindings size op) := by
  cases op with
  | map out op args =>
    refine (Keeps.mapM args fun a _ => keeps_loadOperand _ _ _ a).bind fun inputs =>
      (keeps_orFault _).bind fun param => ?_
    split
    · exact (keeps_load _ _ _ _).bind fun old => keeps_save _ _ _ _
    · exact Keeps.throw trivial
  | reduce out op input =>
    exact (keeps_load _ _ _ _).bind fun values => (keeps_load _ _ _ _).bind fun old =>
      (keeps_orFault _).bind fun param => keeps_save _ _ _ _

theorem keeps_checkBindings (kernel : Kernel) (slots : List (KernelParam × Nat)) :
    KeepsBooks (checkBindings kernel slots) := by
  induction slots with
  | nil => exact Keeps.pure _
  | cons slot rest ih =>
    obtain ⟨param, handle⟩ := slot
    refine Keeps.get fun device => ?_
    split
    · exact keeps_fail _
    · split
      · exact ih
      · exact keeps_fail _

theorem keeps_run (kernel : Kernel) (bindings : List Nat) (size : Nat) :
    KeepsBooks (run kernel bindings size) := by
  unfold run
  split
  · exact (keeps_checkBindings _ _).bind fun _ =>
      Keeps.forM _ fun op _ => keeps_runOp _ _ _ op
  · exact keeps_fail _

/-- A launch keeps all handles, whether it succeeds or not. -/
theorem keeps_launch (program : Nat) (grid : Shape) (bindings : List Nat) :
    KeepsBooks (launch program grid bindings) := by
  have htake : KeepsBooks takeLaunchFailure := by
    refine Keeps.get fun device => Keeps.bind ?_ fun _ => Keeps.pure _
    exact Keeps.modify fun _ => rfl
  refine htake.bind fun failure => ?_
  cases failure with
  | some reason => exact keeps_fail _
  | none =>
    refine Keeps.get fun device => ?_
    split
    · exact keeps_fail _
    · split
      · refine Keeps.get fun device => (Keeps.ofExcept fun _ _ => trivial).bind fun size => ?_
        exact (keeps_run _ _ size).bind fun _ => Keeps.modify fun _ => rfl
      · exact keeps_fail _

theorem keeps_transferTarget (handle length : Nat) : KeepsBooks (transferTarget handle length) := by
  refine Keeps.get fun device => ?_
  split
  · split
    · exact Keeps.pure _
    · exact keeps_fail _
  · exact keeps_fail _

/-- A copy in is counted if it succeeds. -/
theorem books_copyIn (handle : Nat) (values : Cells) (books : Books) :
    Ensures (fun device : Device => device.books = books) (copyIn handle values)
      (fun _ device => device.books = { books with copyIns := books.copyIns + 1 })
      (fun _ device => device.books = books ∧ True) := by
  refine (keeps_transferTarget handle values.size books).bind fun target => ?_
  intro device hbooks
  have hkept := (device.books_withCells handle (values.map target.1.elem.coerce)).trans hbooks
  subst hkept
  rfl

/-- A copy out is counted if it succeeds. -/
theorem books_copyOut (handle length : Nat) (books : Books) :
    Ensures (fun device : Device => device.books = books) (copyOut handle length)
      (fun _ device => device.books = { books with copyOuts := books.copyOuts + 1 })
      (fun _ device => device.books = books ∧ True) := by
  refine (keeps_transferTarget handle length books).bind fun target => ?_
  intro device hbooks
  subst hbooks
  rfl

/-- The live buffers, the programs and the last handle. -/
def handles (device : Device) : List Nat × HandleTable Kernel × Nat :=
  (device.buffers.keys, device.programs, device.lastHandle)

theorem handles_of_books {device other : Device} (h : device.books = other.books) :
    device.handles = other.handles :=
  congrArg (fun books : Books => (books.live, books.programs, books.lastHandle)) h

theorem keepsHandles_launch (program : Nat) (grid : Shape) (bindings : List Nat) :
    Keeps handles (fun _ => True) (launch program grid bindings) :=
  (keeps_launch program grid bindings).mono fun _ _ => handles_of_books

/-- A transfer keeps all handles, whether it succeeds or not. -/
theorem keepsHandles_copyIn (handle : Nat) (values : Cells) :
    Keeps handles (fun _ => True) (copyIn handle values) := by
  intro v device hv
  have h := books_copyIn handle values device.books device rfl
  rcases hexec : exec (copyIn handle values) device with ⟨stop | _, after⟩ <;> rw [hexec] at h
  · exact ⟨(handles_of_books h.1).trans hv, trivial⟩
  · refine Eq.trans ?_ hv
    exact congrArg (fun books : Books => (books.live, books.programs, books.lastHandle)) h

theorem keepsHandles_copyOut (handle length : Nat) :
    Keeps handles (fun _ => True) (copyOut handle length) := by
  intro v device hv
  have h := books_copyOut handle length device.books device rfl
  rcases hexec : exec (copyOut handle length) device with ⟨stop | _, after⟩ <;> rw [hexec] at h
  · exact ⟨(handles_of_books h.1).trans hv, trivial⟩
  · refine Eq.trans ?_ hv
    exact congrArg (fun books : Books => (books.live, books.programs, books.lastHandle)) h

end Device

/-! ## The host -/

/-- Where an array is stored, without its elements. -/
def Storage.emptied : Storage → Storage
  | .owned _ => .owned #[]
  | .shared handle => .shared handle

namespace Call

/-- The reasons for which a step can stop, apart from stale copies. -/
inductive Failure : Stop OffloadError → Prop
  | fault : Failure .fault
  | callFailed (callee message : String) : Failure (.error (.callFailed callee message))
  | device (cause : DeviceError) : Failure (.error (.device cause))

theorem Failure.ofDevice (stop : Stop DeviceError) : Failure (stop.map .device) := by
  cases stop with
  | error cause => exact .device cause
  | fault => exact .fault

/-- Work of the device, seen from a call. -/
theorem ensures_onDevice {α : Type} {work : DeviceM α} {pre : Call → Prop} {post : α → Call → Prop}
    {fails : Stop OffloadError → Call → Prop}
    (h : ∀ call, pre call → Ensures (fun device => device = call.machine.device) work
      (fun a device => post a (call.withDevice device))
      fun stop device => fails (stop.map .device) (call.withDevice device)) :
    Ensures pre (onDevice work) post fails := by
  intro call hcall
  have hwork := h call hcall call.machine.device rfl
  rw [exec_onDevice]
  rcases hexec : exec work call.machine.device with ⟨stop | a, device⟩ <;> rw [hexec] at hwork
  · exact hwork
  · exact hwork

/-- All of a call but the elements of its arrays, its output and the log. -/
def rest (call : Call) : Call :=
  { call with
    host := call.host.map Storage.emptied
    printed := []
    machine :=
      { device := { call.machine.device with pool := [] }
        journal := []
        notes := [] } }

theorem rest_withCells (call : Call) (id : ArrayId) (cells : Cells) :
    (call.withCells id cells).rest = call.rest := by
  unfold withCells
  split
  · rfl
  · next old hs =>
    have hhost : (call.host.set id (.owned cells)).map Storage.emptied =
        call.host.map Storage.emptied := by
      refine List.ext_getElem? fun other => ?_
      by_cases hother : id = other
      · subst hother
        obtain ⟨hlt, hold⟩ := List.getElem?_eq_some_iff.mp hs
        simp [hlt, hold, Storage.emptied]
      · simp [hother]
    simp only [rest, hhost]
  · rfl

/-- Work that touches the elements of arrays, the output and the log only. -/
abbrev KeepsRest {α : Type} (work : CallM α) : Prop := Keeps rest Failure work

theorem keeps_expect {α β : Type} {view : Call → β} (found : Option α) :
    Keeps view Failure (expect found) := by
  refine Keeps.ofExcept fun stop hstop => ?_
  cases found with
  | some a => cases hstop
  | none =>
    cases hstop
    exact .fault

theorem keeps_load {β : Type} {view : Call → β} (id : ArrayId) : Keeps view Failure (load id) :=
  Keeps.get fun _ => keeps_expect _

theorem keeps_sizeOf {β : Type} {view : Call → β} (shapes : List Shape) (id : ArrayId) :
    Keeps view Failure (sizeOf shapes id) :=
  (keeps_expect _).bind fun _ => Keeps.pure _

/-- Memory for the host is found or refused. -/
theorem keeps_zeros {β : Type} {view : Call → β} (device : Device) (purpose : Purpose) (elem : Elem)
    (length : Nat) :
    Keeps view Failure (MonadExcept.ofExcept (zeros device purpose elem length)) := by
  refine Keeps.ofExcept fun stop hstop => ?_
  unfold zeros at hstop
  cases hzeroed : device.zeroed purpose elem length with
  | ok cells =>
    rw [hzeroed] at hstop
    cases hstop
  | error cause =>
    rw [hzeroed] at hstop
    cases hstop
    exact .ofDevice cause

theorem keeps_record (event : Event) : KeepsRest (record event) := Keeps.modify fun _ => rfl

theorem keeps_store (id : ArrayId) (cells : Cells) : KeepsRest (store id cells) := by
  refine (keeps_load id).bind fun old => ?_
  split
  · exact Keeps.modify fun call => call.rest_withCells id cells
  · exact Keeps.throw .fault

theorem keeps_storeAt (id : ArrayId) (index : Nat) (value : Float) :
    KeepsRest (storeAt id index value) := by
  refine (keeps_load id).bind fun old => ?_
  split
  · exact Keeps.modify fun call => call.rest_withCells id _
  · exact Keeps.throw .fault

theorem keeps_loadOperand (operand : Operand) : KeepsRest (loadOperand operand) := by
  cases operand with
  | array id => exact (keeps_load id).bind fun _ => Keeps.pure _
  | scalar constant => exact Keeps.pure _

theorem keeps_printArray (f : Func) (id : ArrayId) : KeepsRest (printArray f id) :=
  (keeps_expect _).bind fun _ => (keeps_load id).bind fun _ =>
    (keeps_record _).bind fun _ => Keeps.modify fun _ => rfl

theorem keeps_named (f : Func) (id : ArrayId) : KeepsRest (named f id) :=
  (keeps_expect _).bind fun _ => (keeps_load id).bind fun _ => Keeps.pure _

theorem keeps_callHost {f : Func} {table : HostTable} {callee : String} {hostFn : HostFn}
    (found : table.find? callee = some hostFn) (reads writes : List ArrayId) :
    KeepsRest (callHost f table callee reads writes) := by
  unfold callHost
  rw [found]
  refine (Keeps.mapM reads fun id _ => keeps_named f id).bind fun inputs =>
    (Keeps.mapM writes fun id _ => keeps_named f id).bind fun outputs => ?_
  split
  · next stop _ =>
    cases stop with
    | error message => exact Keeps.throw (.callFailed callee message)
    | fault => exact Keeps.throw .fault
  · refine Keeps.bind (Keeps.modify fun _ => rfl) fun _ => Keeps.forM _ fun entry _ => ?_
    exact (keeps_expect _).bind fun decl => keeps_store _ _

/-- An operation on the host leaves all else alone. Its callee was looked up before the first step,
so it stops only for a fault or a failing host function. -/
theorem keeps_hostOp {f : Func} {args : List ArrayValue} {shapes : List Shape} {table : HostTable}
    {op : Op} (res : Shapes.Resolved f args table shapes) (hop : op ∈ f.body) :
    KeepsRest (hostOp f shapes table op) := by
  cases op with
  | map out op args =>
    exact (Keeps.mapM args fun a _ => keeps_loadOperand a).bind fun inputs =>
      (keeps_expect _).bind fun decl => (keeps_sizeOf _ _).bind fun size =>
        (keeps_expect _).bind fun cells => keeps_store _ _
  | reduce out op input =>
    exact (keeps_load _).bind fun values => (keeps_expect _).bind fun decl => keeps_storeAt _ _ _
  | scan out op input =>
    exact (keeps_load _).bind fun values => (keeps_expect _).bind fun decl => keeps_store _ _
  | store array index constant => exact (keeps_expect _).bind fun decl => keeps_storeAt _ _ _
  | print arrays => exact Keeps.forM arrays fun id _ => keeps_printArray f id
  | call name reads writes =>
    obtain ⟨hostFn, found⟩ := res.callee hop
    exact keeps_callHost found reads writes

theorem keeps_returned {β : Type} {view : Call → β} (f : Func) (shapes : List Shape)
    (args : List ArrayValue) : Keeps view Failure (returned f shapes args) := by
  have loaded : ∀ (id : ArrayId) (decl : ArrayDecl), Keeps view Failure (do
      let cells ← load id
      return some (← expect (ArrayValue.ofCells? decl.elem (← expect shapes[id]?) cells))) :=
    fun id decl => (keeps_load id).bind fun cells => (keeps_expect _).bind fun shape =>
      (keeps_expect _).bind fun value => Keeps.pure _
  unfold returned
  cases f.returns with
  | none => exact Keeps.pure _
  | some id =>
    refine (keeps_expect _).bind fun decl => Keeps.get fun call =>
      (keeps_expect _).bind fun storage => ?_
    cases decl.role with
    | scratch => exact loaded id decl
    | param position =>
      cases storage with
      | owned cells => exact loaded id decl
      | shared handle => exact (keeps_expect _).bind fun arg => Keeps.pure _

end Call

end ArrayOffload
