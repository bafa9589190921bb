import ArrayOffload.Plan.CompiledUnit
import ArrayOffload.Proofs.Intact

/-!
# Runs over a single memory

What the steps of a unit mean, wherever they are carried out. There is one memory, and it holds every
array once: transfers do nothing, and a launch stands for the operations of its kernel's region. The
caller gets what this memory holds in the end.

* `Memory`: the arrays, the memory that some of them share, and the printed lines;
* `Memory.evaluate`: operations, one after the other;
* `CompiledUnit.opsOf`: the operations that a step stands for;
* `Reference.run`: what a caller sees of the steps of a unit;
* `Call.exec_hostOps`: the host of a call carries out operations in this way.
-/

namespace ArrayOffload

structure Memory where
  /-- The elements of each array, or the shared memory that holds them. -/
  arrays : List Storage
  pool : HandleTable Cells
  printed : List String

namespace Memory

def cells? (memory : Memory) (id : ArrayId) : Option Cells :=
  match memory.arrays[id]? with
  | none => none
  | some (.owned cells) => some cells
  | some (.shared handle) => memory.pool.get? handle

/-- The elements of an array, none for an array that is not there. -/
def read (memory : Memory) (id : ArrayId) : Cells := (memory.cells? id).getD #[]

/-- Replace the elements of an array, for all arrays that share its memory. -/
def write (memory : Memory) (id : ArrayId) (cells : Cells) : Memory :=
  match memory.arrays[id]? with
  | none => memory
  | some (.owned _) => { memory with arrays := memory.arrays.set id (.owned cells) }
  | some (.shared handle) => { memory with pool := memory.pool.set handle cells }

def writeAll (memory : Memory) (stores : List (ArrayId × Cells)) : Memory :=
  stores.foldl (fun memory entry => memory.write entry.1 entry.2) memory

def say (memory : Memory) (lines : List String) : Memory :=
  { memory with printed := memory.printed ++ lines }

def apply (memory : Memory) (effect : Effect) : Memory :=
  (memory.say effect.lines).writeAll effect.stores

/-- Operations, one after the other. What was done before a stop stays done. -/
def evaluate (f : Func) (shapes : List Shape) (table : HostTable) :
    List Op → Memory → Except (Stop OffloadError) Unit × Memory
  | [], memory => (.ok (), memory)
  | op :: ops, memory =>
    match op.effect f shapes table memory.read with
    | .error stop => (.error stop, memory)
    | .ok effect => evaluate f shapes table ops (memory.apply effect)

/-- The memory that a call starts from: its arguments as they are passed, and zeros. -/
def start (f : Func) (shapes : List Shape) (args : List ArrayValue) (pool : HandleTable Cells) :
    Memory where
  arrays := (f.arrays.zip shapes).map fun (decl, shape) =>
    match decl.role with
    | .param position => (args[position]?.map (·.storage)).getD (.owned #[])
    | .scratch => .owned (Array.replicate shape.size (Number.ofCode false 0))
  pool
  printed := []

/-- An array as it is handed to the caller: type, shape and elements. -/
def seen (memory : Memory) (f : Func) (shapes : List Shape) (id : ArrayId) : Elem × Shape × Cells :=
  (f.elemOf id, shapes[id]?.getD [], memory.read id)

end Memory

/-- The operations that a step stands for. -/
def CompiledUnit.opsOf (unit : CompiledUnit) : Step → List Op
  | .copyIn _ | .copyOut _ => []
  | .launch index =>
    (unit.kernels[index]?.bind fun kernel => unit.regions[kernel.plan.kernel.region]?).elim []
      (·.ops unit.function)
  | .hostRegion index => unit.regions[index]?.elim [] (·.ops unit.function)
  | .hostOp index => unit.function.body[index]?.toList

/-- What is seen of a call: how it ended, with the printed lines and the returned array if it
succeeded, and the arguments afterwards. -/
structure Observed where
  result : Except (Stop OffloadError) (List String × Option (Elem × Shape × Cells))
  args : List (Elem × Shape × Cells)

namespace Reference

/-- An argument that is not handed over. The caller's own elements are as they were passed. -/
def kept (pool : HandleTable Cells) (arg : ArrayValue) : Elem × Shape × Cells :=
  (arg.elem, arg.shape, match arg.storage with
    | .owned cells => cells
    | .shared handle => (pool.get? handle).getD #[])

/-- The steps of a unit over a single memory, as a caller sees them. The arguments and the returned
array are handed over if all operations succeed. -/
def run (unit : CompiledUnit) (table : HostTable) (args : List ArrayValue)
    (pool : HandleTable Cells) : Observed :=
  let f := unit.function
  match Shapes.resolve f args table with
  | .error stop => ⟨.error stop, args.map (kept pool)⟩
  | .ok shapes =>
    let ops := unit.steps.flatMap unit.opsOf
    match (Memory.start f shapes args pool).evaluate f shapes table ops with
    | (.error stop, final) => ⟨.error stop, args.map (kept final.pool)⟩
    | (.ok _, final) =>
      ⟨.ok (final.printed, f.returns.map (final.seen f shapes)), f.params.map (final.seen f shapes)⟩

end Reference

namespace Memory

variable {memory : Memory} {f : Func} {shapes : List Shape} {table : HostTable} {id : ArrayId}

/-! ## Writes -/

/-- The memory has elements for the array alone. -/
def Owns (memory : Memory) (id : ArrayId) : Prop :=
  ∃ cells, memory.arrays[id]? = some (.owned cells)

theorem owns_iff_map : memory.Owns id ↔ memory.arrays[id]?.map Storage.handle? = some none := by
  rw [Owns]
  rcases memory.arrays[id]? with _ | own | key <;> simp [Storage.handle?]

/-- The shared memory that holds an array. -/
def sharedHandle? (memory : Memory) (id : ArrayId) : Option Nat :=
  (memory.arrays[id]?.map Storage.handle?).join

theorem sharedHandle?_eq_some {handle : Nat} :
    memory.sharedHandle? id = some handle ↔ memory.arrays[id]? = some (.shared handle) := by
  rw [sharedHandle?]
  rcases memory.arrays[id]? with _ | own | key <;> simp [Storage.handle?]

theorem write_of_owns (h : memory.Owns id) (cells : Cells) :
    memory.write id cells = { memory with arrays := memory.arrays.set id (.owned cells) } := by
  obtain ⟨old, hold⟩ := h
  simp only [write, hold]

theorem write_of_shared {handle : Nat} (h : memory.arrays[id]? = some (.shared handle))
    (cells : Cells) :
    memory.write id cells = { memory with pool := memory.pool.set handle cells } := by
  simp only [write, h]

theorem arrays_write (h : memory.Owns id) (cells : Cells) (other : ArrayId) :
    (memory.write id cells).arrays[other]? =
      if other = id then some (.owned cells) else memory.arrays[other]? := by
  rw [write_of_owns h]
  obtain ⟨old, hold⟩ := h
  by_cases ho : other = id
  · subst ho
    simp [List.getElem?_set_self (List.getElem?_eq_some_iff.mp hold).1]
  · simp [List.getElem?_set_ne (Ne.symm ho), ho]

theorem pool_write (h : memory.Owns id) (cells : Cells) :
    (memory.write id cells).pool = memory.pool := by
  rw [write_of_owns h]

theorem printed_write (memory : Memory) (id : ArrayId) (cells : Cells) :
    (memory.write id cells).printed = memory.printed := by
  unfold write
  split <;> rfl

theorem cells?_write (h : memory.Owns id) (cells : Cells) (other : ArrayId) :
    (memory.write id cells).cells? other =
      if other = id then some cells else memory.cells? other := by
  simp only [cells?, arrays_write h, pool_write h]
  by_cases ho : other = id <;> simp [ho]

/-- All arrays that share the memory get the new elements. -/
theorem cells?_write_shared {handle : Nat} (h : memory.arrays[id]? = some (.shared handle))
    (cells : Cells) (other : ArrayId) :
    (memory.write id cells).cells? other =
      if memory.sharedHandle? other = some handle then some cells else memory.cells? other := by
  rw [write_of_shared h]
  rcases ho : memory.arrays[other]? with _ | own | key <;>
    simp [cells?, sharedHandle?, ho, Storage.handle?, HandleTable.get?_set]

/-- A write does not change which arrays share memory. -/
theorem handle?_write (memory : Memory) (id : ArrayId) (cells : Cells) :
    (memory.write id cells).arrays.map Storage.handle? = memory.arrays.map Storage.handle? := by
  by_cases howns : memory.Owns id
  · refine List.ext_getElem? fun other => ?_
    simp only [List.getElem?_map, arrays_write howns]
    split
    · next heq =>
      subst heq
      exact (owns_iff_map.mp howns).symm
    · rfl
  · unfold write
    split
    · rfl
    · next old hold => exact absurd ⟨old, hold⟩ howns
    · rfl

theorem handle?_apply (memory : Memory) (effect : Effect) :
    (memory.apply effect).arrays.map Storage.handle? = memory.arrays.map Storage.handle? := by
  have general : ∀ (stores : List (ArrayId × Cells)) (memory : Memory),
      (memory.writeAll stores).arrays.map Storage.handle? =
        memory.arrays.map Storage.handle? := by
    intro stores
    induction stores with
    | nil => exact fun memory => rfl
    | cons entry rest ih => exact fun memory => (ih _).trans (handle?_write memory _ _)
  exact general _ _

/-! ## Operations -/

theorem evaluate_append (first second : List Op) (memory : Memory) :
    memory.evaluate f shapes table (first ++ second) =
      match memory.evaluate f shapes table first with
      | (.error stop, mid) => (.error stop, mid)
      | (.ok _, mid) => mid.evaluate f shapes table second := by
  induction first generalizing memory with
  | nil => rfl
  | cons op rest ih =>
    simp only [List.cons_append, evaluate]
    cases op.effect f shapes table memory.read with
    | error stop => rfl
    | ok effect => exact ih _

theorem handle?_evaluate (ops : List Op) (memory : Memory) :
    (memory.evaluate f shapes table ops).2.arrays.map Storage.handle? =
      memory.arrays.map Storage.handle? := by
  induction ops generalizing memory with
  | nil => rfl
  | cons op rest ih =>
    rw [evaluate]
    cases op.effect f shapes table memory.read with
    | error stop => rfl
    | ok effect => exact (ih _).trans (handle?_apply _ _)

end Memory

/-! ## The host of a call -/

namespace Call

/-- What a call has on the host. -/
def memory (call : Call) : Memory := ⟨call.host, call.machine.device.pool, call.printed⟩

theorem memory_withCells (call : Call) (id : ArrayId) (cells : Cells) :
    (call.withCells id cells).memory = call.memory.write id cells := by
  unfold withCells Memory.write memory
  cases call.host[id]? with
  | none => rfl
  | some storage => cases storage <;> rfl

theorem memory_apply (call : Call) (effect : Effect) :
    (call.apply effect).memory = call.memory.apply effect := by
  have general : ∀ (stores : List (ArrayId × Cells)) (call : Call),
      (call.storeAll stores).memory = call.memory.writeAll stores := by
    intro stores
    induction stores with
    | nil => exact fun call => rfl
    | cons entry rest ih =>
      intro call
      rw [storeAll, List.foldl_cons, Memory.writeAll, List.foldl_cons, ← memory_withCells]
      exact ih _
  exact general _ _

variable {f : Func} {args : List ArrayValue} {shapes : List Shape} {table : HostTable} {call : Call}

theorem Sized.storeAll (sized : call.Sized f shapes) {stores : List (ArrayId × Cells)}
    (fits : ∀ entry ∈ stores, entry.1 < f.arrays.length ∧ entry.2.size = sizeAt shapes entry.1) :
    (call.storeAll stores).Sized f shapes := by
  induction stores generalizing call with
  | nil => exact sized
  | cons entry rest ih =>
    obtain ⟨hlt, hsize⟩ := fits entry (by simp)
    exact ih (sized.withCells hlt hsize) fun other ho => fits other (by simp [ho])

/-- What an operation of the body stores fits. -/
theorem Sized.stores_fit (wf : f.Checked) (res : Shapes.Resolved f args table shapes)
    (sized : call.Sized f shapes) {op : Op} (hop : op ∈ f.body) {effect : Effect}
    (h : op.effect f shapes table call.read = .ok effect) :
    ∀ entry ∈ effect.stores,
      entry.1 < f.arrays.length ∧ entry.2.size = sizeAt shapes entry.1 := by
  intro entry hentry
  have hwritten := (Op.mem_stores h).mp (List.mem_map.mpr ⟨entry, hentry, rfl⟩)
  exact ⟨wf.mem_lt hop (List.mem_append_right _ hwritten),
    Op.size_of_mem_stores wf res (fun _ => sized.size_read) hop h hentry⟩

theorem Sized.apply (wf : f.Checked) (res : Shapes.Resolved f args table shapes)
    (sized : call.Sized f shapes) {op : Op} (hop : op ∈ f.body) {effect : Effect}
    (h : op.effect f shapes table call.read = .ok effect) : (call.apply effect).Sized f shapes := by
  -- lines and notes are kept outside of the arrays
  have hsaid : ((call.note effect.notes).say effect.lines).Sized f shapes := sized
  exact hsaid.storeAll (sized.stores_fit wf res hop h)

/-- Operations that the host of a call carries out do to its memory what they mean. -/
theorem exec_hostOps (wf : f.Checked) (res : Shapes.Resolved f args table shapes)
    (sized : call.Sized f shapes) {ops : List Op} (hops : ∀ op ∈ ops, op ∈ f.body) :
    ∃ after, exec (ops.forM (hostOp f shapes table)) call =
        ((call.memory.evaluate f shapes table ops).1, after) ∧
      after.memory = (call.memory.evaluate f shapes table ops).2 ∧ after.Sized f shapes := by
  induction ops generalizing call with
  | nil => exact ⟨call, rfl, rfl, sized⟩
  | cons op rest ih =>
    have hop := hops op (by simp)
    have hread : call.memory.read = call.read := rfl
    rw [exec_forM_cons, exec_hostOp wf res sized hop, Memory.evaluate, hread]
    cases heffect : op.effect f shapes table call.read with
    | error stop => exact ⟨call, rfl, rfl, sized⟩
    | ok effect =>
      have next := ih (sized.apply wf res hop heffect) fun other ho => hops other (by simp [ho])
      rw [memory_apply] at next
      exact next

end Call

end ArrayOffload
